import SdkSmith.Output.FileTree

/-!
What a run needs of a file system, wherever the files are kept.
-/
namespace SdkSmith.Output

/-- The operations of a file system. Those that may fail tell whether they succeeded. -/
structure Disk (m : Type → Type) where
  /-- Whether there is a file or directory at a path. -/
  has : String → m Bool
  /-- The text of a file. -/
  read? : String → m (Option String)
  /-- Makes a directory and those it lies in. -/
  makeDirectories : String → m Bool
  /-- Writes a file into a directory that is there. -/
  write : String → String → m Bool

/-- The file system in memory. -/
def FileTree.disk : Disk (StateM FileTree) where
  has path := fun t => ((t.place? path).any t.has, t)
  read? path := fun t => (t.read? path, t)
  makeDirectories path := fun t => t.makeDirectories path
  write path text := fun t => t.write path (.text text)

end SdkSmith.Output
