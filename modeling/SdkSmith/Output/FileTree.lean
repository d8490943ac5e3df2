import SdkSmith.Output.Path

/-!
A file system in memory: directories, and files with their contents. Every name on the way to a
place is a directory's, and names are limited in length.
-/
namespace SdkSmith.Output

/-- The contents of a file; of what is no text only the size is kept. -/
inductive Contents
  | text (s : String)
  | binary (size : Nat)
deriving DecidableEq, Repr

/-- The size in bytes. -/
def Contents.size : Contents → Nat
  | .text s => s.utf8ByteSize
  | .binary n => n

/-- The text, if the contents are one. -/
def Contents.text? : Contents → Option String
  | .text s => some s
  | .binary _ => none

/-- The names on the way from the root. -/
abbrev Place := List String

/-- Directories and files by place. -/
structure FileTree where
  directories : List Place
  files : List (Place × Contents)
deriving DecidableEq, Repr

namespace FileTree

/-- A file system with nothing but its root. -/
def empty : FileTree := ⟨[], []⟩

/-- The most bytes a name may have. -/
def nameLimit : Nat := 255

/-- Whether a name is short enough. -/
def isNameable (name : String) : Bool :=
  name.utf8ByteSize ≤ nameLimit

/-- The contents of a file. -/
def find? (t : FileTree) (p : Place) : Option Contents :=
  t.files.lookup p

/-- Whether there is a file at a place. -/
def hasFile (t : FileTree) (p : Place) : Bool :=
  (t.find? p).isSome

/-- Whether there is a directory at a place. -/
def isDirectory (t : FileTree) (p : Place) : Bool :=
  p.isEmpty || t.directories.contains p

/-- Whether there is a file or directory at a place. -/
def has (t : FileTree) (p : Place) : Bool :=
  t.isDirectory p || t.hasFile p

/-- The steps of a path. A separator at its end asks for a directory, which an empty last step
does as well. -/
def steps (path : String) : List String :=
  if path.isEmpty then [] else Text.split '/' path

/-- The place that steps from a place lead to; whatever it is that lies there. -/
def follow (t : FileTree) : Place → List String → Option Place
  | here, [] => some here
  | here, name :: names =>
    if !t.isDirectory here then none
    else if name.isEmpty || name = "." then t.follow here names
    else if name = ".." then t.follow here.dropLast names
    else if isNameable name then t.follow (here ++ [name]) names
    else none

/-- The place of a path. -/
def place? (t : FileTree) (path : String) : Option Place :=
  t.follow [] (steps path)

/-- Adds a directory. -/
def addDirectory (t : FileTree) (p : Place) : FileTree :=
  { t with directories := t.directories ++ [p] }

/-- Goes along steps and makes the directories that are missing on the way, until one can not be
made. -/
def makeWay (t : FileTree) : Place → List String → Bool × FileTree
  | here, [] => (t.isDirectory here, t)
  | here, name :: names =>
    let next := here ++ [name]
    if !t.isDirectory here then (false, t)
    else if name.isEmpty || name = "." then t.makeWay here names
    else if name = ".." then t.makeWay here.dropLast names
    else if t.isDirectory next then t.makeWay next names
    else if t.hasFile next || !isNameable name then (false, t)
    else (t.addDirectory next).makeWay next names

/-- Makes a directory and those it lies in. -/
def makeDirectories (t : FileTree) (path : String) : Bool × FileTree :=
  t.makeWay [] (steps path)

/-- Sets the contents of a file. -/
def put (t : FileTree) (p : Place) (c : Contents) : FileTree :=
  { t with files := (p, c) :: t.files.filter fun f => f.1 != p }

/-- Writes a file into a directory that is there. -/
def write (t : FileTree) (path : String) (c : Contents) : Bool × FileTree :=
  match t.place? path with
  | some p => if t.isDirectory p then (false, t) else (true, t.put p c)
  | none => (false, t)

/-- The text of a file. -/
def read? (t : FileTree) (path : String) : Option String :=
  ((t.place? path).bind t.find?).bind Contents.text?

/-- Removes a file. -/
def remove (t : FileTree) (path : String) : Bool × FileTree :=
  match t.place? path with
  | some p =>
    if t.hasFile p then (true, { t with files := t.files.filter fun f => f.1 != p })
    else (false, t)
  | none => (false, t)

/-- The paths of all files with their sizes, sorted by path. -/
def listing (t : FileTree) : List (String × Nat) :=
  (t.files.map fun (p, c) => ("/".intercalate p, c.size)).mergeSort fun a b => !(b.1 < a.1)

end FileTree
end SdkSmith.Output
