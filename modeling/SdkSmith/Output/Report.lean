import SdkSmith.Failure
import SdkSmith.Output.Disk
import SdkSmith.Php.Render

/-!
Writing files. A file that is there with other contents is left alone, unless writing is forced;
one with the same contents is never touched.
-/
namespace SdkSmith.Output
variable {m : Type → Type} [Monad m]

/-- What became of a file. -/
inductive Outcome
  | written
  /-- It was there with these contents. -/
  | unchanged
  /-- It was there with other contents. -/
  | skipped
deriving DecidableEq, Repr

/-- What became of each file, up to the failure that ended the writing, if one did. -/
structure Report where
  outcomes : List (String × Outcome)
  failure : Option Failure
deriving DecidableEq, Repr

/-- The files of an outcome. -/
def Report.paths (r : Report) (o : Outcome) : List String :=
  (r.outcomes.filter fun x => x.2 == o).map (·.1)

/-- Writes a file and makes the directories for it. -/
def create (disk : Disk m) (path text : String) : m (Except Failure Outcome) := do
  if !(← disk.makeDirectories (parent path)) then return .error (.io (parent path))
  if !(← disk.write path text) then return .error (.io path)
  return .ok .written

/-- Writes a file, unless what is there stands against it. -/
def writeFile (disk : Disk m) (force : Bool) (path text : String) :
    m (Except Failure Outcome) := do
  if ← disk.has path then
    match ← disk.read? path with
    | none => return .error (.io path)
    | some old =>
      if old = text then return .ok .unchanged
      else if force then create disk path text
      else return .ok .skipped
  else create disk path text

/-- Writes files in order until one fails. -/
def writeTexts (disk : Disk m) (force : Bool) : List (String × String) → m Report
  | [] => return ⟨[], none⟩
  | (path, text) :: files => do
    match ← writeFile disk force path text with
    | .error f => return ⟨[], some f⟩
    | .ok o =>
      let r ← writeTexts disk force files
      return ⟨(path, o) :: r.outcomes, r.failure⟩

/-- The paths of classes below a directory, with their texts. -/
def texts (directory root : String) (files : List Php.File) : List (String × String) :=
  files.map fun f => (join directory (relativePath f root), f.render)

/-- Writes classes below a directory. -/
def writeFiles (disk : Disk m) (force : Bool) (directory root : String) (files : List Php.File) :
    m Report :=
  writeTexts disk force (texts directory root files)

end SdkSmith.Output
