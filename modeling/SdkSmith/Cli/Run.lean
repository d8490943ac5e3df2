import SdkSmith.Cli.Arguments
import SdkSmith.Notice.Sdk
import SdkSmith.Notice.Source
import SdkSmith.Output.Report

/-!
A run of the program over a file system: the configuration is read first, then the input; the client
is generated in full before anything is written.
-/
namespace SdkSmith.Cli
open Output (Disk)
variable {m : Type → Type} [Monad m]

/-- How a run ends. -/
inductive Ending
  | help
  | version
  | misused (fault : Misuse)
  | failed (failure : Failure)
  | done (report : Output.Report)
deriving DecidableEq, Repr

/-- The lines of paths, indented. -/
def pathLines (paths : List String) : String :=
  String.join (paths.map fun p => "  " ++ p ++ "\n")

/-- What is printed about files. -/
def summary (r : Output.Report) : String :=
  let written := r.paths .written
  let skipped := r.paths .skipped
  "✅ Wrote " ++ toString written.length ++ " file(s)\n" ++ pathLines written
    ++ if skipped.isEmpty then ""
      else "Skipped " ++ toString skipped.length
        ++ " existing file(s), use --force to overwrite:\n" ++ pathLines skipped

namespace Ending

/-- The exit status. -/
def code : Ending → Nat
  | .help | .version | .done _ => 0
  | .failed _ => 1
  | .misused _ => 2

/-- What is printed. -/
def out : Ending → String
  | .help => helpText
  | .version => versionText
  | .done r => summary r
  | .failed _ | .misused _ => ""

/-- What is printed about a failure. -/
def err : Ending → Option String
  | .failed f => some ("❌ " ++ f.message)
  | .misused fault => some ("error: " ++ fault.message ++ "\n\n" ++ usage
      ++ "\n\nFor more information, try '--help'.")
  | .help | .version | .done _ => none

end Ending

/-- The ending of a run, and what was said on the way. -/
structure Trail where
  notices : List Notice
  ending : Ending
deriving Repr

/-- The last name in a path, unless it leads up. -/
def fileName? (path : String) : Option (List Char) :=
  let name := ((Output.trimRev path.toList.reverse).takeWhile (· != '/')).reverse
  if name = ['.', '.'] || name.isEmpty then none else some name

/-- The ending of a file's name, after its last point; a point in front begins no ending. -/
def extension? (path : String) : Option String :=
  (fileName? path).bind fun name =>
    let stem := (name.reverse.dropWhile (· != '.')).drop 1
    if stem.isEmpty then none else some (String.ofList (name.drop (stem.length + 1)))

/-- Settings from the text of a file: TOML if its name says so, or else JSON. -/
def parseSettings (path text : String) : Except Failure Settings :=
  if (extension? path).any fun e => Text.lower e == "toml" then Settings.parseToml text
  else Settings.parseJson text

/-- What is said about the writing of files. -/
def ofReport (r : Output.Report) : List Notice :=
  let each := r.outcomes.filterMap fun (path, o) =>
    match o with
    | .written => none
    | .unchanged => some (.fileUnchanged path)
    | .skipped => some (.fileSkipped path)
  each ++ match r.failure with
    | some _ => []
    | none => [.filesWritten (r.paths .written).length (r.paths .skipped).length]

/-- Writes a client. -/
def writeSdk (disk : Disk m) (i : Invocation) (s : Settings) (c : Client.Sdk) : m Trail := do
  let r ← Output.writeFiles disk (i.force || s.force) (i.outputDir.getD s.outputDir)
    s.namespaceName c.files
  let resolved : List Notice :=
    if c.collisions.isEmpty then [] else [.collisionsResolved c.collisions.length]
  return ⟨resolved ++ ofReport r, match r.failure with
    | some f => .failed f
    | none => .done r⟩

/-- Generates and writes a client for a source. -/
def runSource (disk : Disk m) (i : Invocation) (s : Settings) (source : Source) : m Trail := do
  let said := Notice.ofSource source Url.parts
  match source.describe Url.parts with
  | .error f => return ⟨said, .failed f⟩
  | .ok d =>
    let said := said ++ Notice.ofGeneration d s
    match Client.Sdk.generate d s with
    | .error f => return ⟨said, .failed f⟩
    | .ok c =>
      let t ← writeSdk disk i s c
      return ⟨said ++ t.notices, t.ending⟩

/-- Does what was asked for. -/
def runInvocation (disk : Disk m) (i : Invocation) : m Trail := do
  match ← disk.read? i.config with
  | none => return ⟨[], .failed (.io i.config)⟩
  | some config =>
    match parseSettings i.config config with
    | .error f => return ⟨[], .failed f⟩
    | .ok s =>
      let said := s.unknown.map Notice.unknownKey
      match ← disk.read? i.input with
      | none => return ⟨said, .failed (.io i.input)⟩
      | some text =>
        let said := said ++ [.inputRead i.input i.format]
        let t ← runSource disk i s ⟨i.format, text⟩
        return ⟨said ++ t.notices, t.ending⟩

/-- A run with a command line. -/
def run (disk : Disk m) (words : List String) : m Trail :=
  match parse words with
  | .error fault => return ⟨[], .misused fault⟩
  | .ok .help => return ⟨[], .help⟩
  | .ok .version => return ⟨[], .version⟩
  | .ok (.run i) => runInvocation disk i

end SdkSmith.Cli
