import SdkSmith.Cli.Run
import SdkSmith.Notice.Filter

/-!
The program: a run over the files of the machine. Notices and failures go to the error stream.
-/
namespace SdkSmith

/-- Whether an action goes through. -/
def succeeds (action : IO Unit) : IO Bool :=
  try
    action
    return true
  catch _ => return false

/-- The result of an action that goes through. -/
def outcome? {α : Type} (action : IO α) : IO (Option α) :=
  try
    return some (← action)
  catch _ => return none

/-- The files of the machine. -/
def machine : Output.Disk IO where
  has path := succeeds do
    let _ ← IO.FS.realPath path
  read? path := outcome? (IO.FS.readFile path)
  makeDirectories path :=
    if path.isEmpty then return true else succeeds (IO.FS.createDirAll path)
  write path text := succeeds (IO.FS.writeFile path text)

/-- The line for a notice. -/
def noticeLine (n : Notice) : String :=
  n.level.name ++ " " ++ n.area ++ ": " ++ n.message

end SdkSmith

/-- Runs the program and gives the exit status. -/
def main (words : List String) : IO UInt32 := do
  let filter := SdkSmith.Notice.Filter.ofSetting (← IO.getEnv "SDKGEN_LOG")
  let t ← SdkSmith.Cli.run SdkSmith.machine words
  for n in t.notices do
    if filter.shows n then IO.eprintln (SdkSmith.noticeLine n)
  IO.print t.ending.out
  if let some text := t.ending.err then IO.eprintln text
  return t.ending.code.toUInt32
