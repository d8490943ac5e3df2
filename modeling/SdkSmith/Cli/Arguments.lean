import SdkSmith.Format

/-!
The command line: one input, and options in any order. An option's value follows it, or stands in
the same word after an equals sign.
-/
namespace SdkSmith.Cli

/-- What a run is asked to do. -/
structure Invocation where
  input : String
  format : Format
  config : String
  force : Bool
  outputDir : Option String
deriving DecidableEq, Repr

/-- What a command line asks for. -/
inductive Command
  | help
  | version
  | run (invocation : Invocation)
deriving DecidableEq, Repr

/-- Why a command line cannot be understood. -/
inductive Misuse
  | unexpected (word : String)
  | noValue (option : String)
  | needlessValue (option : String)
  | repeated (option : String)
  | invalid (option value : String)
  | missing (argument : String)
deriving DecidableEq, Repr

/-- What is wrong with the command line. -/
def Misuse.message : Misuse → String
  | .unexpected word => "unexpected argument '" ++ word ++ "' found"
  | .noValue option => "a value is required for '" ++ option ++ "' but none was supplied"
  | .needlessValue option => "unexpected value for '" ++ option ++ "' found"
  | .repeated option => "the argument '" ++ option ++ "' cannot be used multiple times"
  | .invalid option value => "invalid value '" ++ value ++ "' for '" ++ option ++ "'"
  | .missing argument => "the required argument '" ++ argument ++ "' was not provided"

/-- The options that take a value. -/
inductive ValueOption
  | type
  | config
  | outputDir
deriving DecidableEq, Repr

/-- The option of a name. -/
def ValueOption.ofName? : String → Option ValueOption
  | "type" => some .type
  | "config" => some .config
  | "output-dir" => some .outputDir
  | _ => none

/-- What has been given so far. -/
structure Draft where
  input : Option String
  format : Option Format
  config : Option String
  outputDir : Option String
  force : Bool
deriving DecidableEq, Repr

namespace Draft

/-- Nothing yet. -/
def empty : Draft := ⟨none, none, none, none, false⟩

/-- A text that may be given once and is not empty. -/
def once (name value : String) (given : Option String) : Except Misuse (Option String) :=
  if given.isSome then .error (.repeated name)
  else if value.isEmpty then .error (.noValue name)
  else .ok (some value)

/-- Takes the value of an option. -/
def give (d : Draft) (name : String) (value : String) : ValueOption → Except Misuse Draft
  | .type =>
    if d.format.isSome then .error (.repeated name)
    else match Format.parse value with
      | .ok f => .ok { d with format := some f }
      | .error _ => .error (.invalid name value)
  | .config => (once name value d.config).map fun v => { d with config := v }
  | .outputDir => (once name value d.outputDir).map fun v => { d with outputDir := v }

/-- Takes the input. -/
def giveInput (d : Draft) (word : String) : Except Misuse Draft :=
  if d.input.isSome then .error (.unexpected word)
  else if word.isEmpty then .error (.noValue "<INPUT>")
  else .ok { d with input := some word }

/-- Takes the option to overwrite. -/
def giveForce (d : Draft) : Except Misuse Draft :=
  if d.force then .error (.repeated "--force") else .ok { d with force := true }

/-- What has been asked for, if nothing is missing. -/
def finish (d : Draft) : Except Misuse Command :=
  match d.config, d.input with
  | none, _ => .error (.missing "--config <FILE>")
  | _, none => .error (.missing "<INPUT>")
  | some config, some input =>
    .ok (.run ⟨input, d.format.getD .openApi, config, d.force, d.outputDir⟩)

end Draft

/-- A word of a command line. -/
inductive Word
  /-- Two hyphens: nothing after them is an option. -/
  | stop
  | option (name : String) (value : Option String)
  /-- One hyphen, and the first of the letters after it. -/
  | letter (c : Char)
  | plain (text : String)
deriving DecidableEq, Repr

/-- The word of a text. -/
def Word.ofText (text : String) : Word :=
  match text.toList with
  | ['-', '-'] => .stop
  | '-' :: '-' :: rest =>
    match Text.cutAt? ['='] rest with
    | some (name, value) => .option (String.ofList name) (some (String.ofList value))
    | none => .option (String.ofList rest) none
  | '-' :: c :: _ => .letter c
  | _ => .plain text

/-- Takes words that are no options. -/
def takeInputs (d : Draft) (words : List String) : Except Misuse Command := do
  let d ← words.foldlM Draft.giveInput d
  d.finish

/-- Takes words in order. -/
def takeWords (d : Draft) : List String → Except Misuse Command
  | [] => d.finish
  | text :: words =>
    match Word.ofText text with
    | .stop => takeInputs d words
    | .letter 'h' => .ok .help
    | .letter 'V' => .ok .version
    | .letter _ => .error (.unexpected text)
    | .plain text => do
      let d ← d.giveInput text
      takeWords d words
    | .option "help" none => .ok .help
    | .option "version" none => .ok .version
    | .option "force" none => do
      let d ← d.giveForce
      takeWords d words
    | .option name (some value) =>
      match ValueOption.ofName? name with
      | some o => do
        let d ← d.give text value o
        takeWords d words
      | none =>
        .error (if ["help", "version", "force"].contains name then .needlessValue text
          else .unexpected text)
    | .option name none =>
      match ValueOption.ofName? name, words with
      | none, _ => .error (.unexpected text)
      | some _, [] => .error (.noValue text)
      | some o, value :: words =>
        match Word.ofText value with
        | .plain value => do
          let d ← d.give text value o
          takeWords d words
        | _ => .error (.noValue text)

/-- What a command line asks for. -/
def parse (words : List String) : Except Misuse Command :=
  takeWords .empty words

/-- The line that shows how to call the program. -/
def usage : String := "Usage: sdkgen [OPTIONS] --config <FILE> <INPUT>"

/-- The name and version of the program. -/
def versionText : String := "sdkgen 0.3.0\n"

/-- The text about the command line. -/
def helpText : String :=
  "\n".intercalate [
    "Generate a Saloon PHP SDK from an OpenAPI document, Postman collection or HAR file",
    "",
    usage,
    "",
    "Arguments:",
    "  <INPUT>  API description to read",
    "",
    "Options:",
    "      --type <TYPE>       Input format (openapi, postman, har) [default: openapi]",
    "      --config <FILE>     Generator configuration (.json or .toml)",
    "      --force             Overwrite existing files",
    "      --output-dir <DIR>  Directory to write into, overriding `outputDir` from the " ++
      "configuration",
    "  -h, --help              Print help",
    "  -V, --version           Print version",
    ""]

end SdkSmith.Cli
