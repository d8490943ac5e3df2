import SdkSmith.Naming.Words
import SdkSmith.Text.Capital

/-!
Words as identifiers: camel case for variables, studly case for classes, and the words that the
generated language keeps for itself.
-/
namespace SdkSmith.Naming

/-- The words of normal text. -/
def normalWords (s : String) : List (List Char) :=
  (Text.pieces (· == ' ') (normalizeChars s.toList)).filter fun w => !w.isEmpty

/-- The first word in lower case, each later one capitalized. -/
def camelChars : List (List Char) → List Char
  | [] => []
  | w :: ws => w.map Char.toLower ++ ws.flatMap Text.capitalize

/-- A text as a lower camel-case identifier. -/
def camelCase (s : String) : String :=
  String.ofList (camelChars (normalWords s))

/-- A text as an upper camel-case identifier. -/
def studlyCase (s : String) : String :=
  String.ofList ((normalWords s).flatMap Text.capitalize)

/-- The first letter in upper case. -/
def capitalizeFirst (s : String) : String :=
  String.ofList (Text.capitalize s.toList)

/-- Keywords and type names that no class may have, in lower case. -/
def reservedWords : List String := [
  "abstract", "and", "array", "as", "bool", "break", "callable", "case", "catch", "class",
  "clone", "const", "continue", "declare", "default", "die", "do", "echo", "else", "elseif",
  "empty", "enddeclare", "endfor", "endforeach", "endif", "endswitch", "endwhile", "enum",
  "eval", "exit", "extends", "false", "final", "finally", "float", "fn", "for", "foreach",
  "function", "global", "goto", "if", "implements", "include", "instanceof", "insteadof", "int",
  "interface", "isset", "iterable", "list", "match", "mixed", "namespace", "never", "new",
  "null", "object", "or", "parent", "print", "private", "protected", "public", "readonly",
  "require", "return", "self", "static", "string", "switch", "throw", "trait", "true", "try",
  "unset", "use", "var", "void", "while", "xor", "yield"
]

/-- Reserved in any letter case. -/
def isReserved (name : String) : Bool :=
  reservedWords.contains (Text.lower name)

/-- A type in angle brackets, such as `<string>`, in the place of data. -/
def isTypeAnnotation (value : String) : Bool :=
  let s := Text.trimWhile Text.isBlank value.toList
  2 < s.length && s.head? == some '<' && s.getLast? == some '>'

/-- The singular of an English plural, by its ending, on the reversed word. -/
def singularRev : List Char → List Char
  | 's' :: 'e' :: 'i' :: c :: r => 'y' :: c :: r
  | 's' :: 'e' :: 's' :: 's' :: r => 's' :: 's' :: r
  | 's' :: 'e' :: 'x' :: r => 'x' :: r
  | 's' :: 's' :: r => 's' :: 's' :: r
  | 's' :: c :: r => c :: r
  | r => r

/-- The singular of an English plural, by its ending. -/
def singularize (word : String) : String :=
  String.ofList (singularRev word.toList.reverse).reverse

/-- A variable or method name. -/
def variableName (text : String) : String :=
  let name := camelCase text
  if name.isEmpty then "value" else name

/-- A class name; `suffix` follows a reserved word. -/
def className (text suffix : String) : String :=
  let name := studlyCase text
  let name := if name.isEmpty then "Unnamed" else name
  if isReserved name then name ++ suffix else name

/-- The key of a credential without its leading `X-`. -/
def credentialKey (key : String) : String :=
  match key.toList with
  | 'X' :: '-' :: r => String.ofList r
  | 'x' :: '-' :: r => String.ofList r
  | _ => key

/-- The variable for a credential. -/
def credentialName (key : String) : String :=
  variableName (credentialKey key)

end SdkSmith.Naming
