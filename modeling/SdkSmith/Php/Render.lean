import SdkSmith.Php.Class
import SdkSmith.Text.Blank

/-!
The text of PHP classes, in PSR-12 layout: four blanks for each level, and the braces of classes
and methods on lines of their own. Texts are quoted by escaping, so they read back as they were.
-/
namespace SdkSmith.Php

/-- One level of indentation. -/
def indent : Nat → String
  | 0 => ""
  | n + 1 => "    " ++ indent n

/-- A text between single quotes: its backslashes are doubled before others come in. -/
def escapeSingle (s : List Char) : List Char :=
  Text.replace '\'' ['\\', '\''] (Text.replace '\\' ['\\', '\\'] s)

/-- A text between double quotes, where nothing may begin a variable. -/
def escapeDouble (s : List Char) : List Char :=
  Text.replace '$' ['\\', '$']
    (Text.replace '"' ['\\', '"'] (Text.replace '\\' ['\\', '\\'] s))

/-- Floating-point numbers are positional from `0.0001` to below `10 ^ 16`, and otherwise carry an
exponent. -/
def floatLayout : Double.Layout := ⟨-4, 16, false⟩

mutual

/-- The text of a type. -/
def PhpType.render : PhpType → String
  | .named name => name
  | .nullable (.named name) => if name == "mixed" || name == "null" then name else "?" ++ name
  | .nullable t => t.render ++ "|null"
  | .union ts => "|".intercalate (PhpType.renderAll ts)

/-- The texts of types. -/
def PhpType.renderAll : List PhpType → List String
  | [] => []
  | t :: ts => t.render :: PhpType.renderAll ts

end

/-- The text of a literal. -/
def Literal.render : Literal → String
  | .string s => String.ofList ('\'' :: escapeSingle s.toList ++ ['\''])
  | .int n => toString n
  | .float x => x.render floatLayout
  | .bool b => if b then "true" else "false"
  | .null => "null"

/-- The characters of a part, between double quotes. -/
def Part.render : Part → List Char
  | .literal text => escapeDouble text.toList
  | .property _ member => "\x7b$this->".toList ++ member.toList ++ ['\x7d']

/-- The word for a visibility. -/
def Visibility.render : Visibility → String
  | .everyone => "public"
  | .heirs => "protected"
  | .itself => "private"

/-- A parameter, given the text of its default. -/
def renderParam (name : String) (type : Option PhpType) (promoted : Option Visibility)
    (default : Option String) : String :=
  (match promoted with
    | some v => v.render ++ " "
    | none => "") ++
  (match type with
    | some t => t.render ++ " "
    | none => "") ++
  "$" ++ name ++
  (match default with
    | some d => " = " ++ d
    | none => "")

mutual

/-- The text of an expression. -/
def Expr.render : Expr → String
  | .variable name => "$" ++ name
  | .literal l => l.render
  | .thisProperty name => "$this->" ++ name
  | .classConst c name => c ++ "::" ++ name
  | .array entries => "[" ++ ", ".intercalate (renderEntries entries) ++ "]"
  | .call function args => function ++ "(" ++ ", ".intercalate (renderArgs args) ++ ")"
  | .methodCall object method args =>
    object.render ++ "->" ++ method ++ "(" ++ ", ".intercalate (renderArgs args) ++ ")"
  | .staticCall c method args =>
    c ++ "::" ++ method ++ "(" ++ ", ".intercalate (renderArgs args) ++ ")"
  | .new c args => "new " ++ c ++ "(" ++ ", ".intercalate (renderArgs args) ++ ")"
  | .arrowFn params body =>
    "fn (" ++ ", ".intercalate (renderParams params) ++ ") => " ++ body.render
  | .notIdentical left right => left.render ++ " !== " ++ right.render
  | .interpolated parts => String.ofList ('"' :: parts.flatMap Part.render ++ ['"'])

/-- The texts of arguments. -/
def renderArgs : List Expr → List String
  | [] => []
  | e :: es => e.render :: renderArgs es

/-- The texts of array entries. -/
def renderEntries : List (Expr × Expr) → List String
  | [] => []
  | (k, v) :: es => (k.render ++ " => " ++ v.render) :: renderEntries es

/-- The texts of parameters. -/
def renderParams : List (ParamOf Expr) → List String
  | [] => []
  | ⟨name, type, none, promoted, _⟩ :: ps =>
    renderParam name type promoted none :: renderParams ps
  | ⟨name, type, some d, promoted, _⟩ :: ps =>
    renderParam name type promoted (some d.render) :: renderParams ps

end

/-- The text of one parameter. -/
def renderOneParam (p : Param) : String :=
  renderParam p.name p.type p.promoted (p.default.map Expr.render)

/-- The text of a statement at a level of indentation. -/
def Stmt.render (level : Nat) : Stmt → String
  | .returns e => indent level ++ "return " ++ e.render ++ ";\n"
  | .expr e => indent level ++ e.render ++ ";\n"
  | .raw code => String.join <| (Text.lines code).map fun line =>
    if line.isEmpty then "\n" else indent level ++ line ++ "\n"

/-- The text of a doc comment at a level of indentation. -/
def renderDoc (level : Nat) (doc : String) : String :=
  indent level ++ "/**\n" ++
  String.join ((Text.lines doc).map fun line =>
    if Text.onlyBlanks line then indent level ++ " *\n"
    else indent level ++ " * " ++ line ++ "\n") ++
  indent level ++ " */\n"

/-- The text of a doc comment, if there is one. -/
def renderDoc? (level : Nat) : Option String → String
  | some doc => renderDoc level doc
  | none => ""

/-- The text of a property. -/
def Property.render (p : Property) : String :=
  indent 1 ++ p.visibility.render ++ (if p.isStatic then " static" else "") ++
  (match p.type with
    | some t => " " ++ t.render
    | none => "") ++
  " $" ++ p.name ++
  (match p.default with
    | some d => " = " ++ d.render
    | none => "") ++ ";\n"

namespace Method

/-- Whether a parameter is a member, which puts each parameter on a line of its own. -/
def isPromoting (m : Method) : Bool :=
  m.params.any fun p => p.promoted.isSome

/-- The text between the parentheses. -/
def renderParamList (m : Method) : String :=
  if m.isPromoting then
    "\n" ++ String.join (m.params.map fun p =>
      renderDoc? 2 p.doc ++ indent 2 ++ renderOneParam p ++ ",\n") ++ indent 1
  else ", ".intercalate (m.params.map renderOneParam)

/-- The words before `function`. -/
def modifiers (m : Method) (kind : ClassKind) : List String :=
  (if m.isAbstract && kind != .interface then ["abstract"] else []) ++
  [m.visibility.render] ++ (if m.isStatic then ["static"] else [])

/-- The text of a method in a class of some kind. -/
def render (m : Method) (kind : ClassKind) : String :=
  renderDoc? 1 m.doc ++ indent 1 ++ " ".intercalate (m.modifiers kind) ++ " function " ++ m.name ++
  "(" ++ m.renderParamList ++ ")" ++
  (match m.returnType with
    | some t => ": " ++ t.render
    | none => "") ++
  (if m.isAbstract || kind == .interface then ";\n"
   else
    (if m.isPromoting then " \x7b\n" else "\n" ++ indent 1 ++ "\x7b\n") ++
    String.join (m.body.map (Stmt.render 2)) ++ indent 1 ++ "\x7d\n")

end Method

/-- The words before a class's name. -/
def ClassKind.render : ClassKind → String
  | .plain => "class"
  | .abstract => "abstract class"
  | .interface => "interface"
  | .trait => "trait"

namespace Class

/-- The parts of a class between its braces: traits, properties, and each method. -/
def sections (c : Class) : List String :=
  (if c.traits.isEmpty then []
   else [String.join (c.traits.map fun t => indent 1 ++ "use " ++ t ++ ";\n")]) ++
  (if c.properties.isEmpty then [] else [String.join (c.properties.map Property.render)]) ++
  c.methods.map fun m => m.render c.kind

/-- The text of a class. -/
def render (c : Class) : String :=
  renderDoc? 0 c.doc ++ c.kind.render ++ " " ++ c.name ++
  (match c.parent with
    | some p => " extends " ++ p
    | none => "") ++
  (if c.contracts.isEmpty then "" else " implements " ++ ", ".intercalate c.contracts) ++
  "\n\x7b\n" ++ "\n".intercalate c.sections ++ "\x7d\n"

end Class

namespace Import

/-- The text of an import. -/
def render (i : Import) : String :=
  match i.rename with
  | some a => "use " ++ i.path ++ " as " ++ a ++ ";"
  | none => "use " ++ i.path ++ ";"

/-- Imports in the order of their paths; of one path, the one without another name first. -/
def le (a b : Import) : Bool :=
  if a.path = b.path then
    match a.rename, b.rename with
    | none, _ => true
    | some _, none => false
    | some x, some y => !(y < x)
  else a.path < b.path

end Import

/-- The text of a file. -/
def File.render (f : File) : String :=
  "<?php\n\n" ++
  (if f.namespaceName.isEmpty then "" else "namespace " ++ f.namespaceName ++ ";\n\n") ++
  (if f.imports.isEmpty then ""
   else String.join ((f.imports.mergeSort Import.le).map fun i => i.render ++ "\n") ++ "\n") ++
  f.declaration.render

end SdkSmith.Php
