import SdkSmith.Json.Value

/-!
PHP types, literals and expressions, as data. Text is made of them only at the end, so the names in
generated code can be looked at.
-/
namespace SdkSmith.Php

/-- A type declaration. -/
inductive PhpType
  | named (name : String)
  /-- A type or null. -/
  | nullable (type : PhpType)
  | union (types : List PhpType)
deriving Repr, Inhabited

namespace PhpType

/-- Whether null is added to a type. -/
def isNullable : PhpType → Bool
  | .nullable _ => true
  | _ => false

/-- Adds null to a type once. -/
def orNull (t : PhpType) (nullable : Bool) : PhpType :=
  if nullable && !t.isNullable then .nullable t else t

/-- The type of texts. -/
def string : PhpType := .named "string"

/-- The type of lists and maps. -/
def array : PhpType := .named "array"

/-- The type of anything. -/
def mixed : PhpType := .named "mixed"

end PhpType

/-- A literal. -/
inductive Literal
  | string (s : String)
  | int (n : Int)
  | float (x : Double)
  | bool (b : Bool)
  | null
deriving DecidableEq, Repr

/-- A part of a double-quoted text: characters, or a property of the object, which stands for the
name in the template that it replaces. -/
inductive Part
  | literal (text : String)
  | property (source property : String)
deriving DecidableEq, Repr

/-- Who may use a member: everyone, the class and its heirs, or the class alone. -/
inductive Visibility
  | everyone
  | heirs
  | itself
deriving DecidableEq, Repr

/-- A parameter whose default is an `ε`; a promoted one is a member too. -/
structure ParamOf (ε : Type) where
  name : String
  type : Option PhpType
  default : Option ε
  promoted : Option Visibility
  doc : Option String
deriving Repr, Inhabited

/-- An expression. -/
inductive Expr
  | variable (name : String)
  | literal (l : Literal)
  | thisProperty (name : String)
  | classConst (owner name : String)
  | array (entries : List (Expr × Expr))
  | call (function : String) (args : List Expr)
  | methodCall (object : Expr) (method : String) (args : List Expr)
  | staticCall (owner method : String) (args : List Expr)
  | new (owner : String) (args : List Expr)
  | arrowFn (params : List (ParamOf Expr)) (body : Expr)
  | notIdentical (left right : Expr)
  | interpolated (parts : List Part)
deriving Repr, Inhabited

/-- A parameter of a function. -/
abbrev Param := ParamOf Expr

namespace Expr

/-- A text. -/
def string (s : String) : Expr := .literal (.string s)

/-- Null. -/
def null : Expr := .literal .null

/-- The literal of a JSON scalar; lists and objects have none. A whole number beyond 64 signed bits
becomes a floating-point number. -/
def ofJson? : Json → Option Expr
  | .null => some null
  | .bool b => some (.literal (.bool b))
  | .string s => some (string s)
  | .number (.double x) => some (.literal (.float x))
  | .number (.int n) =>
    if n < Int.pow 2 63 then some (.literal (.int n))
    else (Double.ofNat? false n.toNat).map fun x => .literal (.float x)
  | .array _ | .object _ => none

/-- An interpolated text with each property as its source name in braces. -/
def template? : Expr → Option String
  | .interpolated parts => some <| String.join <| parts.map fun
    | .literal text => text
    | .property source _ => "\x7b" ++ source ++ "\x7d"
  | _ => none

end Expr

namespace ParamOf
variable {ε : Type}

/-- A parameter with nothing but a name and a type. -/
def typed (name : String) (type : PhpType) : ParamOf ε := ⟨name, some type, none, none, none⟩

/-- A parameter with nothing but a name. -/
def untyped (name : String) : ParamOf ε := ⟨name, none, none, none, none⟩

end ParamOf
end SdkSmith.Php
