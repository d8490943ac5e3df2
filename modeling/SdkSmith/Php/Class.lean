import SdkSmith.Php.Expr

/-!
PHP classes and files, as data. A file holds one class in a namespace, with its imports.
-/
namespace SdkSmith.Php

/-- A statement of a method body. -/
inductive Stmt
  | returns (e : Expr)
  | expr (e : Expr)
  /-- Lines as they are. -/
  | raw (code : String)
deriving Repr

/-- A property of a class. -/
structure Property where
  name : String
  visibility : Visibility
  isStatic : Bool
  type : Option PhpType
  default : Option Expr
deriving Repr

/-- A method of a class. -/
structure Method where
  name : String
  visibility : Visibility
  isStatic : Bool
  isAbstract : Bool
  params : List Param
  returnType : Option PhpType
  body : List Stmt
  doc : Option String
deriving Repr

namespace Method

/-- A public method with nothing but a name and parameters. -/
def plain (name : String) (params : List Param) : Method :=
  ⟨name, .everyone, false, false, params, none, [], none⟩

/-- A method that returns one expression. -/
def returning (name : String) (params : List Param) (type : PhpType) (e : Expr) : Method :=
  ⟨name, .everyone, false, false, params, some type, [.returns e], none⟩

/-- The expression of the first return. -/
def returned? (m : Method) : Option Expr :=
  m.body.findSome? fun
    | .returns e => some e
    | _ => none

end Method

/-- What kind of class a declaration makes. -/
inductive ClassKind
  | plain
  | abstract
  | interface
  | trait
deriving DecidableEq, Repr

/-- A class. -/
structure Class where
  name : String
  kind : ClassKind
  parent : Option String
  contracts : List String
  traits : List String
  doc : Option String
  properties : List Property
  methods : List Method
deriving Repr

namespace Class

/-- A class without members. -/
def empty (kind : ClassKind) (name : String) : Class :=
  ⟨name, kind, none, [], [], none, [], []⟩

/-- The first method of a name. -/
def method? (c : Class) (name : String) : Option Method :=
  c.methods.find? fun m => m.name == name

/-- The constructor. -/
def constructor? (c : Class) : Option Method := c.method? "__construct"

end Class

/-- The import of a class, perhaps under another name. -/
structure Import where
  path : String
  rename : Option String
deriving DecidableEq, Repr

namespace Import

/-- The last part of a path. -/
def shortName (path : String) : String :=
  String.ofList ((path.toList.reverse.takeWhile (· != '\\')).reverse)

/-- What stands before the last separator of a path, if it has one. -/
def namespace? (path : String) : Option String :=
  match path.toList.reverse.dropWhile (· != '\\') with
  | [] => none
  | _ :: r => some (String.ofList r.reverse)

/-- The name by which an imported class is seen. -/
def visible (i : Import) : String :=
  i.rename.getD (shortName i.path)

end Import

/-- A source file. -/
structure File where
  namespaceName : String
  imports : List Import
  declaration : Class
deriving Repr

namespace File

/-- A file without imports. -/
def plain (namespaceName : String) (c : Class) : File := ⟨namespaceName, [], c⟩

/-- Whether an import names a class that is seen without it. -/
def sees (namespaceName : String) (i : Import) : Bool :=
  Import.namespace? i.path == some namespaceName && i.rename.isNone

/-- Adds an import, unless it is there or not needed. -/
def addImport (f : File) (i : Import) : File :=
  if sees f.namespaceName i || f.imports.contains i then f
  else { f with imports := f.imports ++ [i] }

/-- Adds a method at the end. -/
def addMethod (f : File) (m : Method) : File :=
  { f with declaration := { f.declaration with methods := f.declaration.methods ++ [m] } }

/-- The class name with its namespace. -/
def qualifiedName (f : File) : String := f.namespaceName ++ "\\" ++ f.declaration.name

@[simp] theorem namespaceName_addImport (f : File) (i : Import) :
    (f.addImport i).namespaceName = f.namespaceName := by
  unfold addImport
  split <;> rfl

@[simp] theorem declaration_addImport (f : File) (i : Import) :
    (f.addImport i).declaration = f.declaration := by
  unfold addImport
  split <;> rfl

@[simp] theorem qualifiedName_addImport (f : File) (i : Import) :
    (f.addImport i).qualifiedName = f.qualifiedName := by
  rw [qualifiedName, namespaceName_addImport, declaration_addImport, qualifiedName]

end File
end SdkSmith.Php
