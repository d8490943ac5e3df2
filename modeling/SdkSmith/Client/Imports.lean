import SdkSmith.Api.Schema
import SdkSmith.Php.Class
import SdkSmith.Text.Blank

/-!
How generated files refer to classes: by import, under another name where the short one is taken.
-/
namespace SdkSmith.Client
open Php (File Import PhpType)

/-- A class in its namespace. -/
structure ClassRef where
  namespaceName : String
  name : String
deriving DecidableEq, Repr

/-- The class name with its namespace. -/
def ClassRef.qualifiedName (c : ClassRef) : String := c.namespaceName ++ "\\" ++ c.name

/-- Imports a class to extend, and gives the name to extend it by: `other` where the file's own
class has the short name. -/
def importBase (f : File) (path other : String) : String × File :=
  let short := Import.shortName path
  if f.declaration.name = short then (other, f.addImport ⟨path, some other⟩)
  else (short, f.addImport ⟨path, none⟩)

@[simp] theorem declaration_importBase (f : File) (path other : String) :
    (importBase f path other).2.declaration = f.declaration := by
  simp only [importBase]
  split <;> exact f.declaration_addImport _

/-- Whether a name is that of the file's own class or of an import. -/
def isTaken (f : File) (name : String) : Bool :=
  name == f.declaration.name || f.imports.any fun i => i.visible == name

/-- Imports a class, and gives the name to use it by: its own, or where that is taken the name with
`suffix` after it. -/
def importClass (f : File) (c : ClassRef) (suffix : String) : String × File :=
  if c.namespaceName = f.namespaceName && c.name = f.declaration.name then (c.name, f)
  else match f.imports.find? fun i => i.path == c.qualifiedName with
    | some i => (i.rename.getD c.name, f)
    | none =>
      if isTaken f c.name then
        let other := c.name ++ suffix
        (other, f.addImport ⟨c.qualifiedName, some other⟩)
      else (c.name, f.addImport ⟨c.qualifiedName, none⟩)

/-- Importing a class adds one import at most, which is of that class. -/
theorem importClass_snd (f : File) (c : ClassRef) (suffix : String) :
    (importClass f c suffix).2 = f ∨
      ∃ rename, (importClass f c suffix).2 = f.addImport ⟨c.qualifiedName, rename⟩ := by
  unfold importClass
  split
  · exact Or.inl rfl
  · split
    · exact Or.inl rfl
    · simp only
      split
      · exact Or.inr ⟨_, rfl⟩
      · exact Or.inr ⟨_, rfl⟩

/-- What every import leaves as it is, importing a class leaves as it is. -/
theorem importClass_keeps {α : Type} {part : File → α} {f : File}
    (h : ∀ i, part (f.addImport i) = part f) (c : ClassRef) (suffix : String) :
    part (importClass f c suffix).2 = part f := by
  rcases importClass_snd f c suffix with heq | ⟨rename, heq⟩
  · rw [heq]
  · rw [heq, h]

@[simp] theorem namespaceName_importClass (f : File) (c : ClassRef) (suffix : String) :
    (importClass f c suffix).2.namespaceName = f.namespaceName :=
  importClass_keeps f.namespaceName_addImport c suffix

@[simp] theorem declaration_importClass (f : File) (c : ClassRef) (suffix : String) :
    (importClass f c suffix).2.declaration = f.declaration :=
  importClass_keeps f.declaration_addImport c suffix

@[simp] theorem qualifiedName_importClass (f : File) (c : ClassRef) (suffix : String) :
    (importClass f c suffix).2.qualifiedName = f.qualifiedName :=
  importClass_keeps f.qualifiedName_addImport c suffix

/-- The paragraphs of a doc comment, those that are blank left out. -/
def docOf (paragraphs : List (Option String)) : Option String :=
  let ps := ((paragraphs.filterMap id).map Text.trim).filter fun p => !p.isEmpty
  if ps.isEmpty then none else some ("\n\n".intercalate ps)

/-- The type declaration for a parameter's type. -/
def phpType : Api.ValueType → PhpType
  | .string => .string
  | .int => .named "int"
  | .float => .named "float"
  | .number => .union [.named "float", .named "int"]
  | .bool => .named "bool"
  | .array | .named _ => .array
  | .mixed => .mixed

/-- Parameters without a default before those with one, otherwise in order. -/
def requiredFirst (ps : List Php.Param) : List Php.Param :=
  (ps.filter fun p => p.default.isNone) ++ ps.filter fun p => p.default.isSome

end SdkSmith.Client
