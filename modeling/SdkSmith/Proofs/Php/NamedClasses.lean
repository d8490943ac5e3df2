import SdkSmith.Client.Connector
import SdkSmith.Proofs.Runs

/-!
The classes that code names: as parents, contracts and traits, in types, and where an object is
made, or a member of a class is used.
-/
namespace SdkSmith

namespace Php

/-- Types that are no classes of their own; `static` is the class that it is used in. -/
def builtinTypes : List String := ["string", "int", "float", "bool", "array", "mixed", "static"]

mutual

/-- The classes that a type names. -/
def PhpType.classNames : PhpType → List String
  | .named name => if name ∈ builtinTypes then [] else [name]
  | .nullable type => type.classNames
  | .union types => classNamesOfTypes types

/-- The classes that types name. -/
def classNamesOfTypes : List PhpType → List String
  | [] => []
  | t :: ts => t.classNames ++ classNamesOfTypes ts

end

/-- The classes that a declaration of a type names, if there is one. -/
def declaredClassNames : Option PhpType → List String
  | none => []
  | some t => t.classNames

mutual

/-- The classes that an expression names. -/
def Expr.classNames : Expr → List String
  | .variable _ => []
  | .literal _ => []
  | .thisProperty _ => []
  | .classConst owner _ => [owner]
  | .array entries => classNamesOfEntries entries
  | .call _ args => classNamesOfArgs args
  | .methodCall object _ args => object.classNames ++ classNamesOfArgs args
  | .staticCall owner _ args => owner :: classNamesOfArgs args
  | .new owner args => owner :: classNamesOfArgs args
  | .arrowFn params body => classNamesOfParams params ++ body.classNames
  | .notIdentical left right => left.classNames ++ right.classNames
  | .interpolated _ => []

/-- The classes that arguments name. -/
def classNamesOfArgs : List Expr → List String
  | [] => []
  | e :: es => e.classNames ++ classNamesOfArgs es

/-- The classes that array entries name. -/
def classNamesOfEntries : List (Expr × Expr) → List String
  | [] => []
  | (k, v) :: es => k.classNames ++ v.classNames ++ classNamesOfEntries es

/-- The classes that parameters name. -/
def classNamesOfParams : List (ParamOf Expr) → List String
  | [] => []
  | ⟨_, type, none, _, _⟩ :: ps => declaredClassNames type ++ classNamesOfParams ps
  | ⟨_, type, some d, _, _⟩ :: ps =>
    declaredClassNames type ++ d.classNames ++ classNamesOfParams ps

end

/-- The classes that a statement names. Lines that stand as they are name none. -/
def Stmt.classNames : Stmt → List String
  | .returns e => e.classNames
  | .expr e => e.classNames
  | .raw _ => []

/-- The classes that a property names. -/
def Property.classNames (p : Property) : List String :=
  declaredClassNames p.type ++ (p.default.map Expr.classNames).getD []

/-- The classes that a method names. -/
def Method.classNames (m : Method) : List String :=
  classNamesOfParams m.params ++ declaredClassNames m.returnType ++ m.body.flatMap Stmt.classNames

/-- The classes that a class names. -/
def Class.classNames (c : Class) : List String :=
  c.parent.toList ++ c.contracts ++ c.traits ++ c.properties.flatMap Property.classNames ++
    c.methods.flatMap Method.classNames

variable {names : List String} {ps : List Param}

theorem classNames_orNull (t : PhpType) (nullable : Bool) :
    (t.orNull nullable).classNames = t.classNames := by
  unfold PhpType.orNull
  split
  · rw [PhpType.classNames]
  · rfl

theorem classNames_string (s : String) : (Expr.string s).classNames = [] := by
  rw [Expr.string, Expr.classNames]

/-- The classes that a parameter names. -/
def ParamOf.classNames (p : Param) : List String :=
  declaredClassNames p.type ++ (p.default.map Expr.classNames).getD []

theorem classNamesOfParams_eq (ps : List Param) :
    classNamesOfParams ps = ps.flatMap ParamOf.classNames := by
  induction ps with
  | nil => rw [classNamesOfParams, List.flatMap_nil]
  | cons p ps ih =>
    obtain ⟨name, type, default, promoted, doc⟩ := p
    cases default with
    | none => simp [classNamesOfParams, ParamOf.classNames, ih]
    | some d => simp [classNamesOfParams, ParamOf.classNames, ih]

theorem flatMap_subset {α : Type} {l : List α} {f : α → List String} :
    l.flatMap f ⊆ names ↔ ∀ a ∈ l, f a ⊆ names := by
  constructor
  · intro h a ha name hname
    exact h (List.mem_flatMap.mpr ⟨a, ha, hname⟩)
  · intro h name hname
    obtain ⟨a, ha, hname⟩ := List.mem_flatMap.mp hname
    exact h a ha hname

theorem classNamesOfParams_subset :
    classNamesOfParams ps ⊆ names ↔ ∀ p ∈ ps, p.classNames ⊆ names := by
  rw [classNamesOfParams_eq, flatMap_subset]

theorem classNames_returning (name : String) (ps : List Param) (type : PhpType) (e : Expr) :
    (Method.returning name ps type e).classNames =
      classNamesOfParams ps ++ type.classNames ++ e.classNames := by
  rw [Method.classNames, Method.returning, List.flatMap_singleton, Stmt.classNames,
    declaredClassNames]

theorem classNames_plain (name : String) (ps : List Param) :
    (Method.plain name ps).classNames = classNamesOfParams ps := by
  rw [Method.classNames, Method.plain, List.flatMap_nil, declaredClassNames, List.append_nil,
    List.append_nil]

end Php

namespace Client
open Php (Expr Method PhpType)

theorem classNames_phpType (t : Api.ValueType) : (phpType t).classNames = [] := by
  cases t <;> rfl

theorem classNames_ofJson? {v : Json} {e : Expr} (h : Expr.ofJson? v = some e) :
    e.classNames = [] := by
  unfold Expr.ofJson? at h
  split at h
  · cases h
    rfl
  · cases h
    rfl
  · cases h
    rfl
  · cases h
    rfl
  · split at h
    · cases h
      rfl
    · obtain ⟨x, -, rfl⟩ := Option.map_eq_some_iff.mp h
      rfl
  · cases h
  · cases h

/-- The parameter of a member has no class as its type or default. -/
theorem classNames_toParam (m : Member) : m.toParam.classNames = [] := by
  have htype := (Php.classNames_orNull (phpType m.parameter.type) m.nullable).trans
    (classNames_phpType _)
  rw [Php.ParamOf.classNames, Member.toParam, Php.declaredClassNames, htype, List.nil_append]
  cases hdefault : m.default?.bind Expr.ofJson? with
  | some e =>
    obtain ⟨v, -, he⟩ := Option.bind_eq_some_iff.mp hdefault
    exact classNames_ofJson? he
  | none =>
    cases m.nullable <;> rfl

theorem classNames_endpointExpr (c : Call) : c.endpointExpr.classNames = [] := by
  unfold Call.endpointExpr
  split
  · exact Php.classNames_string _
  · split
    · exact Php.classNames_string _
    · rw [Expr.classNames]

theorem classNames_values (ms : List Member) : Php.classNamesOfEntries
    (ms.map fun m => (Expr.string m.wireName, Expr.thisProperty m.name)) = [] := by
  induction ms with
  | nil => rfl
  | cons m ms ih =>
    rw [List.map_cons, Php.classNamesOfEntries, ih]
    rfl

theorem classNames_valuesMethod (name : String) (ms : List Member) :
    (valuesMethod name ms).classNames = [] := by
  rw [valuesMethod]
  have hreturning := Php.classNames_returning name [] .array (.call "array_filter" [
    .array (ms.map fun m => (Expr.string m.wireName, Expr.thisProperty m.name)),
    .arrowFn [.untyped "value"] (.notIdentical (.variable "value") .null)])
  refine hreturning.trans ?_
  rw [Expr.classNames, Php.classNamesOfArgs, Expr.classNames, classNames_values]
  rfl

theorem classNames_render {template : String} {members : List (String × String)} {e : Expr}
    (h : Template.render template members = .ok e) : e.classNames = [] := by
  unfold Template.render at h
  split at h
  · cases h
    unfold Template.exprOf
    split
    · rfl
    · rfl
    · rw [Expr.classNames]
  · cases h

theorem classNames_variables (ms : List Member) :
    Php.classNamesOfArgs (ms.map fun m => Expr.variable m.name) = [] := by
  induction ms with
  | nil => rfl
  | cons m ms ih =>
    rw [List.map_cons, Php.classNamesOfArgs, ih]
    rfl

end Client
end SdkSmith
