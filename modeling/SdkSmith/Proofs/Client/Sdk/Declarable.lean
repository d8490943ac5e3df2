import SdkSmith.Proofs.Client.Request.Reads

/-!
Classes that declare each member once, and none of whose methods has a parameter of the name of the
object itself. A request class has one property of its own besides the members of its constructor,
and its resource has a method with parameters of their names.
-/
namespace SdkSmith.Client
open Php (File Method)

variable {s : Settings} {c : Call} {r : Resource}

/-- The members that a class declares: its properties, and those of its constructor. -/
def declaredNames (f : File) : List String :=
  f.declaration.properties.map (·.name) ++ promotedNames f

/-- Whether a class declares each member once, and no parameter of its methods has the name of the
object itself. -/
structure Declarable (f : File) : Prop where
  distinct : (declaredNames f).Nodup
  params : ∀ m ∈ f.declaration.methods, "this" ∉ m.params.map (·.name)

/-- A class whose methods promote no parameter declares its properties only. -/
theorem declarable_of_properties {f : File}
    (hproperties : (f.declaration.properties.map (·.name)).Nodup)
    (hparams : ∀ m ∈ f.declaration.methods, ∀ p ∈ m.params, p.promoted = none ∧ p.name ≠ "this") :
    Declarable f := by
  have hpromoted : promotedNames f = [] := by
    rw [promotedNames, List.map_eq_nil_iff, List.filter_eq_nil_iff, constructorParams]
    cases hconstructor : f.declaration.constructor? with
    | none => exact List.forall_mem_nil _
    | some k =>
      intro p hp
      rw [(hparams k (List.mem_of_find?_eq_some hconstructor) p hp).1]
      exact Bool.false_ne_true
  constructor
  case distinct => rwa [declaredNames, hpromoted, List.append_nil]
  case params =>
    intro m hm hthis
    obtain ⟨p, hp, hname⟩ := List.mem_map.mp hthis
    exact (hparams m hm p hp).2 hname

/-! Request classes -/

theorem properties_addConstructor (f : File) (ms : List Member) :
    (addConstructor f ms).declaration.properties = f.declaration.properties := by
  unfold addConstructor
  split <;> rfl

theorem properties_addValues (f : File) (name : String) (ms : List Member) :
    (addValues f name ms).declaration.properties = f.declaration.properties := by
  unfold addValues
  split <;> rfl

theorem properties_addBody (f : File) (ms : List Member) :
    (addBody f ms).declaration.properties = f.declaration.properties := by
  unfold addBody
  split
  · rfl
  · rw [properties_addValues, Php.File.declaration_addImport, Php.File.declaration_addImport]

@[simp] theorem properties_addMethod (f : File) (m : Method) :
    (f.addMethod m).declaration.properties = f.declaration.properties := rfl

/-- A request class has one property of its own, the method. -/
theorem properties_requestFile (d : Api.Description) (s : Settings) (classes : DtoClasses)
    (r : Resource) (c : Call) :
    (requestFile d s classes r c).declaration.properties.map (·.name) = ["method"] := by
  have hstart : (requestStart s r c).declaration.properties.map (·.name) = ["method"] := by
    rw [requestStart, Php.File.declaration_addImport, Php.File.declaration_addImport]
    rfl
  unfold requestFile
  split
  · rw [addResponse, properties_addMethod, declaration_importClass, Php.File.declaration_addImport,
      properties_addValues, properties_addValues, properties_addBody, properties_addConstructor,
      properties_addMethod, hstart]
  · rw [properties_addValues, properties_addValues, properties_addBody, properties_addConstructor,
      properties_addMethod, hstart]

theorem params_constructors (ms : List Member) :
    (∀ m ∈ constructors ms, "this" ∉ m.params.map (·.name)) ↔ "this" ∉ ms.map (·.name) := by
  unfold constructors
  split
  · rename_i hempty
    rw [List.isEmpty_iff.mp hempty]
    simp
  · rw [List.forall_mem_singleton, Method.plain, List.map_map]
    rfl

theorem params_valuesMethods (name : String) (ms : List Member) :
    ∀ m ∈ valuesMethods name ms, "this" ∉ m.params.map (·.name) := by
  unfold valuesMethods
  split
  · exact List.forall_mem_nil _
  · exact List.forall_mem_singleton.mpr List.not_mem_nil

theorem declarable_requestFile (d : Api.Description) (classes : DtoClasses) (r : Resource)
    (hdistinct : (c.members.map (·.name)).Nodup) :
    Declarable (requestFile d s classes r c) ↔
      "method" ∉ c.members.map (·.name) ∧ "this" ∉ c.members.map (·.name) := by
  have hdeclared : declaredNames (requestFile d s classes r c) =
      "method" :: c.members.map (·.name) := by
    rw [declaredNames, properties_requestFile, promotedNames_requestFile, List.singleton_append]
  obtain ⟨response, hresponse, hmethods⟩ := methods_requestFile d s classes r c
  constructor
  · rintro ⟨hnodup, hparams⟩
    rw [hdeclared, List.nodup_cons] at hnodup
    rw [hmethods] at hparams
    refine ⟨hnodup.1, (params_constructors c.members).mp fun m hm => hparams m ?_⟩
    simp [hm]
  · rintro ⟨hmethod, hthis⟩
    constructor
    case distinct => exact hdeclared ▸ List.nodup_cons.mpr ⟨hmethod, hdistinct⟩
    case params =>
      rw [hmethods]
      simp only [List.forall_mem_append, List.forall_mem_singleton]
      refine ⟨⟨⟨⟨⟨List.not_mem_nil, (params_constructors c.members).mpr hthis⟩,
        params_valuesMethods _ _⟩, params_valuesMethods _ _⟩, params_valuesMethods _ _⟩, ?_⟩
      intro m hm
      obtain ⟨className, isList, rfl⟩ := hresponse m hm
      change "this" ∉ ["response"]
      decide

/-! Resource classes -/

theorem properties_resourceFile (s : Settings) (r : Resource) :
    (resourceFile s r).declaration.properties = [] := by
  refine List.foldlRecOn (motive := fun f : File => f.declaration.properties = []) r.calls
    (addCall s r) ?_ ?_
  · simp only [resourceStart, Php.File.declaration_addImport, declaration_importBase]
    rfl
  · intro f hf c _
    rw [addCall_eq, properties_addMethod, declaration_importClass, hf]

/-- The methods of a resource class have the members of its calls for parameters. -/
theorem params_resourceFile (s : Settings) (r : Resource) :
    ∀ m ∈ (resourceFile s r).declaration.methods, ∃ c ∈ r.calls,
      m.params = c.members.map Member.toParam := by
  refine List.foldlRecOn (motive := fun f : File => ∀ m ∈ f.declaration.methods, ∃ c ∈ r.calls,
    m.params = c.members.map Member.toParam) r.calls (addCall s r) ?_ ?_
  · rw [methods_resourceStart]
    exact List.forall_mem_nil _
  · intro f hf c hc
    rw [methods_addCall]
    exact List.forall_mem_append.mpr ⟨hf, List.forall_mem_singleton.mpr ⟨c, hc, rfl⟩⟩

theorem declarable_resourceFile (h : ∀ c ∈ r.calls, "this" ∉ c.members.map (·.name)) :
    Declarable (resourceFile s r) := by
  apply declarable_of_properties
  · rw [properties_resourceFile]
    exact List.nodup_nil
  · intro m hm p hp
    obtain ⟨c, hc, hparams⟩ := params_resourceFile s r m hm
    rw [hparams] at hp
    obtain ⟨member, hmember, rfl⟩ := List.mem_map.mp hp
    exact ⟨rfl, fun hname => h c hc (List.mem_map.mpr ⟨member, hmember, hname⟩)⟩

/-! Classes that every client has -/

theorem declarable_resourceBase (s : Settings) : Declarable (Support.resourceFile s) := by
  have hdeclaration := Php.File.declaration_addImport
    (.plain s.namespaceName { Php.Class.empty .plain "Resource" with
      methods := [.plain "__construct" [{ Php.ParamOf.typed "connector" (.named "Connector") with
        promoted := some .heirs }]] }) ⟨"Saloon\\Http\\Connector", none⟩
  have hdeclared : declaredNames (Support.resourceFile s) = ["connector"] := by
    rw [declaredNames, promotedNames, constructorParams, Support.resourceFile, hdeclaration]
    rfl
  constructor
  case distinct => exact hdeclared ▸ List.nodup_singleton _
  case params =>
    rw [Support.resourceFile, hdeclaration]
    exact List.forall_mem_singleton.mpr (by decide)

theorem declarable_support (s : Settings) : ∀ f ∈ Support.otherFiles s, Declarable f := by
  have hdata : ∀ body, ∀ m ∈ [Support.fromArray body], ∀ p ∈ m.params,
      p.promoted = none ∧ p.name ≠ "this" := by
    intro body
    exact List.forall_mem_singleton.mpr (List.forall_mem_singleton.mpr ⟨rfl, by decide⟩)
  rw [Support.otherFiles, List.forall_mem_cons, List.forall_mem_cons, List.forall_mem_singleton]
  refine ⟨?_, declarable_of_properties List.nodup_nil (hdata []),
    declarable_of_properties List.nodup_nil (hdata _)⟩
  apply declarable_of_properties
  · rw [Support.dtoFile, Php.File.declaration_addImport, Php.File.declaration_addImport]
    change ["fieldMap", "casts", "listCasts"].Nodup
    decide
  · rw [Support.dtoFile, Php.File.declaration_addImport, Php.File.declaration_addImport]
    exact List.forall_mem_singleton.mpr (List.forall_mem_nil _)

end SdkSmith.Client
