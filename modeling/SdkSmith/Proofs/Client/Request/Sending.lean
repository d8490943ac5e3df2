import Mathlib.Data.List.Forall2
import SdkSmith.Proofs.Client.Sdk.Collisions
import SdkSmith.Proofs.Naming.Identifiers

/-!
Resource methods and request constructors. A method has the parameters of the constructor of its
request and passes them on one by one, and it names the class of that request by what an import or
the namespace of its own file makes of the name.
-/
namespace SdkSmith

namespace Php

namespace Import
variable {name : String}

theorem reverse_path (namespaceName name : String) :
    (namespaceName ++ "\\" ++ name).toList.reverse =
      name.toList.reverse ++ '\\' :: namespaceName.toList.reverse := by
  simp

theorem bne_separator (h : '\\' ∉ name.toList) : ∀ c ∈ name.toList.reverse, c != '\\' := by
  intro c hc
  rw [bne_iff_ne]
  rintro rfl
  exact h (List.mem_reverse.mp hc)

theorem shortName_path (h : '\\' ∉ name.toList) (namespaceName : String) :
    shortName (namespaceName ++ "\\" ++ name) = name := by
  rw [shortName, reverse_path, List.takeWhile_append_of_pos (bne_separator h),
    List.takeWhile_cons_of_neg (by simp), List.append_nil, List.reverse_reverse,
    String.ofList_toList]

theorem namespace?_path (h : '\\' ∉ name.toList) (namespaceName : String) :
    Import.namespace? (namespaceName ++ "\\" ++ name) = some namespaceName := by
  rw [Import.namespace?, reverse_path, List.dropWhile_append_of_pos (bne_separator h),
    List.dropWhile_cons_of_neg (by simp)]
  simp only [List.reverse_reverse, String.ofList_toList]

end Import

namespace File
variable {f : File} {i : Import} {name path : String}

/-- Whether a file makes a name stand for a class: by an import that is seen under the name, or
because the class of that name in the file's own namespace is the class. -/
def Introduces (f : File) (name path : String) : Prop :=
  (∃ i ∈ f.imports, i.visible = name ∧ i.path = path) ∨ f.namespaceName ++ "\\" ++ name = path

theorem subset_imports_addImport (f : File) (i : Import) :
    f.imports ⊆ (f.addImport i).imports := by
  unfold addImport
  split
  · exact List.Subset.refl _
  · exact List.subset_append_left _ _

theorem mem_imports_addImport (h : sees f.namespaceName i = false) :
    i ∈ (f.addImport i).imports := by
  unfold addImport
  rw [h, Bool.false_or]
  split
  · exact List.mem_of_elem_eq_true ‹_›
  · exact List.mem_append_right _ List.mem_cons_self

theorem Introduces.addImport (h : f.Introduces name path) (i : Import) :
    (f.addImport i).Introduces name path := by
  rcases h with ⟨j, hj, hvisible⟩ | hown
  · exact Or.inl ⟨j, subset_imports_addImport f i hj, hvisible⟩
  · exact Or.inr (by rwa [namespaceName_addImport])

theorem introduces_addMethod (m : Method) :
    (f.addMethod m).Introduces name path ↔ f.Introduces name path := Iff.rfl

@[simp] theorem qualifiedName_addMethod (f : File) (m : Method) :
    (f.addMethod m).qualifiedName = f.qualifiedName := rfl

end File

end Php

namespace Client
open Php (Expr File Method)

variable {f : File} {c : ClassRef} {suffix : String}

/-- A class that is imported under no other name is seen under its own. -/
theorem introduces_addImport (h : '\\' ∉ c.name.toList) (f : File) :
    (f.addImport ⟨c.qualifiedName, none⟩).Introduces c.name c.qualifiedName := by
  by_cases hsees : File.sees f.namespaceName ⟨c.qualifiedName, none⟩ = true
  · -- the import is left out, and the namespace stands for it
    right
    rw [File.sees, Bool.and_eq_true, beq_iff_eq, ClassRef.qualifiedName,
      Php.Import.namespace?_path h] at hsees
    rw [Php.File.namespaceName_addImport, ← Option.some.inj hsees.1, ClassRef.qualifiedName]
  · left
    refine ⟨_, Php.File.mem_imports_addImport (Bool.eq_false_iff.mpr hsees), ?_, rfl⟩
    exact Php.Import.shortName_path h c.namespaceName

/-- The name by which a class is imported stands for it. -/
theorem introduces_importClass (h : '\\' ∉ c.name.toList) (f : File) (suffix : String) :
    (importClass f c suffix).2.Introduces (importClass f c suffix).1 c.qualifiedName := by
  unfold importClass
  split
  · rename_i hown
    rw [Bool.and_eq_true, decide_eq_true_eq, decide_eq_true_eq] at hown
    exact Or.inr (by rw [ClassRef.qualifiedName, hown.1])
  · split
    · rename_i i hi
      have hpath : i.path = c.qualifiedName := by simpa using List.find?_some hi
      refine Or.inl ⟨i, List.mem_of_find?_eq_some hi, ?_, hpath⟩
      rw [Php.Import.visible, hpath, ClassRef.qualifiedName, Php.Import.shortName_path h]
    · split
      · refine Or.inl ⟨_, Php.File.mem_imports_addImport ?_, rfl, rfl⟩
        rw [File.sees, Option.isNone_some, Bool.and_false]
      · exact introduces_addImport h f

/-! Request files -/

theorem qualifiedName_addConstructor (f : File) (ms : List Member) :
    (addConstructor f ms).qualifiedName = f.qualifiedName := by
  unfold addConstructor
  split <;> rfl

theorem qualifiedName_addValues (f : File) (name : String) (ms : List Member) :
    (addValues f name ms).qualifiedName = f.qualifiedName := by
  unfold addValues
  split <;> rfl

theorem qualifiedName_addBody (f : File) (ms : List Member) :
    (addBody f ms).qualifiedName = f.qualifiedName := by
  unfold addBody
  split
  · rfl
  · rw [qualifiedName_addValues, Php.File.qualifiedName_addImport,
      Php.File.qualifiedName_addImport]
    rfl

/-- The file of a request holds the class that its resource refers to. -/
theorem qualifiedName_requestFile (d : Api.Description) (s : Settings) (classes : DtoClasses)
    (r : Resource) (c : Call) :
    (requestFile d s classes r c).qualifiedName = (r.requestRef s c).qualifiedName := by
  have hstart : (requestStart s r c).qualifiedName = (r.requestRef s c).qualifiedName := by
    rw [requestStart, Php.File.qualifiedName_addImport, Php.File.qualifiedName_addImport]
    rfl
  unfold requestFile
  split
  · rw [addResponse, Php.File.qualifiedName_addMethod, qualifiedName_importClass,
      Php.File.qualifiedName_addImport, qualifiedName_addValues, qualifiedName_addValues,
      qualifiedName_addBody, qualifiedName_addConstructor, Php.File.qualifiedName_addMethod, hstart]
  · rw [qualifiedName_addValues, qualifiedName_addValues, qualifiedName_addBody,
      qualifiedName_addConstructor, Php.File.qualifiedName_addMethod, hstart]

/-- The parameters of a class's constructor, if it has one. -/
def constructorParams (f : File) : List Php.Param :=
  match f.declaration.constructor? with
  | some k => k.params
  | none => []

theorem constructorParams_requestFile (d : Api.Description) (s : Settings) (classes : DtoClasses)
    (r : Resource) (c : Call) : constructorParams (requestFile d s classes r c) =
      c.members.map fun m => { m.toParam with promoted := some .heirs } := by
  rw [constructorParams, constructor?_requestFile]
  by_cases h : c.members = []
  · rw [h]
    rfl
  · rw [head?_constructors h]
    rfl

/-! Resource files -/

variable {s : Settings} {r : Resource} {calls : List Call}

theorem introduces_of_importClass {name path : String} (h : f.Introduces name path) (c : ClassRef)
    (suffix : String) : (importClass f c suffix).2.Introduces name path := by
  rcases importClass_snd f c suffix with heq | ⟨rename, heq⟩
  · rwa [heq]
  · rw [heq]
    exact h.addImport _

theorem addCall_eq (s : Settings) (r : Resource) (f : File) (c : Call) : addCall s r f c =
    (importClass f (r.requestRef s c) "Request").2.addMethod
      (c.sendMethod (importClass f (r.requestRef s c) "Request").1) := by
  rw [addCall]

/-- A method that sends the request of a call, under a name that stands for its class. -/
def Sends (s : Settings) (r : Resource) (f : File) (c : Call) (m : Method) : Prop :=
  ∃ name, m = c.sendMethod name ∧ f.Introduces name (r.requestRef s c).qualifiedName

theorem Sends.addCall {c : Call} {m : Method} (h : Sends s r f c m) (d : Call) :
    Sends s r (Client.addCall s r f d) c m := by
  obtain ⟨name, hm, hname⟩ := h
  have hkept := introduces_of_importClass hname (r.requestRef s d) "Request"
  refine ⟨name, hm, ?_⟩
  rwa [addCall_eq, Php.File.introduces_addMethod]

theorem sends_addCall {c : Call} (h : '\\' ∉ c.requestClass.toList) (f : File) :
    ∃ m, (addCall s r f c).declaration.methods = f.declaration.methods ++ [m] ∧
      Sends s r (addCall s r f c) c m := by
  have hname := introduces_importClass (c := r.requestRef s c) h f "Request"
  refine ⟨_, methods_addCall s r f c, _, rfl, ?_⟩
  rwa [addCall_eq, Php.File.introduces_addMethod]

/-- Calls that are added one by one have their methods at the end, in their order. -/
theorem sends_foldl_addCall (h : ∀ c ∈ calls, '\\' ∉ c.requestClass.toList) (f : File) :
    ∃ ms, (calls.foldl (addCall s r) f).declaration.methods = f.declaration.methods ++ ms ∧
      List.Forall₂ (Sends s r (calls.foldl (addCall s r) f)) calls ms := by
  induction calls using List.reverseRecOn with
  | nil => exact ⟨[], (List.append_nil _).symm, .nil⟩
  | append_singleton calls c ih =>
    rw [List.forall_mem_append, List.forall_mem_singleton] at h
    obtain ⟨ms, hms, hall⟩ := ih h.1
    obtain ⟨m, hm, hsends⟩ := sends_addCall (s := s) (r := r) h.2 (calls.foldl (addCall s r) f)
    rw [List.foldl_append, List.foldl_cons, List.foldl_nil]
    refine ⟨ms ++ [m], by rw [hm, hms, List.append_assoc], ?_⟩
    have hkept := hall.imp fun _ _ hsent => hsent.addCall c
    exact List.rel_append hkept (.cons hsends .nil)

/-- A resource class has a method for each call, which sends the call's request. -/
theorem sends_resourceFile (h : ∀ c ∈ r.calls, '\\' ∉ c.requestClass.toList) :
    List.Forall₂ (Sends s r (resourceFile s r)) r.calls (resourceFile s r).declaration.methods := by
  obtain ⟨ms, hms, hall⟩ := sends_foldl_addCall (s := s) h (resourceStart s r)
  rw [methods_resourceStart, List.nil_append] at hms
  rw [resourceFile, hms]
  exact hall

/-! Plans -/

theorem requestClassOf_eq (method : String) : ∃ tail, Naming.IsAlphanum tail ∧
    requestClassOf method = Naming.className method "Request" ++ tail := by
  simp only [requestClassOf]
  split
  · exact ⟨"Request", Naming.isAlphanum_of_all (by decide), rfl⟩
  · exact ⟨"", Naming.isAlphanum_of_all (by decide), String.append_empty.symm⟩

/-- A request class has the name that is wanted for a method, or a numbered one. -/
theorem Plan.exists_requestClass {d : Api.Description} {c : Call}
    (hr : r ∈ (ofDescription d s).resources) (hc : c ∈ r.calls) : ∃ method tail taken,
      Naming.IsAlphanum tail ∧
      c.requestClass = Naming.freshNumbered taken (Naming.className method "Request" ++ tail) := by
  rw [ofDescription_resources] at hr
  rw [(mem_grouped.mp hr).2] at hc
  obtain ⟨q, hq⟩ := Resource.exists_plan hc
  have hclass := congrArg Call.requestClass hq
  simp only [Resource.plan] at hclass
  obtain ⟨tail, htail, heq⟩ := requestClassOf_eq
    (Naming.freshVariable (q.calls.map (·.method)) (Naming.variableName (sourceName c.endpoint)))
  rw [heq] at hclass
  exact ⟨_, tail, _, htail, hclass⟩

theorem Plan.isAlphanum_requestClass {d : Api.Description} {c : Call}
    (hr : r ∈ (ofDescription d s).resources) (hc : c ∈ r.calls) :
    Naming.IsAlphanum c.requestClass := by
  obtain ⟨method, tail, taken, htail, heq⟩ := exists_requestClass hr hc
  have hsuffix : Naming.IsAlphanum "Request" := Naming.isAlphanum_of_all (by decide)
  rw [heq]
  exact ((Naming.isAlphanum_className hsuffix method).append htail).freshNumbered taken

/-- In each resource class, the method of an endpoint has the parameters of the constructor of the
endpoint's request, all of different names, and sends a new request made from exactly these. The
name by which it makes the request stands for the class in the request's file. -/
theorem Sdk.generate_agrees {d : Api.Description} {sdk : Sdk} (h : generate d s = .ok sdk)
    {i : Nat} (hr : (Plan.ofDescription d s).resources[i]? = some r) :
    ∃ f, sdk.resources[i]? = some f ∧ f.declaration.methods.length = r.calls.length ∧
      ∀ (j : Nat) (c : Call), r.calls[j]? = some c →
        ∃ m name, ∃ q ∈ sdk.requests, f.declaration.methods[j]? = some m ∧ m.name = c.method ∧
          q = requestFile d s (dtoClasses d s) r c ∧
          m.params = (constructorParams q).map (fun p => { p with promoted := none }) ∧
          (m.params.map (·.name)).Nodup ∧
          m.body = [.returns (.methodCall (.thisProperty "connector") "send"
            [.new name (m.params.map fun p => .variable p.name)])] ∧
          f.Introduces name q.qualifiedName := by
  obtain ⟨-, connector, -, rfl⟩ := generate_eq_ok h
  have hmem : r ∈ (Plan.ofDescription d s).resources := List.mem_of_getElem? hr
  have hclear : ∀ c ∈ r.calls, '\\' ∉ c.requestClass.toList := by
    intro c hc hbackslash
    cases Plan.isAlphanum_requestClass hmem hc _ hbackslash
  obtain ⟨hlength, hsends⟩ := List.forall₂_iff_get.mp (sends_resourceFile (s := s) hclear)
  refine ⟨resourceFile s r, by simp [hr], hlength.symm, fun j c hj => ?_⟩
  obtain ⟨hlt, hget⟩ := List.getElem?_eq_some_iff.mp hj
  have hc : c ∈ r.calls := List.mem_of_getElem? hj
  obtain ⟨name, hm, hname⟩ := hsends j hlt (hlength ▸ hlt)
  rw [List.get_eq_getElem, List.get_eq_getElem, hget] at hm
  rw [List.get_eq_getElem, hget, ← qualifiedName_requestFile d s (dtoClasses d s)] at hname
  have hparams : (constructorParams (requestFile d s (dtoClasses d s) r c)).map
      (fun p => { p with promoted := none }) = c.members.map Member.toParam := by
    rw [constructorParams_requestFile, List.map_map]
    rfl
  have hnames : (c.members.map Member.toParam).map (·.name) = c.members.map (·.name) := by
    rw [List.map_map]
    rfl
  refine ⟨c.sendMethod name, name, requestFile d s (dtoClasses d s) r c, ?_, ?_, rfl, rfl,
    hparams.symm, ?_, ?_, hname⟩
  · exact List.mem_flatMap.mpr ⟨r, hmem, List.mem_map_of_mem hc⟩
  · rw [← hm, List.getElem?_eq_getElem]
  · exact hnames ▸ Plan.nodup_members hmem hc
  · rw [Call.sendMethod, Method.returning, List.map_map]
    rfl

/-- Users, of which one is got by a method and a request of the name of their resource. -/
def roster : Api.Description :=
  { Api.Description.empty with endpoints := [
    { Api.Endpoint.plain "users" .get "/users/:id" with
      collection := some "Users"
      queryParameters := [{ Api.Parameter.plain "page" .int with
        nullable := true, default := some (.number (.int 25)) }] }] }

/-- The request class gives way to the resource class in its name, and is meant all the same. -/
theorem Sdk.generate_roster_agrees : ∃ sdk, generate roster (.new "Acme" "App") = .ok sdk ∧
    ∃ f, sdk.resources[0]? = some f ∧
      f.imports.map (·.visible) = ["Resource", "Response", "UsersRequest"] ∧
      ∃ m name, ∃ q ∈ sdk.requests, f.declaration.methods[0]? = some m ∧
        q.qualifiedName = "App\\Requests\\Users\\Users" ∧ m.params.map (·.name) = ["id", "page"] ∧
        m.params = (constructorParams q).map (fun p => { p with promoted := none }) ∧
        m.body = [.returns (.methodCall (.thisProperty "connector") "send"
          [.new name [.variable "id", .variable "page"]])] ∧
        f.Introduces name "App\\Requests\\Users\\Users" := by
  have hrun : (generate roster (.new "Acme" "App")).toOption.map (fun sdk =>
      sdk.resources.map fun f => f.imports.map (·.visible)) =
      some [["Resource", "Response", "UsersRequest"]] := by decide +kernel
  have hplan : (Plan.ofDescription roster (.new "Acme" "App")).resources.map (fun r =>
      r.calls.map fun c => ((r.requestRef (.new "Acme" "App") c).qualifiedName,
        c.members.map (·.name))) =
      [[("App\\Requests\\Users\\Users", ["id", "page"])]] := by decide +kernel
  obtain ⟨sdk, hsdk, himports⟩ := toOption_map_eq_some.mp hrun
  obtain ⟨r, hr, hcalls⟩ : ∃ r, (Plan.ofDescription roster (.new "Acme" "App")).resources[0]? =
      some r ∧ r.calls.map (fun c => ((r.requestRef (.new "Acme" "App") c).qualifiedName,
        c.members.map (·.name))) = [("App\\Requests\\Users\\Users", ["id", "page"])] := by
    obtain ⟨r, hr⟩ := List.map_eq_singleton_iff.mp hplan
    exact ⟨r, by rw [hr.1]; rfl, hr.2⟩
  obtain ⟨c, hc, hnames⟩ := List.map_eq_singleton_iff.mp hcalls
  obtain ⟨hname, hmembers⟩ := Prod.mk.inj hnames
  obtain ⟨f, hf, -, hall⟩ := generate_agrees hsdk hr
  obtain ⟨m, name, q, hq, hm, -, rfl, hparams, -, hbody, hstands⟩ := hall 0 c (by rw [hc]; rfl)
  have hids : m.params.map (·.name) = ["id", "page"] := by
    rw [hparams, constructorParams_requestFile, List.map_map, List.map_map]
    exact hmembers
  have hargs : (m.params.map fun p => Expr.variable p.name) =
      [.variable "id", .variable "page"] := by
    have hmap := congrArg (List.map Expr.variable) hids
    rwa [List.map_map] at hmap
  rw [qualifiedName_requestFile, hname] at hstands
  refine ⟨sdk, hsdk, f, hf, ?_, m, name, _, hq, hm, ?_, hids, hparams, hargs ▸ hbody, hstands⟩
  · have hvisible := congrArg (·[0]?) himports
    simpa [hf] using hvisible
  · rw [qualifiedName_requestFile, hname]

end Client
end SdkSmith
