import SdkSmith.Proofs.Client.Imports.HeaderNames
import SdkSmith.Proofs.Client.Imports.TracedFiles

/-!
The names of imports in the files of a client. The suffix for a name that is taken makes another
name, which may be taken as well; so may be the name of a class that is seen without an import. The
names in a file are unambiguous exactly if no such name is known twice.
-/
namespace SdkSmith.Client
open Php (File Import)

variable {d : Api.Description} {s : Settings} {sdk : Sdk}

/-! Headers -/

theorem nodup_eraseDups {α : Type} [DecidableEq α] (l : List α) : l.eraseDups.Nodup := by
  have hseen := nodup_keysSeen id l
  rwa [keysSeen, List.map_id] at hseen

theorem nodup_authenticators (d : Api.Description) :
    ((authenticators d).map (·.visible)).Nodup := by
  rw [authenticators, List.map_map]
  refine (nodup_eraseDups _).map fun a b heq => Carrier.authenticator_inj ?_
  rwa [Function.comp_apply, Function.comp_apply, visible_authImport, visible_authImport] at heq

theorem visible_baseImport (own path other : String) :
    (baseImport own path other).visible = other ∨
      (baseImport own path other).visible = Import.shortName path := by
  unfold baseImport Import.visible
  simp only
  split
  · exact Or.inl rfl
  · exact Or.inr rfl

theorem shortName_resourceBase (s : Settings) : Import.shortName (resourceBase s) = "Resource" := by
  have hclear : '\\' ∉ "Resource".toList := by decide
  rw [resourceBase_eq, ClassRef.qualifiedName, Php.Import.shortName_path hclear]

theorem visible_connectorBase_ne (own : String) (carrier : Carrier) :
    (baseImport own "Saloon\\Http\\Connector" "SaloonConnector").visible ≠
      carrier.authenticator := by
  have hvisible := visible_baseImport own "Saloon\\Http\\Connector" "SaloonConnector"
  rcases hvisible with hvisible | hvisible
  · rw [hvisible]
    cases carrier <;> decide
  · rw [hvisible]
    cases carrier <;> decide

/-- The classes at fixed names that a file refers to have different ones. -/
theorem nodup_fixed (d : Api.Description) (s : Settings) :
    ∀ x ∈ headers d s, (x.fixed.map (·.visible)).Nodup := by
  refine forall_headers ?_ ?_ List.nodup_nil List.nodup_nil ?_ ?_ ?_ ?_
  · exact List.nodup_singleton _
  · rw [Header.ofDtoBase, List.map_cons, List.map_singleton, visible_deserializable,
      visible_fieldMapTrait]
    decide
  · exact fun x _ => List.nodup_singleton _
  · intro r _ c _
    refine ((fixed_ofRequest_sublist d s (dtoClasses d s) r c).map _).nodup ?_
    decide
  · intro r _
    have hvisible := visible_baseImport r.className (resourceBase s) "BaseResource"
    rw [shortName_resourceBase] at hvisible
    rw [Header.ofResource, List.map_cons, List.map_singleton]
    rcases hvisible with hvisible | hvisible
    · rw [hvisible]
      decide
    · rw [hvisible]
      decide
  · rw [Header.ofConnector, List.map_cons, List.nodup_cons]
    refine ⟨fun hmem => ?_, nodup_authenticators d⟩
    obtain ⟨i, hi, hvisible⟩ := List.mem_map.mp hmem
    obtain ⟨carrier, -, rfl⟩ := List.mem_map.mp hi
    rw [visible_authImport] at hvisible
    exact visible_connectorBase_ne (connectorName s) carrier hvisible.symm

/-- No class at a fixed name, of a schema, a request or a resource has a separator in its name. -/
theorem clear_own (d : Api.Description) (s : Settings) :
    ∀ x ∈ headers d s, '\\' ∉ x.own.name.toList := by
  have hresource : '\\' ∉ "Resource".toList := by decide
  have hdto : '\\' ∉ "Dto".toList := by decide
  have hcontract : '\\' ∉ "Deserializable".toList := by decide
  have htrait : '\\' ∉ "HasFieldMap".toList := by decide
  refine forall_headers hresource hdto hcontract htrait ?_ ?_ ?_ ?_
  · intro x hx
    have hmem : x.2.1 ∈ (dtoClasses d s).map (·.2) := by
      rw [← refs_schemaClasses]
      exact List.mem_map_of_mem hx
    obtain ⟨y, hy, heq⟩ := List.mem_map.mp hmem
    have halnum := (apart_dtoClasses d s).isAlphanum y hy
    rw [heq] at halnum
    exact clear_of_isAlphanum halnum
  · exact fun r hr c hc => clear_of_isAlphanum (Plan.isAlphanum_requestClass hr hc)
  · exact fun r hr => Plan.clear_className hr
  · have halnum := clear_of_isAlphanum (isAlphanum_connectorName s)
    simp only [Header.ofConnector]
    exact halnum

/-- No name stands for two of the classes that a file refers to. -/
theorem named_classes (d : Api.Description) (s : Settings) :
    ∀ x ∈ headers d s, ∀ c ∈ x.classes, ∀ c' ∈ x.classes, c.name = c'.name → c = c' := by
  refine forall_headers (List.forall_mem_nil _) (List.forall_mem_nil _) (List.forall_mem_nil _)
    (List.forall_mem_nil _) ?_ ?_ ?_ ?_
  · intro x _ c hc c' hc' hname
    obtain ⟨m, -, hm⟩ := List.mem_flatMap.mp hc
    obtain ⟨m', -, hm'⟩ := List.mem_flatMap.mp hc'
    obtain ⟨schema, hschema⟩ := mem_refs_memberType hm
    obtain ⟨schema', hschema'⟩ := mem_refs_memberType hm'
    have hsame := List.inj_on_of_nodup_map (apart_dtoClasses d s).nodup hschema hschema' hname
    exact congrArg (·.2) hsame
  · intro r _ call _ c hc c' hc' _
    obtain ⟨response, hresponse, rfl⟩ := Option.map_eq_some_iff.mp (Option.mem_toList.mp hc)
    obtain ⟨response', hresponse', rfl⟩ := Option.map_eq_some_iff.mp (Option.mem_toList.mp hc')
    rw [Option.some.inj (hresponse.symm.trans hresponse')]
  · intro r _ c hc c' hc' hname
    obtain ⟨call, -, rfl⟩ := List.mem_map.mp hc
    obtain ⟨call', -, rfl⟩ := List.mem_map.mp hc'
    exact congrArg (ClassRef.mk _) hname
  · intro c hc c' hc' hname
    obtain ⟨r, -, rfl⟩ := mem_sortedResources hc
    obtain ⟨r', -, rfl⟩ := mem_sortedResources hc'
    exact congrArg (ClassRef.mk _) hname

theorem sound_headers (d : Api.Description) (s : Settings) : ∀ x ∈ headers d s, x.Sound :=
  fun x hx => ⟨clear_own d s x hx, nodup_fixed d s x hx, clear_classes_headers d s x hx,
    named_classes d s x hx⟩

/-! Clients -/

theorem Traces.unambiguous_iff {u : Usage} {f : File} (h : Traces u f)
    (uses : List (String × String)) : Unambiguous f uses ↔ Unambiguous u.file uses := by
  constructor
  · rintro ⟨hdistinct, hapart⟩
    rw [h.name, h.imports] at hdistinct
    rw [h.imports] at hapart
    exact ⟨hdistinct, hapart⟩
  · rintro ⟨hdistinct, hapart⟩
    rw [← h.name, ← h.imports] at hdistinct
    rw [← h.imports] at hapart
    exact ⟨hdistinct, hapart⟩

theorem Traces.introduces_iff {u : Usage} {f : File} (h : Traces u f) (name path : String) :
    f.Introduces name path ↔ u.file.Introduces name path := by
  rw [File.Introduces, File.Introduces, h.imports, h.namespaceName]

namespace Sdk

/-- Each file of a client names no classes but those of its header, each by a name that stands for
it. Its own class and its imports are seen by different names, and no import is seen by the name of
another class that the file refers to, exactly if no name is known twice: neither its own nor that
of a class at a fixed name, be it imported or of the namespace of the file, nor the name of another
class, which has the suffix where the name is that of a class that is known. -/
theorem generate_distinguishes (h : generate d s = .ok sdk) :
    List.Forall₂ (fun x f => f.qualifiedName = x.own.qualifiedName ∧
      f.declaration.classNames ⊆ x.usage.uses.map (·.1) ∧
      (∀ y ∈ x.usage.uses, f.Introduces y.1 y.2) ∧
      (Unambiguous f x.usage.uses ↔ x.names.Nodup)) (headers d s) sdk.files := by
  have hsound := (List.forall₂_and_left _ _).mpr ⟨sound_headers d s, generate_traces h⟩
  refine hsound.imp fun x f ⟨hx, htraces⟩ => ⟨?_, htraces.refers, fun y hy => ?_, ?_⟩
  · rw [htraces.qualifiedName, x.qualifiedName_usage]
  · exact (htraces.introduces_iff _ _).mpr ((x.grounded hx.clear).introduces y hy)
  · rw [htraces.unambiguous_iff, hx.unambiguous_usage]

/-- The class of the request has the suffix, as the resource class has its name. -/
theorem generate_roster_distinguishes : ∃ sdk, generate roster (.new "Acme" "App") = .ok sdk ∧
    (∃ x ∈ headers roster (.new "Acme" "App"),
      x.names = ["Users", "Resource", "Response", "UsersRequest"]) ∧
    List.Forall₂ (fun x f => Unambiguous f x.usage.uses) (headers roster (.new "Acme" "App"))
      sdk.files := by
  have hrun : (generate roster (.new "Acme" "App")).toOption.map (fun sdk => sdk.files.length) =
      some 7 := by decide +kernel
  have hnames : ∃ x ∈ headers roster (.new "Acme" "App"),
      x.names = ["Users", "Resource", "Response", "UsersRequest"] := by decide +kernel
  have hnodup : ∀ x ∈ headers roster (.new "Acme" "App"), x.names.Nodup := by decide +kernel
  obtain ⟨sdk, hsdk, -⟩ := toOption_map_eq_some.mp hrun
  refine ⟨sdk, hsdk, hnames, ?_⟩
  have hfiles := (List.forall₂_and_left _ _).mpr ⟨hnodup, generate_distinguishes hsdk⟩
  exact hfiles.imp fun x f hx => hx.2.2.2.2.mpr hx.1

/-- Users, and requests for users, which are got by requests of one resource. -/
def userRequests : Api.Description :=
  { Api.Description.empty with endpoints := ["users request", "users"].map fun name =>
    { Api.Endpoint.plain name .get "/" with collection := some "Users" } }

/-- The class that gives way to the resource class takes the name of another request. -/
theorem generate_userRequests_ambiguous : ∃ sdk,
    generate userRequests (.new "Acme" "App") = .ok sdk ∧
    ∃ f ∈ sdk.resources, f.imports.map (·.pair) = [("Resource", "App\\Resource"),
      ("Response", "Saloon\\Http\\Response"),
      ("UsersRequest", "App\\Requests\\Users\\UsersRequest"),
      ("UsersRequest", "App\\Requests\\Users\\Users")] ∧ ∀ uses, ¬ Unambiguous f uses := by
  have hrun : (generate userRequests (.new "Acme" "App")).toOption.map (fun sdk =>
      sdk.resources.map fun f => f.imports.map (·.pair)) = some [[("Resource", "App\\Resource"),
        ("Response", "Saloon\\Http\\Response"),
        ("UsersRequest", "App\\Requests\\Users\\UsersRequest"),
        ("UsersRequest", "App\\Requests\\Users\\Users")]] := by decide +kernel
  obtain ⟨sdk, hsdk, hfiles⟩ := toOption_map_eq_some.mp hrun
  obtain ⟨f, hf, himports⟩ := List.mem_map.mp (hfiles ▸ List.mem_singleton_self _)
  refine ⟨sdk, hsdk, f, hf, himports, fun uses hgood => ?_⟩
  have hvisible : f.imports.map (·.visible) =
      ["Resource", "Response", "UsersRequest", "UsersRequest"] := by
    have hmap := congrArg (List.map Prod.fst) himports
    rwa [List.map_map] at hmap
  have hdistinct := (List.nodup_cons.mp hgood.distinct).2
  rw [hvisible] at hdistinct
  exact absurd hdistinct (by decide)

end Sdk
end SdkSmith.Client
