import SdkSmith.Proofs.Client.Connector.Credentials
import SdkSmith.Proofs.Client.Dto.SchemaNames
import SdkSmith.Proofs.Client.Imports.Usage

/-!
The headers of a client's files: what each of them refers to, as the description and the settings
have it.
-/
namespace SdkSmith.Client
open Php (Expr File Import Method)

variable {d : Api.Description} {s : Settings}

namespace Header

/-- The header of the base class of resources. -/
def ofResourceBase (s : Settings) : Header :=
  ⟨⟨s.namespaceName, "Resource"⟩, [⟨"Saloon\\Http\\Connector", none⟩], [], ""⟩

/-- The header of the base class of data classes. -/
def ofDtoBase (s : Settings) : Header :=
  ⟨⟨s.namespaceName, "Dto"⟩, [⟨deserializable s, none⟩, ⟨fieldMapTrait s, none⟩], [], ""⟩

/-- The header of the contract of data classes. -/
def ofContract (s : Settings) : Header :=
  ⟨⟨s.namespaceName ++ "\\Contracts", "Deserializable"⟩, [], [], ""⟩

/-- The header of the trait of data classes. -/
def ofTrait (s : Settings) : Header :=
  ⟨⟨s.namespaceName ++ "\\Concerns", "HasFieldMap"⟩, [], [], ""⟩

end Header

/-- The class that a member is or lists. -/
def MemberType.refs : MemberType → List ClassRef
  | .plain _ => []
  | .object c => [c]
  | .list items => items.toList

/-- The header of a data class: its base class, and the classes of its members. -/
def Header.ofDto (d : Api.Description) (s : Settings) (classes : DtoClasses) (c : ClassRef)
    (schema : Api.Schema) : Header :=
  ⟨c, [baseImport c.name (dtoBase s) "BaseDto"],
    schema.properties.flatMap fun x => (memberType d classes x.2).refs, "Dto"⟩

/-- The imports of a request class with these members for its body. -/
def bodyImports (ms : List Member) : List Import :=
  if ms.isEmpty then []
  else [⟨"Saloon\\Contracts\\Body\\HasBody", none⟩, ⟨"Saloon\\Traits\\Body\\HasJsonBody", none⟩]

/-- The imports of a request class that makes objects of this class, if it does. -/
def responseImports (response? : Option (ClassRef × Bool)) : List Import :=
  if response?.isNone then [] else [⟨"Saloon\\Http\\Response", none⟩]

/-- The header of a request class. -/
def Header.ofRequest (d : Api.Description) (s : Settings) (classes : DtoClasses) (r : Resource)
    (c : Call) : Header :=
  ⟨r.requestRef s c,
    [⟨"Saloon\\Enums\\Method", none⟩, ⟨"Saloon\\Http\\Request", none⟩] ++
      bodyImports (c.membersIn .body) ++ responseImports (responseClass? d classes c.endpoint),
    ((responseClass? d classes c.endpoint).map (·.1)).toList, "Dto"⟩

/-- The header of a resource class: its base class, and the classes of its requests. -/
def Header.ofResource (s : Settings) (r : Resource) : Header :=
  ⟨r.classRef s,
    [baseImport r.className (resourceBase s) "BaseResource", ⟨"Saloon\\Http\\Response", none⟩],
    r.calls.map (r.requestRef s), "Request"⟩

/-- The import of a class that hands over keys. -/
def Carrier.authImport (carrier : Carrier) : Import :=
  ⟨"Saloon\\Http\\Auth\\" ++ carrier.authenticator, none⟩

/-- The imports of the classes that hand over keys, each once. -/
def authenticators (d : Api.Description) : List Import :=
  ((credentials d).map (·.carrier)).eraseDups.map Carrier.authImport

/-- The header of the connector: its base class, the classes that hand over keys, and the classes
of the resources. -/
def Header.ofConnector (d : Api.Description) (s : Settings) (p : Plan) : Header :=
  ⟨⟨s.namespaceName, connectorName s⟩,
    baseImport (connectorName s) "Saloon\\Http\\Connector" "SaloonConnector" :: authenticators d,
    sortedResources s p, "Resource"⟩

/-- The headers of a client's files, in their order. -/
def headers (d : Api.Description) (s : Settings) : List Header :=
  [.ofResourceBase s, .ofDtoBase s, .ofContract s, .ofTrait s] ++
    ((schemaClasses d s).filter fun x => !d.components.isResponse x.1).map
      (fun x => .ofDto d s (dtoClasses d s) x.2.1 x.2.2) ++
    ((schemaClasses d s).filter fun x => d.components.isResponse x.1).map
      (fun x => .ofDto d s (dtoClasses d s) x.2.1 x.2.2) ++
    (Plan.ofDescription d s).resources.flatMap
      (fun r => r.calls.map (.ofRequest d s (dtoClasses d s) r)) ++
    (Plan.ofDescription d s).resources.map (.ofResource s) ++
    [.ofConnector d s (Plan.ofDescription d s)]

/-! Fixed classes -/

theorem deserializable_eq (s : Settings) : deserializable s =
    (ClassRef.mk (s.namespaceName ++ "\\Contracts") "Deserializable").qualifiedName := by
  rw [deserializable, ClassRef.qualifiedName, String.append_assoc, String.append_assoc]
  rfl

theorem fieldMapTrait_eq (s : Settings) : fieldMapTrait s =
    (ClassRef.mk (s.namespaceName ++ "\\Concerns") "HasFieldMap").qualifiedName := by
  rw [fieldMapTrait, ClassRef.qualifiedName, String.append_assoc, String.append_assoc]
  rfl

theorem dtoBase_eq (s : Settings) :
    dtoBase s = (ClassRef.mk s.namespaceName "Dto").qualifiedName := by
  rw [dtoBase, ClassRef.qualifiedName, String.append_assoc]
  rfl

theorem resourceBase_eq (s : Settings) :
    resourceBase s = (ClassRef.mk s.namespaceName "Resource").qualifiedName := by
  rw [resourceBase, ClassRef.qualifiedName, String.append_assoc]
  rfl

/-- A class that is imported under no other name is seen by its own. -/
theorem visible_qualifiedName {c : ClassRef} (h : '\\' ∉ c.name.toList) :
    Import.visible ⟨c.qualifiedName, none⟩ = c.name :=
  Php.Import.shortName_path h c.namespaceName

theorem visible_deserializable (s : Settings) :
    Import.visible ⟨deserializable s, none⟩ = "Deserializable" := by
  have hclear : '\\' ∉ "Deserializable".toList := by decide
  rw [deserializable_eq, visible_qualifiedName hclear]

theorem visible_fieldMapTrait (s : Settings) :
    Import.visible ⟨fieldMapTrait s, none⟩ = "HasFieldMap" := by
  have hclear : '\\' ∉ "HasFieldMap".toList := by decide
  rw [fieldMapTrait_eq, visible_qualifiedName hclear]

/-- The classes at fixed names that request classes may import. -/
def requestImports : List Import :=
  [⟨"Saloon\\Enums\\Method", none⟩, ⟨"Saloon\\Http\\Request", none⟩,
    ⟨"Saloon\\Contracts\\Body\\HasBody", none⟩, ⟨"Saloon\\Traits\\Body\\HasJsonBody", none⟩,
    ⟨"Saloon\\Http\\Response", none⟩]

theorem bodyImports_sublist (ms : List Member) : (bodyImports ms).Sublist
    [⟨"Saloon\\Contracts\\Body\\HasBody", none⟩,
      ⟨"Saloon\\Traits\\Body\\HasJsonBody", none⟩] := by
  unfold bodyImports
  split
  · exact List.nil_sublist _
  · exact List.Sublist.refl _

theorem responseImports_sublist (response? : Option (ClassRef × Bool)) :
    (responseImports response?).Sublist [⟨"Saloon\\Http\\Response", none⟩] := by
  unfold responseImports
  split
  · exact List.nil_sublist _
  · exact List.Sublist.refl _

theorem fixed_ofRequest_sublist (d : Api.Description) (s : Settings) (classes : DtoClasses)
    (r : Resource) (c : Call) :
    (Header.ofRequest d s classes r c).fixed.Sublist requestImports := by
  have hbody := bodyImports_sublist (c.membersIn .body)
  have hresponse := responseImports_sublist (responseClass? d classes c.endpoint)
  exact ((List.Sublist.refl _).append hbody).append hresponse

/-! Headers of a client -/

/-- What holds of the headers of each kind holds of all. -/
theorem forall_headers {P : Header → Prop} (hresourceBase : P (.ofResourceBase s))
    (hdtoBase : P (.ofDtoBase s)) (hcontract : P (.ofContract s)) (htrait : P (.ofTrait s))
    (hdto : ∀ x ∈ schemaClasses d s, P (.ofDto d s (dtoClasses d s) x.2.1 x.2.2))
    (hrequest : ∀ r ∈ (Plan.ofDescription d s).resources, ∀ c ∈ r.calls,
      P (.ofRequest d s (dtoClasses d s) r c))
    (hresource : ∀ r ∈ (Plan.ofDescription d s).resources, P (.ofResource s r))
    (hconnector : P (.ofConnector d s (Plan.ofDescription d s))) : ∀ x ∈ headers d s, P x := by
  simp only [headers, List.forall_mem_append, List.forall_mem_cons, List.forall_mem_map,
    List.mem_flatMap]
  refine ⟨⟨⟨⟨⟨⟨hresourceBase, hdtoBase, hcontract, htrait, List.forall_mem_nil _⟩, ?_⟩, ?_⟩, ?_⟩,
    hresource⟩, hconnector, List.forall_mem_nil _⟩
  · exact fun x hx => hdto x (List.mem_filter.mp hx).1
  · exact fun x hx => hdto x (List.mem_filter.mp hx).1
  · rintro x ⟨r, hr, hx⟩
    obtain ⟨c, hc, rfl⟩ := List.mem_map.mp hx
    exact hrequest r hr c hc

theorem mem_headers_fixed {x : Header}
    (h : x ∈ [.ofResourceBase s, .ofDtoBase s, .ofContract s, .ofTrait s]) : x ∈ headers d s := by
  simp only [headers, List.append_assoc]
  exact List.mem_append_left _ h

/-- The class of each schema has a header. -/
theorem exists_header_of_schema {name : String} {c : ClassRef} (h : (name, c) ∈ dtoClasses d s) :
    ∃ x ∈ headers d s, x.own = c := by
  obtain ⟨schema, hschema⟩ := mem_schemaClasses h
  refine ⟨.ofDto d s (dtoClasses d s) c schema, ?_, rfl⟩
  simp only [headers, List.mem_append, List.mem_map, List.mem_filter]
  refine Or.inl (Or.inl (Or.inl ?_))
  cases hresponse : d.components.isResponse name with
  | false => exact Or.inl (Or.inr ⟨_, ⟨hschema, by simp [hresponse]⟩, rfl⟩)
  | true => exact Or.inr ⟨_, ⟨hschema, hresponse⟩, rfl⟩

theorem mem_headers_request {r : Resource} {c : Call}
    (hr : r ∈ (Plan.ofDescription d s).resources) (hc : c ∈ r.calls) :
    .ofRequest d s (dtoClasses d s) r c ∈ headers d s := by
  simp only [headers, List.mem_append, List.mem_flatMap]
  exact Or.inl (Or.inl (Or.inr ⟨r, hr, List.mem_map_of_mem hc⟩))

theorem mem_headers_resource {r : Resource} (hr : r ∈ (Plan.ofDescription d s).resources) :
    .ofResource s r ∈ headers d s := by
  simp only [headers, List.mem_append]
  exact Or.inl (Or.inr (List.mem_map_of_mem hr))

/-! Classes of a client -/

/-- A class that a member is or lists is that of a schema. -/
theorem mem_refs_memberType {classes : DtoClasses} {m : Api.Schema} {c : ClassRef}
    (h : c ∈ (memberType d classes m).refs) : ∃ name, (name, c) ∈ classes := by
  have hlist : ∀ schema : Api.Schema, c ∈ (listType classes schema).refs →
      ∃ name, (name, c) ∈ classes := by
    intro schema hc
    rw [listType, MemberType.refs, Option.mem_toList, Option.bind_eq_some_iff] at hc
    obtain ⟨name, -, hfind⟩ := hc
    exact ⟨name, Table.mem_of_find? hfind⟩
  unfold memberType at h
  split at h
  · split at h
    · rename_i hfind
      rw [MemberType.refs, List.mem_singleton] at h
      exact ⟨_, Table.mem_of_find? (h ▸ hfind)⟩
    · split at h
      · split at h
        · exact hlist _ h
        · split at h <;> cases h
      · cases h
  · split at h
    · exact hlist _ h
    · cases h
  · cases h

/-- The class of a response is that of a schema. -/
theorem mem_responseClass? {classes : DtoClasses} {e : Api.Endpoint} {c : ClassRef} { isList : Bool}
    (h : responseClass? d classes e = some (c, isList)) : ∃ name, (name, c) ∈ classes := by
  obtain ⟨name, -, hfind⟩ := Option.bind_eq_some_iff.mp h
  split at hfind
  · rename_i hfound
    obtain ⟨rfl, -⟩ := Prod.mk.inj (Option.some.inj hfind)
    exact ⟨name, Table.mem_of_find? hfound⟩
  · obtain ⟨found, hfound, heq⟩ := Option.map_eq_some_iff.mp hfind
    obtain ⟨rfl, -⟩ := Prod.mk.inj heq
    obtain ⟨item, -, hitem⟩ := Option.bind_eq_some_iff.mp hfound
    exact ⟨item, Table.mem_of_find? hitem⟩

theorem mem_sortedResources {p : Plan} {c : ClassRef} (h : c ∈ sortedResources s p) :
    ∃ r ∈ p.resources, r.classRef s = c :=
  List.mem_map.mp ((sortedResources_perm s p).mem_iff.mp h)

/-- The classes that a header refers to are of schemas, requests or resources. -/
theorem forall_classes_headers {P : ClassRef → Prop} (hdto : ∀ y ∈ dtoClasses d s, P y.2)
    (hrequest : ∀ r ∈ (Plan.ofDescription d s).resources, ∀ c ∈ r.calls, P (r.requestRef s c))
    (hresource : ∀ r ∈ (Plan.ofDescription d s).resources, P (r.classRef s)) :
    ∀ x ∈ headers d s, ∀ c ∈ x.classes, P c := by
  refine forall_headers (List.forall_mem_nil _) (List.forall_mem_nil _) (List.forall_mem_nil _)
    (List.forall_mem_nil _) ?_ ?_ ?_ ?_
  · intro x _ c hc
    obtain ⟨m, -, hm⟩ := List.mem_flatMap.mp hc
    obtain ⟨name, hname⟩ := mem_refs_memberType hm
    exact hdto _ hname
  · intro r _ call _ c hc
    obtain ⟨response, hresponse, rfl⟩ := Option.map_eq_some_iff.mp (Option.mem_toList.mp hc)
    obtain ⟨name, hname⟩ := mem_responseClass? hresponse
    exact hdto _ hname
  · intro r hr c hc
    obtain ⟨call, hcall, rfl⟩ := List.mem_map.mp hc
    exact hrequest r hr call hcall
  · intro c hc
    obtain ⟨r, hr, rfl⟩ := mem_sortedResources hc
    exact hresource r hr

theorem clear_of_isAlphanum {name : String} (h : Naming.IsAlphanum name) : '\\' ∉ name.toList := by
  intro hbackslash
  cases h _ hbackslash

theorem isAlphanum_connectorName (s : Settings) : Naming.IsAlphanum (connectorName s) := by
  rw [connectorName]
  exact Naming.isAlphanum_className (Naming.isAlphanum_of_all (by decide)) s.connectorName

/-- No class that a header refers to has a separator in its name. -/
theorem clear_classes_headers (d : Api.Description) (s : Settings) :
    ∀ x ∈ headers d s, ∀ c ∈ x.classes, '\\' ∉ c.name.toList := by
  refine forall_classes_headers ?_ ?_ ?_
  · exact fun y hy => clear_of_isAlphanum ((apart_dtoClasses d s).isAlphanum y hy)
  · exact fun r hr c hc => clear_of_isAlphanum (Plan.isAlphanum_requestClass hr hc)
  · exact fun r hr => Plan.clear_className hr

end SdkSmith.Client
