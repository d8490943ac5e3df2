import SdkSmith.Proofs.Client.Imports.Headers

/-!
The base classes of a client and its data classes: each is built with the imports of its header, and
names no other classes.
-/
namespace SdkSmith.Client
open Php (Expr File Import Method)

variable {d : Api.Description} {s : Settings} {u : Usage} {f : File} {classes : DtoClasses}

/-! Base classes -/

theorem traces_resourceBase (s : Settings) :
    Traces (Header.ofResourceBase s).usage (Support.resourceFile s) :=
  Traces.start [⟨"Saloon\\Http\\Connector", none⟩] ⟨s.namespaceName, "Resource"⟩ rfl rfl (by decide)

theorem traces_dtoBase (s : Settings) :
    Traces (Header.ofDtoBase s).usage (Support.dtoFile s) := by
  unfold Support.dtoFile
  refine Traces.start [⟨deserializable s, none⟩, ⟨fieldMapTrait s, none⟩] ⟨s.namespaceName, "Dto"⟩
    (by rw [List.foldl_cons, List.foldl_cons, List.foldl_nil])
    rfl ?_
  rw [List.map_cons, List.map_singleton, visible_deserializable, visible_fieldMapTrait]
  decide

theorem traces_contract (s : Settings) :
    Traces (Header.ofContract s).usage (Support.contractFile s) :=
  Traces.start [] ⟨s.namespaceName ++ "\\Contracts", "Deserializable"⟩ rfl rfl (by decide)

theorem traces_trait (s : Settings) : Traces (Header.ofTrait s).usage (Support.traitFile s) :=
  Traces.start [] ⟨s.namespaceName ++ "\\Concerns", "HasFieldMap"⟩ rfl rfl (by decide)

/-! Data classes -/

theorem classNames_named (name : String) : (Php.PhpType.named name).classNames ⊆ [name] := by
  rw [Php.PhpType.classNames]
  split
  · exact List.nil_subset _
  · exact List.Subset.refl _

theorem classNames_memberType {m : Api.Schema} {t : Php.PhpType}
    (h : memberType d classes m = .plain t) : t.classNames = [] := by
  unfold memberType at h
  split at h
  · split at h
    · cases h
    · split at h
      · split at h
        · cases h
        · split at h
          · cases h
            rfl
          · cases h
            exact classNames_phpType _
      · cases h
        rfl
  · split at h
    · cases h
    · cases h
      rfl
  · cases h
    exact classNames_phpType _

/-- What a member's type is imported for is used by the names that are declared. -/
theorem traces_use (h : Traces u f) {t : MemberType}
    (hplain : ∀ type, t = .plain type → type.classNames = []) :
    Traces (t.refs.foldl (Usage.add "Dto") u) (t.use f).2 ∧
      (t.use f).1.type.classNames ⊆ (t.refs.foldl (Usage.add "Dto") u).names ∧
      (t.use f).1.cast.toList ⊆ (t.refs.foldl (Usage.add "Dto") u).names ∧
      (t.use f).1.listCast.toList ⊆ (t.refs.foldl (Usage.add "Dto") u).names := by
  cases t with
  | plain type =>
    refine ⟨h, ?_, List.nil_subset _, List.nil_subset _⟩
    rw [MemberType.use, hplain type rfl]
    exact List.nil_subset _
  | object c =>
    have hname : [(importClass f c "Dto").1] ⊆ (u.add "Dto" c).names :=
      List.cons_subset.mpr ⟨h.mem_names "Dto" c, List.nil_subset _⟩
    exact ⟨h.add "Dto" c, List.Subset.trans (classNames_named _) hname, hname, List.nil_subset _⟩
  | list items =>
    cases items with
    | none => exact ⟨h, List.nil_subset _, List.nil_subset _, List.nil_subset _⟩
    | some c =>
      have hname : [(importClass f c "Dto").1] ⊆ (u.add "Dto" c).names :=
        List.cons_subset.mpr ⟨h.mem_names "Dto" c, List.nil_subset _⟩
      exact ⟨h.add "Dto" c, List.nil_subset _, List.nil_subset _, hname⟩

namespace DtoDraft

/-- What holds of a data class after any fields, beside the uses of its classes. -/
structure Traced (u : Usage) (b : DtoDraft) : Prop where
  file : Traces u b.file
  params : Php.classNamesOfParams b.params ⊆ u.names
  casts : b.casts.map (·.2) ⊆ u.names
  listCasts : b.listCasts.map (·.2) ⊆ u.names

theorem traced_start (s : Settings) (c : ClassRef) (schema : Api.Schema) :
    Traced ((Usage.empty c).fix (baseImport c.name (dtoBase s) "BaseDto")) (start s c schema) := by
  have hempty : Traces (Usage.empty c) (File.plain c.namespaceName
      { Php.Class.empty .plain c.name with doc := docOf [schema.description] }) :=
    ⟨rfl, rfl, rfl, List.nil_subset _⟩
  constructor
  case file =>
    have himport := hempty.extend (dtoBase s) "BaseDto"
    simp only [start] at himport ⊢
    generalize importBase _ (dtoBase s) "BaseDto" = imported at himport ⊢
    exact himport
  case params =>
    simp only [start]
    exact List.nil_subset _
  case casts =>
    simp only [start]
    exact List.nil_subset _
  case listCasts =>
    simp only [start]
    exact List.nil_subset _

theorem map_snd_toList (o : Option String) (name : String) :
    (o.map fun c => (name, c)).toList.map (·.2) = o.toList := by
  cases o <;> rfl

theorem Traced.add {b : DtoDraft} (h : b.Traced u) (d : Api.Description) (classes : DtoClasses)
    (schemaName : String) (schema : Api.Schema) (property : String) (m : Api.Schema) :
    (b.add d classes schemaName schema property m).Traced
      ((memberType d classes m).refs.foldl (Usage.add "Dto") u) := by
  obtain ⟨hfile, htype, hcast, hlistCast⟩ :=
    traces_use h.file (t := memberType d classes m) fun _ => classNames_memberType
  have hkept := names_subset_foldl_add (memberType d classes m).refs "Dto" u
  constructor
  case file => exact hfile
  case params =>
    have hparams := h.params
    simp only [DtoDraft.add, Php.classNamesOfParams_eq, List.flatMap_append, List.flatMap_singleton,
      List.append_subset] at hparams ⊢
    refine ⟨List.Subset.trans hparams hkept, ?_⟩
    rw [Php.ParamOf.classNames, Php.declaredClassNames, Php.classNames_orNull]
    refine List.append_subset.mpr ⟨htype, ?_⟩
    split <;> exact List.nil_subset _
  case casts =>
    simp only [DtoDraft.add, List.map_append, map_snd_toList]
    exact List.append_subset.mpr ⟨List.Subset.trans h.casts hkept, hcast⟩
  case listCasts =>
    simp only [DtoDraft.add, List.map_append, map_snd_toList]
    exact List.append_subset.mpr ⟨List.Subset.trans h.listCasts hkept, hlistCast⟩

theorem traced_foldl_add {b : DtoDraft} (h : b.Traced u) (d : Api.Description)
    (classes : DtoClasses) (schemaName : String) (schema : Api.Schema)
    (ps : List (String × Api.Schema)) :
    (ps.foldl (fun b (property, m) => b.add d classes schemaName schema property m) b).Traced
      ((ps.flatMap fun x => (memberType d classes x.2).refs).foldl (Usage.add "Dto") u) := by
  induction ps generalizing b u with
  | nil => exact h
  | cons p ps ih =>
    rw [List.flatMap_cons, List.foldl_append]
    exact ih (h.add d classes schemaName schema p.1 p.2)

theorem classNames_fieldEntries (fields : List (String × String)) :
    Php.classNamesOfEntries (fieldEntries fields) = [] := by
  induction fields with
  | nil => rfl
  | cons field fields ih =>
    rw [fieldEntries, List.map_cons, Php.classNamesOfEntries, ← fieldEntries, ih]
    rfl

theorem classNames_castEntries (casts : List (String × String)) :
    Php.classNamesOfEntries (castEntries casts) = casts.map (·.2) := by
  induction casts with
  | nil => rfl
  | cons cast casts ih =>
    rw [castEntries, List.map_cons, Php.classNamesOfEntries, ← castEntries, ih]
    rfl

theorem classNames_staticMap (name : String) (entries : List (Expr × Expr)) :
    (Support.staticMap name entries).classNames = Php.classNamesOfEntries entries := by
  rw [Php.Property.classNames, Support.staticMap, Option.map_some, Option.getD_some,
    Expr.classNames]
  rfl

theorem classNames_mapProperty {names : List String} {casts : List (String × String)}
    (h : casts.map (·.2) ⊆ names) (name : String) :
    (mapProperty name (castEntries casts)).flatMap Php.Property.classNames ⊆ names := by
  unfold mapProperty
  split
  · exact List.nil_subset _
  · rwa [List.flatMap_singleton, classNames_staticMap, classNames_castEntries]

theorem Traced.finish {b : DtoDraft} (h : b.Traced u) : Traces u b.finish := by
  have hkept := h.file.refers
  refine h.file.declare rfl ?_
  simp only [Php.Class.classNames, List.append_subset, List.cons_append, List.flatMap_cons,
    List.flatMap_append, List.flatMap_nil, List.append_nil, classNames_staticMap,
    classNames_fieldEntries, Php.classNames_plain, List.nil_append] at hkept ⊢
  refine ⟨⟨hkept.1.1, classNames_mapProperty h.casts _, classNames_mapProperty h.listCasts _⟩, ?_⟩
  rw [Php.classNamesOfParams_subset]
  intro p hp
  exact Php.classNamesOfParams_subset.mp h.params p ((requiredFirst_perm b.params).mem_iff.mp hp)

end DtoDraft

theorem traces_dtoFile (d : Api.Description) (s : Settings) (classes : DtoClasses) (name : String)
    (c : ClassRef) (schema : Api.Schema) : Traces (Header.ofDto d s classes c schema).usage
      (dtoFile d s classes name c schema).1 :=
  (DtoDraft.traced_foldl_add (DtoDraft.traced_start s c schema) d classes name schema
    schema.properties).finish

end SdkSmith.Client
