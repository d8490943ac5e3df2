import SdkSmith.Proofs.Client.Request.MemberSources
import SdkSmith.Proofs.Client.Sdk.Declarable

/-!
The members of data classes. Besides a field for each property a data class has a map of its fields,
and maps of the casts that its fields need, so a property of such a name clashes with them.
-/
namespace SdkSmith.Client
open Naming (variableName)

variable {d : Api.Description} {s : Settings}

/-- The class of the objects that a member is made from. -/
def MemberType.cast? : MemberType → Option ClassRef
  | .object c => some c
  | _ => none

/-- The class of the objects that the items of a member are made from. -/
def MemberType.listCast? : MemberType → Option ClassRef
  | .list items => items
  | _ => none

theorem MemberType.use_casts (t : MemberType) (f : Php.File) :
    ((t.use f).1.cast = none ↔ t.cast? = none) ∧
      ((t.use f).1.listCast = none ↔ t.listCast? = none) := by
  cases t with
  | plain t => simp [use, cast?, listCast?]
  | object c => simp [use, cast?, listCast?]
  | list items => cases items <;> simp [use, cast?, listCast?]

namespace DtoDraft

variable {classes : DtoClasses} {schemaName : String} {schema : Api.Schema} {b : DtoDraft}

/-- What a data class with these properties has: members that are promoted, and maps of casts if
some property needs them. -/
structure CastsOf (d : Api.Description) (classes : DtoClasses) (ps : List (String × Api.Schema))
    (b : DtoDraft) : Prop where
  promoted : ∀ p ∈ b.params, p.promoted = some .everyone
  casts : b.casts = [] ↔ ∀ p ∈ ps, (memberType d classes p.2).cast? = none
  listCasts : b.listCasts = [] ↔ ∀ p ∈ ps, (memberType d classes p.2).listCast? = none

theorem castsOf_start (d : Api.Description) (s : Settings) (classes : DtoClasses) (c : ClassRef)
    (schema : Api.Schema) : (start s c schema).CastsOf d classes [] := by
  simp only [start]
  exact ⟨List.forall_mem_nil _, by simp, by simp⟩

theorem CastsOf.add {ps : List (String × Api.Schema)} (h : b.CastsOf d classes ps)
    (schemaName : String) (schema : Api.Schema) (p : String × Api.Schema) :
    (b.add d classes schemaName schema p.1 p.2).CastsOf d classes (ps ++ [p]) := by
  obtain ⟨hcast, hlistCast⟩ := (memberType d classes p.2).use_casts b.file
  constructor
  case promoted =>
    simp only [DtoDraft.add]
    exact List.forall_mem_append.mpr ⟨h.promoted, List.forall_mem_singleton.mpr rfl⟩
  case casts =>
    rw [List.forall_mem_append, List.forall_mem_singleton, ← h.casts, ← hcast]
    simp only [DtoDraft.add, List.append_eq_nil_iff, Option.toList_eq_nil_iff,
      Option.map_eq_none_iff]
  case listCasts =>
    rw [List.forall_mem_append, List.forall_mem_singleton, ← h.listCasts, ← hlistCast]
    simp only [DtoDraft.add, List.append_eq_nil_iff, Option.toList_eq_nil_iff,
      Option.map_eq_none_iff]

theorem castsOf_foldl (schemaName : String) (schema : Api.Schema)
    (ps qs : List (String × Api.Schema)) (h : b.CastsOf d classes qs) :
    (ps.foldl (fun b (property, m) => b.add d classes schemaName schema property m) b).CastsOf
      d classes (qs ++ ps) := by
  induction ps generalizing b qs with
  | nil => rwa [List.append_nil]
  | cons p ps ih =>
    have hrest := ih (qs ++ [p]) (h.add schemaName schema p)
    rwa [List.append_assoc] at hrest

theorem properties_finish (b : DtoDraft) : b.finish.declaration.properties.map (·.name) =
    "fieldMap" :: (if b.casts = [] then [] else ["casts"]) ++
      (if b.listCasts = [] then [] else ["listCasts"]) := by
  have hmap : ∀ (name : String) (casts : List (String × String)),
      (mapProperty name (castEntries casts)).map (·.name) = if casts = [] then [] else [name] := by
    intro name casts
    cases casts <;> rfl
  rw [finish, List.cons_append, List.map_cons, List.map_append, hmap, hmap, List.cons_append]
  rfl

theorem promotedNames_finish (h : ∀ p ∈ b.params, p.promoted = some .everyone) :
    (promotedNames b.finish).Perm (b.params.map (·.name)) := by
  have hall : ∀ p ∈ requiredFirst b.params, p.promoted.isSome := by
    intro p hp
    rw [h p ((requiredFirst_perm b.params).mem_iff.mp hp)]
    rfl
  have hconstructor : constructorParams b.finish = requiredFirst b.params := rfl
  rw [promotedNames, hconstructor, List.filter_eq_self.mpr hall]
  exact (requiredFirst_perm b.params).map _

theorem declarable_finish (h : ∀ p ∈ b.params, p.promoted = some .everyone)
    (hdistinct : (b.params.map (·.name)).Nodup) : Declarable b.finish ↔
      "this" ∉ b.params.map (·.name) ∧ "fieldMap" ∉ b.params.map (·.name) ∧
      (b.casts ≠ [] → "casts" ∉ b.params.map (·.name)) ∧
      (b.listCasts ≠ [] → "listCasts" ∉ b.params.map (·.name)) := by
  have hperm := promotedNames_finish h
  have hparams : (∀ m ∈ b.finish.declaration.methods, "this" ∉ m.params.map (·.name)) ↔
      "this" ∉ b.params.map (·.name) := by
    have hmethods : b.finish.declaration.methods =
        [.plain "__construct" (requiredFirst b.params)] := rfl
    rw [hmethods, List.forall_mem_singleton]
    exact not_congr ((requiredFirst_perm b.params).map _).mem_iff
  -- the properties and the members are distinct by themselves, so only they may clash
  have hfixed : (b.finish.declaration.properties.map (·.name)).Nodup := by
    rw [properties_finish]
    split <;> split <;> decide
  have hnames : (declaredNames b.finish).Nodup ↔
      ∀ x ∈ b.finish.declaration.properties.map (·.name), x ∉ b.params.map (·.name) := by
    rw [declaredNames, List.nodup_append', hperm.nodup_iff]
    constructor
    · rintro ⟨-, -, hdisjoint⟩ x hx hmem
      exact hdisjoint hx (hperm.mem_iff.mpr hmem)
    · intro hall
      exact ⟨hfixed, hdistinct, fun x hx hmem => hall x hx (hperm.mem_iff.mp hmem)⟩
  have hdeclarable : Declarable b.finish ↔ (declaredNames b.finish).Nodup ∧
      ∀ m ∈ b.finish.declaration.methods, "this" ∉ m.params.map (·.name) :=
    ⟨fun hd => ⟨hd.distinct, hd.params⟩, fun hd => ⟨hd.1, hd.2⟩⟩
  have hmap : ∀ (casts : List (String × String)) (name : String),
      (∀ x ∈ (if casts = [] then [] else [name]), x ∉ b.params.map (·.name)) ↔
        (casts ≠ [] → name ∉ b.params.map (·.name)) := by
    intro casts name
    by_cases hempty : casts = []
    · simp [hempty]
    · rw [if_neg hempty, List.forall_mem_singleton]
      exact ⟨fun hfree _ => hfree, fun hall => hall hempty⟩
  rw [hdeclarable, hparams, hnames, properties_finish, List.forall_mem_append,
    List.forall_mem_cons, hmap, hmap, and_comm, and_assoc]

end DtoDraft

/-- Whether no property of a schema has the variable of a property that its data class has anyway:
the map of its fields, and those of the casts that it needs. -/
structure HasFreeProperties (d : Api.Description) (classes : DtoClasses) (schema : Api.Schema) :
    Prop where
  fixed : ∀ p ∈ schema.properties, variableName p.1 ≠ "this" ∧ variableName p.1 ≠ "fieldMap"
  casts : (∃ p ∈ schema.properties, (memberType d classes p.2).cast? ≠ none) →
    ∀ p ∈ schema.properties, variableName p.1 ≠ "casts"
  listCasts : (∃ p ∈ schema.properties, (memberType d classes p.2).listCast? ≠ none) →
    ∀ p ∈ schema.properties, variableName p.1 ≠ "listCasts"

instance (d : Api.Description) (classes : DtoClasses) (schema : Api.Schema) :
    Decidable (HasFreeProperties d classes schema) :=
  decidable_of_iff
    ((∀ p ∈ schema.properties, variableName p.1 ≠ "this" ∧ variableName p.1 ≠ "fieldMap") ∧
      ((∃ p ∈ schema.properties, (memberType d classes p.2).cast? ≠ none) →
        ∀ p ∈ schema.properties, variableName p.1 ≠ "casts") ∧
      ((∃ p ∈ schema.properties, (memberType d classes p.2).listCast? ≠ none) →
        ∀ p ∈ schema.properties, variableName p.1 ≠ "listCasts"))
    ⟨fun h => ⟨h.1, h.2.1, h.2.2⟩, fun h => ⟨h.fixed, h.casts, h.listCasts⟩⟩

theorem declarable_dtoFile (d : Api.Description) (s : Settings) (classes : DtoClasses)
    (name : String) (c : ClassRef) (schema : Api.Schema) :
    Declarable (dtoFile d s classes name c schema).1 ↔ HasFreeProperties d classes schema := by
  obtain ⟨hsound, hwires⟩ := DtoDraft.foldl_add_sound d classes schema schema.properties
    (DtoDraft.sound_start s c name schema)
  have hcasts := DtoDraft.castsOf_foldl name schema schema.properties []
    (DtoDraft.castsOf_start d s classes c schema)
  rw [DtoDraft.fields_start, List.map_nil, List.nil_append] at hwires
  rw [List.nil_append] at hcasts
  rw [dtoFile]
  generalize schema.properties.foldl (fun b (property, m) =>
    b.add d classes name schema property m) (DtoDraft.start s c schema) = b at hsound hwires hcasts
  have hpairs : (b.fields.map fieldPair).map (·.2) = b.params.map (·.name) := by
    rw [hsound.params_eq]
    simp only [List.map_map, Function.comp_def, fieldPair]
  have hsources : (b.fields.map fieldPair).map (·.1) =
      (schema.properties.map (·.1)).map variableName := by
    rw [← hwires]
    simp only [List.map_map, Function.comp_def, fieldPair]
  have hmem : ∀ x, Naming.IsOriginal x → (x ∉ b.params.map (·.name) ↔
      ∀ p ∈ schema.properties, variableName p.1 ≠ x) := by
    intro x hx
    have hgiven := hsound.given.mem_iff hx
    rw [hpairs, hsources] at hgiven
    rw [hgiven]
    simp only [List.mem_map, not_exists, not_and, forall_exists_index, and_imp,
      forall_apply_eq_imp_iff₂]
  have hdistinct := hsound.given.nodup
  rw [hpairs] at hdistinct
  rw [DtoDraft.declarable_finish hcasts.promoted hdistinct,
    hmem _ (Naming.isOriginal_of_endsInDigit (by decide)),
    hmem _ (Naming.isOriginal_of_endsInDigit (by decide)),
    hmem _ (Naming.isOriginal_of_endsInDigit (by decide)),
    hmem _ (Naming.isOriginal_of_endsInDigit (by decide)), Ne, Ne, hcasts.casts, hcasts.listCasts]
  constructor
  · rintro ⟨hthis, hfieldMap, hobjects, hlists⟩
    constructor
    case fixed => exact fun p hp => ⟨hthis p hp, hfieldMap p hp⟩
    case casts =>
      rintro ⟨p, hp, hcast⟩
      exact hobjects fun hnone => hcast (hnone p hp)
    case listCasts =>
      rintro ⟨p, hp, hcast⟩
      exact hlists fun hnone => hcast (hnone p hp)
  · intro hfree
    refine ⟨fun p hp => (hfree.fixed p hp).1, fun p hp => (hfree.fixed p hp).2,
      fun hsome => hfree.casts ?_, fun hsome => hfree.listCasts ?_⟩
    · simpa only [not_forall, exists_prop] using hsome
    · simpa only [not_forall, exists_prop] using hsome

end SdkSmith.Client
