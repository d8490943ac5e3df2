import SdkSmith.Proofs.Document.Reading
import SdkSmith.Proofs.OpenApi.Hoist.Preserved

/-!
Schemas in which no property comes twice. A table that is read has distinct keys, so the schemas of
a document that is read are such at any depth, and hoisting, which moves schemas about, leaves them
so.
-/
namespace SdkSmith

/-! Reading -/

namespace Document

variable {α : Type} {P : α → Prop} {r : Reader α} {f : Fields} {name : String}

/-- Whether whatever is read is such. -/
def Reader.Gives (P : α → Prop) (r : Reader α) : Prop :=
  ∀ d a, r d = .ok a → P a

namespace Reader.Gives

theorem optional (h : r.Gives P) : (Reader.optional r).Gives fun o => ∀ a ∈ o, P a := by
  intro d o ho a ha
  obtain rfl : o = some a := ha
  unfold Reader.optional at ho
  split at ho
  · split at ho
    · cases ho
    · obtain ⟨b, hb, hab⟩ := SdkSmith.map_eq_ok.mp ho
      exact h _ _ (Option.some.inj hab ▸ hb)
  · obtain ⟨b, hb, hab⟩ := SdkSmith.map_eq_ok.mp ho
    exact h _ _ (Option.some.inj hab ▸ hb)

theorem list (h : r.Gives P) : (Reader.list r).Gives fun l => ∀ a ∈ l, P a := by
  intro d l hl a ha
  unfold Reader.list at hl
  split at hl
  · obtain ⟨x, -, hx⟩ := mem_of_mapM hl ha
    exact h x a hx
  · split at hl
    · cases hl
      cases ha
    · cases hl
  · cases hl

theorem members (h : r.Gives P) {ms : List (Scalar × Datum)} {l : List (String × α)}
    (hl : Reader.members r ms = .ok l) : ∀ p ∈ l, P p.2 := by
  induction ms generalizing l with
  | nil =>
    cases hl
    simp
  | cons m ms ih =>
    rw [Reader.members] at hl
    split at hl
    · cases hl
    · obtain ⟨a, ha, hl⟩ := bind_eq_ok.mp hl
      obtain ⟨rest, hrest, hl⟩ := bind_eq_ok.mp hl
      cases hl
      exact List.forall_mem_cons.mpr ⟨h _ a ha, ih hrest⟩

theorem table (h : r.Gives P) :
    (Reader.table r).Gives fun t => (Table.keys t).Nodup ∧ ∀ p ∈ t, P p.2 := by
  intro d t ht
  refine ⟨Reader.table_nodup ht, fun p hp => ?_⟩
  unfold Reader.table at ht
  split at ht
  · obtain ⟨l, hl, rfl⟩ := SdkSmith.map_eq_ok.mp ht
    exact h.members hl p ((Table.mem_putAll hp).resolve_left List.not_mem_nil)
  · split at ht
    · cases ht
      cases hp
    · cases ht
  · cases ht

/-- What is built from fields is such if it is whatever the fields are. -/
theorem record {names : List String} {build : Fields → Placed α}
    (h : ∀ f a, build f = (Except.ok a : Placed α) → P a) :
    (Reader.record name names build).Gives P := by
  intro d a ha
  obtain ⟨f, hf⟩ := Reader.record_eq_ok ha
  exact h f a hf

theorem member (h : r.Gives P) {o : Option α}
    (ho : f.optional name r = (Except.ok o : Placed (Option α))) : ∀ a ∈ o, P a := by
  unfold Fields.optional at ho
  split at ho
  · unfold Fields.readAt at ho
    split at ho
    · cases ho
      exact h.optional _ _ ‹_›
    · cases ho
  · cases hin : f.inOrder <;> rw [hin] at ho <;> cases ho
    simp

theorem memberOr (h : r.Gives P) {other a : α} (hother : P other)
    (ha : f.withDefault name other r = (Except.ok a : Placed α)) : P a := by
  rcases Fields.withDefault_eq_ok ha with rfl | ⟨d, hd⟩
  · exact hother
  · exact h d a hd

end Reader.Gives
end Document

open Document (Fields Placed Reader)
open Document.Reader (Gives)

namespace OpenApi

/-- Whether in a schema, at any depth, no property comes twice. -/
inductive Schema.Distinct : Schema → Prop
  | intro {s : Schema} (own : (Table.keys (s.properties.getD [])).Nodup)
      (properties : ∀ ps, s.properties = some ps → ∀ p ∈ ps, Distinct p.2)
      (items : ∀ i, s.items = some i → Distinct i)
      (members : ∀ ss, s.allOf = some ss → ∀ x ∈ ss, Distinct x) : Distinct s

/-- Whether no component and, in the schemas of a document, no property comes twice. -/
structure Document.Distinct (d : Document) : Prop where
  components : (Table.keys d.components.schemas).Nodup
  entries : ∀ p ∈ d.components.schemas, p.2.Distinct
  bodies : ∀ s ∈ d.bodies, s.Distinct

variable {s x : Schema} {d d' : Document} {h : Hoard} {f : Signature → String} {p : Place}

namespace Read

theorem distinct_schemaTo (n : Nat) : (schemaTo n).Gives Schema.Distinct := by
  induction n with
  | zero =>
    intro d s hs
    cases hs
  | succ n ih =>
    refine .record fun f s h => ?_
    obtain ⟨_, origin, h₁, -, rfl⟩ := Placed.seq_eq_ok.mp h
    obtain ⟨_, default, h₂, -, rfl⟩ := Placed.seq_eq_ok.mp h₁
    obtain ⟨_, enumValues, h₃, -, rfl⟩ := Placed.seq_eq_ok.mp h₂
    obtain ⟨_, nullable, h₄, -, rfl⟩ := Placed.seq_eq_ok.mp h₃
    obtain ⟨_, format, h₅, -, rfl⟩ := Placed.seq_eq_ok.mp h₄
    obtain ⟨_, allOf, h₆, hallOf, rfl⟩ := Placed.seq_eq_ok.mp h₅
    obtain ⟨_, items, h₇, hitems, rfl⟩ := Placed.seq_eq_ok.mp h₆
    obtain ⟨_, required, h₈, -, rfl⟩ := Placed.seq_eq_ok.mp h₇
    obtain ⟨_, properties, h₉, hproperties, rfl⟩ := Placed.seq_eq_ok.mp h₈
    obtain ⟨_, description, h₁₀, -, rfl⟩ := Placed.seq_eq_ok.mp h₉
    obtain ⟨_, title, h₁₁, -, rfl⟩ := Placed.seq_eq_ok.mp h₁₀
    obtain ⟨_, reference, h₁₂, -, rfl⟩ := Placed.seq_eq_ok.mp h₁₁
    obtain ⟨type, -, rfl⟩ := Placed.map_eq_ok.mp h₁₂
    have htable := ih.table.member hproperties
    refine .intro ?_ (fun ps hps => (htable ps hps).2) (ih.member hitems)
      (ih.list.member hallOf)
    cases properties with
    | none => exact List.nodup_nil
    | some ps => exact (htable ps rfl).1

/-- Whether in the content of a body no property comes twice. -/
def ContentDistinct (t : Table MediaType) : Prop :=
  ∀ p ∈ t, ∀ s ∈ p.2.schema, Schema.Distinct s

theorem distinct_content {t : Table MediaType} (h : ContentDistinct t) :
    ∀ s ∈ bodySchema? t, s.Distinct := by
  intro s hs
  obtain ⟨mime, -, hs⟩ := Option.bind_eq_some_iff.mp hs
  obtain ⟨m, hm, hs⟩ := Option.bind_eq_some_iff.mp hs
  exact h _ (Table.mem_of_find? hm) s hs

theorem distinct_mediaTypes : (Reader.table mediaType).Gives ContentDistinct := by
  have hmedia : mediaType.Gives fun m => ∀ s ∈ m.schema, Schema.Distinct s := by
    refine .record fun f m h => ?_
    obtain ⟨schema, hschema, rfl⟩ := Placed.map_eq_ok.mp h
    exact (distinct_schemaTo levels).member hschema
  exact fun d t ht => (hmedia.table d t ht).2

theorem distinct_requestBody : requestBody.Gives fun b => ContentDistinct b.content := by
  refine .record fun f b h => ?_
  obtain ⟨_, content, h₁, hcontent, rfl⟩ := Placed.seq_eq_ok.mp h
  obtain ⟨_, required, h₂, -, rfl⟩ := Placed.seq_eq_ok.mp h₁
  obtain ⟨description, -, rfl⟩ := Placed.map_eq_ok.mp h₂
  exact distinct_mediaTypes.memberOr (by simp [ContentDistinct]) hcontent

theorem distinct_response : response.Gives fun r => ContentDistinct r.content := by
  refine .record fun f r h => ?_
  obtain ⟨_, content, h₁, hcontent, rfl⟩ := Placed.seq_eq_ok.mp h
  obtain ⟨description, -, rfl⟩ := Placed.map_eq_ok.mp h₁
  exact distinct_mediaTypes.memberOr (by simp [ContentDistinct]) hcontent

theorem distinct_operation : operation.Gives fun o => ∀ s ∈ o.bodies, s.Distinct := by
  refine .record fun f o h => ?_
  obtain ⟨_, responses, h₁, hresponses, rfl⟩ := Placed.seq_eq_ok.mp h
  obtain ⟨_, requestBody, h₂, hrequest, rfl⟩ := Placed.seq_eq_ok.mp h₁
  obtain ⟨_, parameters, h₃, -, rfl⟩ := Placed.seq_eq_ok.mp h₂
  obtain ⟨_, tags, h₄, -, rfl⟩ := Placed.seq_eq_ok.mp h₃
  obtain ⟨_, description, h₅, -, rfl⟩ := Placed.seq_eq_ok.mp h₄
  obtain ⟨_, summary, h₆, -, rfl⟩ := Placed.seq_eq_ok.mp h₅
  obtain ⟨operationId, -, rfl⟩ := Placed.map_eq_ok.mp h₆
  have hbody := distinct_requestBody.member hrequest
  have hall := (distinct_response.table.memberOr (by simp) hresponses).2
  intro s hs
  rcases List.mem_append.mp hs with hs | hs
  · obtain ⟨b, hb, hs⟩ := Option.bind_eq_some_iff.mp (Option.mem_toList.mp hs)
    exact distinct_content (hbody b hb) s hs
  · obtain ⟨r, hr, hs⟩ := List.mem_filterMap.mp hs
    exact distinct_content (hall r hr) s hs

theorem distinct_pathItem : pathItem.Gives fun p => ∀ s ∈ p.bodies, s.Distinct := by
  refine .record fun f p h => ?_
  obtain ⟨_, parameters, h₁, -, rfl⟩ := Placed.seq_eq_ok.mp h
  obtain ⟨_, trace, h₂, htrace, rfl⟩ := Placed.seq_eq_ok.mp h₁
  obtain ⟨_, patch, h₃, hpatch, rfl⟩ := Placed.seq_eq_ok.mp h₂
  obtain ⟨_, head, h₄, hhead, rfl⟩ := Placed.seq_eq_ok.mp h₃
  obtain ⟨_, options, h₅, hoptions, rfl⟩ := Placed.seq_eq_ok.mp h₄
  obtain ⟨_, delete, h₆, hdelete, rfl⟩ := Placed.seq_eq_ok.mp h₅
  obtain ⟨_, post, h₇, hpost, rfl⟩ := Placed.seq_eq_ok.mp h₆
  obtain ⟨_, put, h₈, hput, rfl⟩ := Placed.seq_eq_ok.mp h₇
  obtain ⟨get, hget, rfl⟩ := Placed.map_eq_ok.mp h₈
  have hmember {o : Option Operation} {name : String} (ho : f.optional name operation =
      (Except.ok o : Placed _)) : ∀ s ∈ o.elim [] Operation.bodies, s.Distinct := by
    cases o with
    | none => simp
    | some o => exact distinct_operation.member ho o rfl
  intro s hs
  rw [PathItem.bodies_eq] at hs
  simp only [List.flatMap_cons, List.flatMap_nil, List.append_nil, List.mem_append] at hs
  rcases hs with hs | hs | hs | hs | hs | hs | hs | hs
  · exact hmember hget s hs
  · exact hmember hput s hs
  · exact hmember hpost s hs
  · exact hmember hdelete s hs
  · exact hmember hoptions s hs
  · exact hmember hhead s hs
  · exact hmember hpatch s hs
  · exact hmember htrace s hs

theorem distinct_components : components.Gives fun c =>
    (Table.keys c.schemas).Nodup ∧ ∀ p ∈ c.schemas, p.2.Distinct := by
  refine .record fun f c h => ?_
  obtain ⟨_, schemes, h₁, -, rfl⟩ := Placed.seq_eq_ok.mp h
  obtain ⟨_, parameters, h₂, -, rfl⟩ := Placed.seq_eq_ok.mp h₁
  obtain ⟨schemas, hschemas, rfl⟩ := Placed.map_eq_ok.mp h₂
  exact (distinct_schemaTo levels).table.memberOr ⟨by simp, by simp⟩ hschemas

theorem distinct_document : document.Gives Document.Distinct := by
  refine .record fun f d h => ?_
  obtain ⟨_, security, h₁, -, rfl⟩ := Placed.seq_eq_ok.mp h
  obtain ⟨_, components, h₂, hcomponents, rfl⟩ := Placed.seq_eq_ok.mp h₁
  obtain ⟨_, paths, h₃, hpaths, rfl⟩ := Placed.seq_eq_ok.mp h₂
  obtain ⟨_, servers, h₄, -, rfl⟩ := Placed.seq_eq_ok.mp h₃
  obtain ⟨_, info, h₅, -, rfl⟩ := Placed.seq_eq_ok.mp h₄
  obtain ⟨version, -, rfl⟩ := Placed.map_eq_ok.mp h₅
  obtain ⟨hkeys, hentries⟩ :=
    distinct_components.memberOr ⟨by simp, by simp⟩ hcomponents
  refine ⟨hkeys, hentries, fun s hs => ?_⟩
  obtain ⟨p, hp, hbody⟩ := List.mem_flatMap.mp hs
  cases paths with
  | none => cases hp
  | some ps => exact (distinct_pathItem.table.member hpaths ps rfl).2 p hp s hbody

end Read

/-- In a document that is read no property comes twice. -/
theorem Document.parse_distinct {source : String} (h : Document.parse source = .ok d) :
    d.Distinct := by
  unfold Document.parse at h
  simp only at h
  split at h
  · rename_i d' hd'
    cases h
    obtain ⟨x, -, hx⟩ := Option.map_eq_some_iff.mp hd'
    exact Read.distinct_document x d hx
  · cases h

/-! Hoisting -/

namespace Schema

/-- What moves out of a schema is a part of it. -/
theorem Distinct.moved (h : s.Distinct) : ∀ p, ∀ x ∈ s.moved p, x.Distinct := by
  induction h with
  | @intro s own properties items members ihproperties ihitems ihmembers =>
    have hinside : ∀ x ∈ s.inside, x.Distinct := by
      intro x hx
      rcases mem_inside.mp hx with ⟨ps, hps, p, hp, hx⟩ | ⟨i, hi, hx⟩ | ⟨ss, hss, y, hy, hx⟩
      · exact ihproperties ps hps p hp .member x hx
      · exact ihitems i hi .member x hx
      · exact ihmembers ss hss y hy .entry x hx
    intro p x hx
    rw [moved_eq] at hx
    split at hx
    · cases hx
    · obtain rfl := List.mem_singleton.mp hx
      exact .intro own properties items members
    · refine hinside x (mem_inside.mpr (Or.inr (Or.inl ?_)))
      cases hi : s.items with
      | none => simp [hi] at hx
      | some i => exact ⟨i, rfl, by simpa [hi] using hx⟩
    · exact hinside x hx

theorem Distinct.withOrigin (h : s.Distinct) (origin : Option Origin) :
    Distinct { s with origin := origin } := by
  cases h with
  | intro own properties items members => exact .intro own properties items members

/-- Settling a schema in the table leaves the names of its properties. -/
theorem Distinct.settle_nodup (h : s.Distinct) (f : Signature → String) :
    (Table.keys ((s.settle f .entry).properties.getD [])).Nodup := by
  cases h with
  | intro own =>
    have hkeys : Table.keys ((s.settleInside f).properties.getD []) =
        Table.keys (s.properties.getD []) := by
      have halike := (alike_settleInside f s).properties
      cases hs : s.properties <;> cases ht : (s.settleInside f).properties <;>
        simp_all
    rwa [settle_entry, hkeys]

theorem size_le_sizeAll {l : List Schema} (hx : x ∈ l) : x.size ≤ sizeAll l := by
  induction l with
  | nil => cases hx
  | cons y l ih =>
    rw [sizeAll]
    rcases List.mem_cons.mp hx with rfl | hx
    · omega
    · have := ih hx
      omega

theorem size_le_sizeProperties {ps : List (String × Schema)} {q : String × Schema}
    (hq : q ∈ ps) : q.2.size ≤ sizeProperties ps := by
  induction ps with
  | nil => cases hq
  | cons r ps ih =>
    rw [sizeProperties]
    rcases List.mem_cons.mp hq with rfl | hq
    · omega
    · have := ih hq
      omega

end Schema

namespace Document

/-- All entries are parts of the document. What an entry adds is smaller than the entry, so the
induction goes from the largest entries down. -/
theorem Gathers.distinct (hd : d.Distinct) (hg : d.Gathers h) {q : String × Schema}
    (hq : q ∈ h.table) : q.2.Distinct := by
  obtain ⟨new, htable : h.table = d.components.schemas ++ new, hnew, -⟩ := Hoard.Adds.appends hg
  induction hn : Schema.sizeProperties h.table - q.2.size using Nat.strongRecOn
    generalizing q with
  | ind n ih =>
    have hmem := hq
    rw [htable] at hmem
    rcases List.mem_append.mp hmem with hmem | hmem
    · exact hd.entries q hmem
    · obtain ⟨s, hs, -, origin, hq'⟩ := hnew q hmem
      rw [hq']
      refine Schema.Distinct.withOrigin ?_ origin
      rcases List.mem_append.mp hs with hs | hs
      · exact hd.bodies s (List.mem_filter.mp hs).1
      · obtain ⟨r, hr, hs⟩ := List.mem_flatMap.mp hs
        refine (ih _ ?_ hr rfl).moved .entry s hs
        have hsize : q.2.size = s.size := by rw [hq', Schema.size_withOrigin]
        rw [Schema.moved_entry] at hs
        have hpart := Schema.size_le_sizeAll hs
        have hinside := r.2.size_moved.1
        have htotal := Schema.size_le_sizeProperties hr
        omega

/-- In the normal form no schema of a body and no entry has a property twice. -/
theorem Distinct.normalize (hd : d.Distinct) (hn : d.normalize = .ok d') :
    (∀ q ∈ d'.components.schemas, (Table.keys (q.2.properties.getD [])).Nodup) ∧
      ∀ s ∈ d'.bodies, (Table.keys (s.properties.getD [])).Nodup := by
  obtain ⟨h, hg, rfl⟩ := hoist_settles hd.components (normalize_eq_ok.mp hn).1
  constructor
  · intro q hq
    obtain ⟨x, hx, rfl⟩ := List.mem_map.mp hq
    exact (hg.distinct hd hx).settle_nodup h.entryOf
  · intro s hs
    rw [bodies_settle] at hs
    obtain ⟨x, hx, rfl⟩ := List.mem_map.mp hs
    unfold settleBody
    split
    · exact List.nodup_nil
    · cases hd.bodies x hx with
      | intro own => exact own

end Document

end OpenApi
end SdkSmith
