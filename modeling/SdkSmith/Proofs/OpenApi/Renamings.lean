import SdkSmith.Proofs.OpenApi.BodyFields
import SdkSmith.Proofs.OpenApi.Merge.Inheritance

/-!
Entries that are nothing but a reference to another entry. A body or a member of an allOf is
followed to the entry that it refers to and no further, so the end of a chain of such entries is
not reached: the body becomes one parameter, and the member adds nothing.
-/
namespace SdkSmith.OpenApi

/-- Whether an entry is nothing but a reference to another. -/
def Renames (table : Table Schema) (n t : String) : Prop :=
  ∃ r, Table.find? n table = some { Schema.blank with reference := some r } ∧ targetOf r = t

/-- Whether a chain of such entries leads to one that is more than a reference. -/
structure LeadsTo (table : Table Schema) (n last : String) : Prop where
  chain : Relation.ReflTransGen (Renames table) n last
  ends : ∀ t, ¬ Renames table last t

/-- Members of an allOf in other words: a reference may be spelled as one to its target, a member
that refers to a renamed entry may be left out, and so in the allOf of a member. -/
inductive Restates (table : Table Schema) : List Schema → List Schema → Prop
  | nil : Restates table [] []
  | keep {s : Schema} {l l' : List Schema} (rest : Restates table l l') :
      Restates table (s :: l) (s :: l')
  | direct {s : Schema} {n : String} {l l' : List Schema} (hs : s.target? = some n)
      (rest : Restates table l l') : Restates table (s :: l) (.refTo n :: l')
  | drop {s : Schema} {n t : String} {l l' : List Schema} (hs : s.target? = some n)
      (hn : Renames table n t) (rest : Restates table l l') : Restates table (s :: l) l'
  | inside {s : Schema} {ss ss' l l' : List Schema} (hr : s.reference = none)
      (hss : s.allOf = some ss) (inner : Restates table ss ss') (rest : Restates table l l') :
      Restates table (s :: l) ({ s with allOf := some ss' } :: l')

/-- Whether two merges have gathered the same, and have been through the same entries that are more
than a reference. -/
structure Merge.Same (table : Table Schema) (m m' : Merge) : Prop where
  properties : m.properties = m'.properties
  required : m.required = m'.required
  visited : ∀ n, (∀ t, ¬ Renames table n t) → (n ∈ m.visited ↔ n ∈ m'.visited)

variable {table table' : Table Schema} {follow : Follow} {m m' m'' : Merge} {s : Schema}
  {l l' : List Schema} {n t last name : String} {fuel i : Nat} {d d' : Document}

theorem LeadsTo.eq_or (h : LeadsTo table n last) : n = last ∨ ∃ t, Renames table n t := by
  rcases Relation.ReflTransGen.cases_head h.chain with rfl | ⟨t, ht, -⟩
  · exact Or.inl rfl
  · exact Or.inr ⟨t, ht⟩

/-! Merging -/

namespace Merge.Same

theorem refl (m : Merge) : Same table m m :=
  ⟨rfl, rfl, fun _ _ => Iff.rfl⟩

theorem symm (h : Same table m m') : Same table m' m :=
  ⟨h.properties.symm, h.required.symm, fun n hn => (h.visited n hn).symm⟩

theorem trans (h : Same table m m') (h' : Same table m' m'') : Same table m m'' :=
  ⟨h.properties.trans h'.properties, h.required.trans h'.required,
    fun n hn => (h.visited n hn).trans (h'.visited n hn)⟩

theorem own (s : Schema) (h : Same table m m') :
    Same table (s.own follow m) (s.own follow m') := by
  refine ⟨?_, ?_, h.visited⟩
  · rw [Schema.own, Schema.own, add, add, h.properties]
  · rw [Schema.own, Schema.own, add, add, h.required]

theorem visit (n : String) (h : Same table m m') :
    Same table { m with visited := n :: m.visited } { m' with visited := n :: m'.visited } := by
  refine ⟨h.properties, h.required, fun k hk => ?_⟩
  rw [List.mem_cons, List.mem_cons, h.visited k hk]

end Merge.Same

/-- Following a renamed entry adds nothing. -/
theorem followIn_renamed (hn : Renames table n t) (fuel : Nat) (m : Merge) :
    Merge.Same table (followIn table fuel n m) m := by
  cases fuel with
  | zero => exact .refl m
  | succ fuel =>
    obtain ⟨r, hfind, -⟩ := id hn
    unfold followIn
    simp only [hfind]
    split
    · exact .refl m
    · refine ⟨rfl, rfl, fun k hk => List.mem_cons.trans ⟨fun h => h.resolve_left ?_, Or.inr⟩⟩
      rintro rfl
      exact hk t hn

theorem gather_of_target (hs : s.target? = some n) : gather follow s m = follow n m := by
  obtain ⟨r, hr, rfl⟩ := Option.map_eq_some_iff.mp hs
  rw [gather_eq, hr]

section
variable (hf : ∀ n m m', Merge.Same table m m' → Merge.Same table (follow n m) (follow n m'))
include hf

theorem gather_same (s : Schema) (h : Merge.Same table m m') :
    Merge.Same table (gather follow s m) (gather follow s m') := by
  induction s using Schema.tree_induction generalizing m m' with
  | step s properties items members =>
    rw [gather_eq, gather_eq]
    cases s.reference with
    | some r => exact hf _ m m' h
    | none =>
      refine .own s ?_
      cases hss : s.allOf with
      | none => exact h
      | some ss =>
        rw [Option.elim_some, Option.elim_some, gatherAll_eq, gatherAll_eq]
        exact List.foldl_rel h fun x hx _ _ hm => members ss hss x hx hm

/-- Gathering does not tell members from the same members in other words. -/
theorem gatherAll_same (hn : ∀ n t m, Renames table n t → Merge.Same table (follow n m) m)
    (hl : Restates table l l') (h : Merge.Same table m m') :
    Merge.Same table (gatherAll follow l m) (gatherAll follow l' m') := by
  induction hl generalizing m m' with
  | nil => exact h
  | keep rest ih => exact ih (gather_same hf _ h)
  | direct hs rest ih =>
    refine ih ?_
    rw [gather_of_target hs, gather_of_target (target?_refTo _)]
    exact hf _ m m' h
  | drop hs hrenames rest ih =>
    refine ih ?_
    rw [gather_of_target hs]
    exact (hn _ _ m hrenames).trans h
  | @inside s ss ss' l l' hr hss inner rest ihinner ihrest =>
    refine ihrest ?_
    have hrestated : gather follow { s with allOf := some ss' } m' =
        s.own follow (gatherAll follow ss' m') := gather_of_written hr
    rw [gather_of_written hr, Schema.body, hss, hrestated]
    exact .own s (ihinner h)

end

theorem followIn_same (fuel : Nat) (n : String) (m m' : Merge) (h : Merge.Same table m m') :
    Merge.Same table (followIn table fuel n m) (followIn table fuel n m') := by
  induction fuel generalizing n m m' with
  | zero => exact h
  | succ fuel ih =>
    by_cases hn : ∃ t, Renames table n t
    · obtain ⟨t, ht⟩ := hn
      exact (followIn_renamed ht _ m).trans (h.trans (followIn_renamed ht _ m').symm)
    · unfold followIn
      split
      · exact h
      · have hvisited : m.visited.contains n = m'.visited.contains n := by
          rw [Bool.eq_iff_iff, List.contains_iff_mem, List.contains_iff_mem]
          exact h.visited n (not_exists.mp hn)
        rw [hvisited]
        split
        · exact h
        · exact gather_same ih _ (h.visit n)

/-- An allOf is converted to the same type when its members are restated. -/
theorem convertSchema_restates (hr : s.reference = none) (hl : s.allOf = some l)
    (h : Restates table l l') :
    convertSchema table name s = convertSchema table name { s with allOf := some l' } := by
  have hgather := gatherAll_same (followIn_same table.length)
    (fun _ _ m hn => followIn_renamed hn table.length m) h (.refl .empty)
  have hsame : Merge.Same table (s.own (followIn table table.length) _)
      (s.own (followIn table table.length) _) := hgather.own s
  have hcore : s.core (followIn table table.length) name =
      Schema.core (followIn table table.length) name { s with allOf := some l' } := by
    rw [Schema.core, hl]
    exact congrArg₂ (Api.Schema.object name) hsame.properties hsame.required
  rw [convertSchema, convertSchema, convertWith_eq, convertWith_eq, hr, hcore]
  rfl

/-! Documents -/

/-- Hoisting leaves renamed entries as they are. -/
theorem Renames.settle {h : Hoard} (hg : d.Gathers h) (hn : Renames d.components.schemas n t) :
    Renames (settleEntries h.entryOf h.table) n t := by
  obtain ⟨r, hfind, htarget⟩ := hn
  obtain ⟨new, htable : h.table = d.components.schemas ++ new, -⟩ := Hoard.Adds.appends hg
  refine ⟨r, ?_, htarget⟩
  rw [find?_settleEntries, htable, Table.find?_append_of_some hfind, Option.map_some,
    Schema.settle_entry]
  rfl

theorem Restates.mono (hr : ∀ n t, Renames table n t → Renames table' n t)
    (h : Restates table l l') : Restates table' l l' := by
  induction h with
  | nil => exact .nil
  | keep rest ih => exact .keep ih
  | direct hs rest ih => exact .direct hs ih
  | drop hs hn rest ih => exact .drop hs (hr _ _ hn) ih
  | inside hs hss inner rest ihinner ihrest => exact .inside hs hss ihinner ihrest

theorem settleBody_of_target (hs : s.target? = some n) (f : Signature → String) :
    settleBody f s = s := by
  obtain ⟨r, hr, -⟩ := Option.map_eq_some_iff.mp hs
  rw [settleBody_eq_self, Schema.needsName, Schema.isArrayOfInlineObjects_eq,
    Schema.isInlineObject, hr]
  rfl

/-- A body that refers to an entry has the parameters of this entry, however it is spelled. -/
theorem bodyParameters_of_target (hs : s.target? = some n) (hn : n ∈ Table.keys table) :
    bodyParameters table s = bodyParameters table (.refTo n) := by
  obtain ⟨e, he⟩ := Option.isSome_iff_exists.mp (Table.find?_isSome.mpr hn)
  unfold bodyParameters
  rw [hs, target?_refTo, Option.bind_some, he]
  rfl

/-- A body that refers to a renamed entry has one parameter, of the type that it is renamed to. -/
theorem bodyParameters_of_renamed (hs : s.target? = some n) (hn : Renames table n t) :
    bodyParameters table s = [.plain "data" (.named t)] := by
  obtain ⟨r, he, rfl⟩ := hn
  have hconvert : convertSchema table "data" { Schema.blank with reference := some r } =
      .scalar "data" (.named (targetOf r)) := by
    rw [convertSchema, convertWith_eq]
    rfl
  simp only [bodyParameters, hs, Option.bind_some, he, Option.getD_some, hconvert]
  rfl

/-- References are followed once. A body that leads to an entry by a chain of references has the
parameters of this entry if it refers to it itself; else it has one, of the type that the entry it
refers to is renamed to. Members of an allOf that refer to renamed entries may as well be left
out. -/
theorem describe_followsOnce {a : Api.Description} (hk : (Table.keys d.components.schemas).Nodup)
    (ha : d.describe = .ok a) : ∃ d', d.normalize = .ok d' ∧
      (∀ (i : Nat) path item method o s n last,
        d.operations[i]? = some (path, item, method, o) → o.requestSchema? = some s →
        s.target? = some n → LeadsTo d.components.schemas n last →
        ∃ e, a.endpoints[i]? = some e ∧
          (n = last → e.bodyParameters = bodyParameters d'.components.schemas (.refTo last)) ∧
          (n ≠ last → ∃ t, Renames d.components.schemas n t ∧
            e.bodyParameters = [.plain "data" (.named t)])) ∧
      ∀ name s l l', s.reference = none → s.allOf = some l →
        Restates d.components.schemas l l' →
        convertSchema d'.components.schemas name s =
          convertSchema d'.components.schemas name { s with allOf := some l' } := by
  obtain ⟨d', hd, hbodies⟩ := describe_requestSchema ha
  have hreferences := Document.references (normalize_eq_ok.mp hd).2
  obtain ⟨h, hg, rfl⟩ := Document.hoist_settles hk (normalize_eq_ok.mp hd).1
  have hrenames : ∀ n t, Renames d.components.schemas n t →
      Renames (settleEntries h.entryOf h.table) n t := fun n t hn => hn.settle hg
  refine ⟨_, hd, ?_, fun name s l l' hr hl hl' => ?_⟩
  · intro i path item method o s n last ho hs htarget hlast
    have hop : (d.settle h.entryOf h.table).operations[i]? =
        some (path, item.settle h.entryOf, method, o.settle h.entryOf) := by
      rw [Document.operations_settle, List.getElem?_map, ho]
      rfl
    have hsettled : (o.settle h.entryOf).requestSchema? = some s := by
      rw [Operation.requestSchema?_settle, hs, Option.map_some, settleBody_of_target htarget]
    obtain ⟨e, he, hbody⟩ := hbodies i _ _ _ _ hop
    rw [hsettled] at hbody
    refine ⟨e, he, ?_, fun hne => ?_⟩
    · rintro rfl
      obtain ⟨r, hr, rfl⟩ := Option.map_eq_some_iff.mp htarget
      have hchecked := hreferences.request _ (List.mem_of_getElem? hop) s hsettled
      exact hbody.trans (bodyParameters_of_target htarget (hchecked.target hr))
    · obtain ⟨t, ht⟩ := hlast.eq_or.resolve_left hne
      exact ⟨t, ht, hbody.trans (bodyParameters_of_renamed htarget (hrenames n t ht))⟩
  · exact convertSchema_restates hr hl (hl'.mono hrenames)

/-- An entry with a member that refers to another name for a person. -/
def hire : Schema :=
  { Schema.objectOf [("id", .text)] with allOf := some [.refTo "Someone"] }

/-- A person with a second name, which an entry and the body refer to. -/
def renamed : Document :=
  .posting [("Person", .objectOf [("name", .text)]), ("Someone", .refTo "Person"), ("Hire", hire)]
    (.refTo "Someone")

theorem leadsTo_renamed : LeadsTo renamed.components.schemas "Someone" "Person" := by
  refine ⟨.single ⟨_, rfl, targetOf_schemaRef "Person"⟩, ?_⟩
  rintro t ⟨r, hr, -⟩
  cases congrArg (fun s : Option Schema => s.bind (·.reference)) hr

theorem describe_renamed_followsOnce : (Table.keys renamed.components.schemas).Nodup ∧
    ∃ a d' e t, renamed.describe = .ok a ∧ renamed.normalize = .ok d' ∧
      a.endpoints[0]? = some e ∧ Renames renamed.components.schemas "Someone" t ∧
      e.bodyParameters = [.plain "data" (.named t)] ∧
      convertSchema d'.components.schemas "Hire" hire =
        convertSchema d'.components.schemas "Hire" { hire with allOf := some [] } := by
  have hk : (Table.keys renamed.components.schemas).Nodup := by decide
  have hrun : renamed.describe.toOption.map (fun _ => ()) = some () := by decide +kernel
  obtain ⟨a, ha, -⟩ := toOption_map_eq_some.mp hrun
  obtain ⟨d', hd, hbodies, hmembers⟩ := describe_followsOnce hk ha
  obtain ⟨e, he, -, hbody⟩ :=
    hbodies 0 _ _ _ _ _ _ _ rfl rfl (target?_refTo "Someone") leadsTo_renamed
  obtain ⟨t, ht, hbody⟩ := hbody (by decide)
  exact ⟨hk, a, d', e, t, ha, hd, he, ht, hbody,
    hmembers "Hire" hire _ _ rfl rfl (.drop (target?_refTo "Someone") ht .nil)⟩

/-- Neither the body nor the member gets to the person that the second name stands for. -/
theorem describe_renamed_stops :
    (¬ ∀ (d d' : Document) (a : Api.Description) (i : Nat) (path : String) (item : PathItem)
      (method : Api.HttpMethod) (o : Operation) (s : Schema) (n last : String),
      (Table.keys d.components.schemas).Nodup → d.describe = .ok a → d.normalize = .ok d' →
      d.operations[i]? = some (path, item, method, o) → o.requestSchema? = some s →
      s.target? = some n → LeadsTo d.components.schemas n last →
      ∃ e, a.endpoints[i]? = some e ∧
        e.bodyParameters = bodyParameters d'.components.schemas (.refTo last)) ∧
    ¬ ∀ (d d' : Document) (name : String) (s x : Schema) (front back : List Schema)
      (n last : String), (Table.keys d.components.schemas).Nodup → d.normalize = .ok d' →
      s.reference = none → s.allOf = some (front ++ x :: back) → x.target? = some n →
      LeadsTo d.components.schemas n last →
      (convertSchema d'.components.schemas name s).properties =
        (convertSchema d'.components.schemas name
          { s with allOf := some (front ++ .refTo last :: back) }).properties := by
  have hk : (Table.keys renamed.components.schemas).Nodup := by decide
  constructor
  · intro hall
    have hrun : renamed.describe.toOption.map (fun a =>
        a.endpoints[0]?.map fun e => e.bodyParameters.map (·.name)) = some (some ["data"]) := by
      decide +kernel
    have hlast : renamed.normalize.toOption.map (fun d' =>
        (bodyParameters d'.components.schemas (.refTo "Person")).map (·.name)) =
        some ["name"] := by decide +kernel
    obtain ⟨a, ha, hnames⟩ := toOption_map_eq_some.mp hrun
    obtain ⟨d', hd, hname⟩ := toOption_map_eq_some.mp hlast
    obtain ⟨e, he, hbody⟩ :=
      hall _ d' a 0 _ _ _ _ _ _ _ hk ha hd rfl rfl (target?_refTo "Someone") leadsTo_renamed
    rw [he, Option.map_some, hbody, hname] at hnames
    simp at hnames
  · intro hall
    have hrun : renamed.normalize.toOption.map (fun d' =>
        (Table.keys (convertSchema d'.components.schemas "Hire" hire).properties,
          Table.keys (convertSchema d'.components.schemas "Hire"
            { hire with allOf := some [.refTo "Person"] }).properties)) =
        some (["id"], ["name", "id"]) := by decide +kernel
    obtain ⟨d', hd, hkeys⟩ := toOption_map_eq_some.mp hrun
    have hsame := hall _ d' "Hire" hire _ [] [] _ _ hk hd rfl rfl (target?_refTo "Someone")
      leadsTo_renamed
    rw [hsame] at hkeys
    exact absurd ((Prod.mk.inj hkeys).1.symm.trans (Prod.mk.inj hkeys).2) (by decide)

end SdkSmith.OpenApi
