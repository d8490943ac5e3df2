import SdkSmith.Proofs.OpenApi.Hoist.Normal
import SdkSmith.Proofs.OpenApi.References
import SdkSmith.Proofs.Text.Cutting

/-!
Which inline schemas share an entry. A document is read beside its normal form, and every place
where an inline schema stood is taken with what stands there now.
-/
namespace SdkSmith.OpenApi

/-- Each schema with the one in its place. -/
def beside : List Schema → List Schema → List (Schema × Schema)
  | [], _ => []
  | s :: ss, ts => (s, ts.headD .blank) :: beside ss ts.tail

mutual

/-- The inline objects that move out of a schema, each with what is in its place in another. -/
def Schema.sites (p : Place) : Schema → Schema → List (Schema × Schema)
  | ⟨type, reference, title, description, properties, required, items, allOf, format, nullable,
      enumValues, default, origin⟩, t =>
    let s : Schema := ⟨type, reference, title, description, properties, required, items, allOf,
      format, nullable, enumValues, default, origin⟩
    match fate p s with
    | .keep => []
    | .move => [(s, t)]
    | .items => match items with
      | some i => sites .member i (t.items.getD .blank)
      | none => []
    | .visit => (match properties with
      | some ps => sitesOut ps (t.properties.getD [])
      | none => []) ++ (match items with
      | some i => sites .member i (t.items.getD .blank)
      | none => []) ++ (match allOf with
      | some ss => sitesAll ss (t.allOf.getD [])
      | none => [])

/-- The inline objects that move out of properties, each with what is in its place. -/
def Schema.sitesOut : List (String × Schema) → List (String × Schema) → List (Schema × Schema)
  | [], _ => []
  | (_, s) :: ps, qs => sites .member s (qs.headD ("", .blank)).2 ++ sitesOut ps qs.tail

/-- The inline objects that move out of the members of an allOf, each with what is in its place. -/
def Schema.sitesAll : List Schema → List Schema → List (Schema × Schema)
  | [], _ => []
  | s :: ss, ts => sites .entry s (ts.headD .blank) ++ sitesAll ss ts.tail

end

namespace Document

/-- The inline schemas that become entries, each with what is in its place in the normal form: the
bodies, and what is in the entries, those among them that are added on the way. -/
def sites (d d' : Document) (t : Table Schema) : List (Schema × Schema) :=
  (beside d.bodies d'.bodies).filter (·.1.needsName) ++
    (beside (t.map (·.2)) (d'.components.schemas.map (·.2))).flatMap fun x => x.1.sites .entry x.2

/-- The entries of a normal form as they were before anything moved out of them: those of the
document, and one for each name that is given to an inline schema. -/
structure Sources (d d' : Document) (t : Table Schema) : Prop where
  keys : Table.keys t = Table.keys d'.components.schemas
  given : d.components.schemas <+: t
  added : ∀ p ∈ t.drop d.components.schemas.length, ∃ x ∈ d.sites d' t,
    x.2.target? = some p.1 ∧ ∃ origin, p.2 = { x.1 with origin := origin }

end Document

variable {f : Signature → String} {p : Place} {s t : Schema} {d d' : Document} {name : String}

theorem targetOf_schemaRef (name : String) : targetOf (schemaPrefix ++ name) = name := by
  have hname : Text.afterLead? schemaPrefix (schemaPrefix ++ name) = some name :=
    Text.afterLead?_eq_some.mpr rfl
  rw [targetOf, hname, Option.getD_some]

theorem target?_refTo (name : String) : (Schema.refTo name).target? = some name :=
  congrArg some (targetOf_schemaRef name)

theorem target?_standIn (s : Schema) (name : String) : (standIn s name).target? = some name :=
  congrArg some (targetOf_schemaRef name)

theorem beside_map {g : Schema → Schema} (ss : List Schema) :
    beside ss (ss.map g) = ss.map fun s => (s, g s) := by
  induction ss with
  | nil => rfl
  | cons s ss ih => simp [beside, ih]

namespace Schema

theorem sites_eq : s.sites p t = match fate p s with
    | .keep => []
    | .move => [(s, t)]
    | .items => s.items.elim [] fun i => i.sites .member (t.items.getD .blank)
    | .visit => s.properties.elim [] (sitesOut · (t.properties.getD [])) ++
        s.items.elim [] (fun i => i.sites .member (t.items.getD .blank)) ++
        s.allOf.elim [] (sitesAll · (t.allOf.getD [])) := by
  obtain ⟨_, _, _, _, properties, _, items, allOf, _⟩ := s
  rw [sites.eq_def]
  cases properties <;> cases items <;> cases allOf <;> rfl

theorem sitesOut_settle {ps : List (String × Schema)} (h : ∀ p ∈ ps,
    p.2.sites .member (p.2.settle f .member) =
      (p.2.moved .member).map fun x => (x, standIn x (f x.signature))) :
    sitesOut ps (settleOut f ps) = (movedOut ps).map fun x => (x, standIn x (f x.signature)) := by
  induction ps with
  | nil => rfl
  | cons p ps ih =>
    have hp := h p List.mem_cons_self
    have hps := ih fun q hq => h q (List.mem_cons_of_mem _ hq)
    simp [sitesOut, settleOut, movedOut, hp, hps]

theorem sitesAll_settle {ss : List Schema} (h : ∀ s ∈ ss, s.sites .entry (s.settle f .entry) =
    (s.moved .entry).map fun x => (x, standIn x (f x.signature))) :
    sitesAll ss (settleAll f ss) = (movedAll ss).map fun x => (x, standIn x (f x.signature)) := by
  induction ss with
  | nil => rfl
  | cons s ss ih =>
    have hs := h s List.mem_cons_self
    have hss := ih fun x hx => h x (List.mem_cons_of_mem _ hx)
    simp [sitesAll, settleAll, movedAll, hs, hss]

/-- In the place of what moves out of a schema stands a reference to its entry. -/
theorem sites_settle (s : Schema) (p : Place) :
    s.sites p (s.settle f p) = (s.moved p).map fun x => (x, standIn x (f x.signature)) := by
  induction s using tree_induction generalizing p with
  | step s properties items members =>
    have hps : (s.properties.elim [] fun ps => sitesOut ps ((s.properties.map (settleOut f)).getD
        [])) = (s.properties.elim [] movedOut).map fun x => (x, standIn x (f x.signature)) := by
      cases hps : s.properties with
      | none => rfl
      | some ps => exact sitesOut_settle fun p hp => properties ps hps p hp .member
    have hi : (s.items.elim [] fun i => i.sites .member ((s.items.map (settle f .member)).getD
        .blank)) = (s.items.elim [] (moved .member)).map fun x =>
          (x, standIn x (f x.signature)) := by
      cases hi : s.items with
      | none => rfl
      | some i => exact items i hi .member
    have hss : (s.allOf.elim [] fun ss => sitesAll ss ((s.allOf.map (settleAll f)).getD [])) =
        (s.allOf.elim [] movedAll).map fun x => (x, standIn x (f x.signature)) := by
      cases hss : s.allOf with
      | none => rfl
      | some ss => exact sitesAll_settle fun x hx => members ss hss x hx .entry
    rw [sites_eq, moved_eq, settle_eq]
    cases hf : fate p s with
    | keep => rfl
    | move => rfl
    | items => exact hi
    | visit =>
      simp only [inside, settleInside, List.map_append, hps, hi, hss]

theorem layer_settle (f : Signature → String) (s : Schema) :
    (s.settle f .entry).layer = s.layer := by
  have hkeys : Table.keys ((s.properties.map (settleOut f)).getD []) =
      Table.keys (s.properties.getD []) := by
    cases s.properties with
    | none => rfl
    | some ps => simp [settleOut_eq, Table.keys]
  have htype : (s.properties.map (settleOut f)).map (fun _ => "object") =
      s.properties.map fun _ => "object" := by
    cases s.properties <;> rfl
  rw [settle_entry]
  simp only [layer, settleInside, hkeys, htype]
  rfl

theorem layer_of_signature (h : s.signature = t.signature) : s.layer = t.layer := by
  rw [signature_eq, signature_eq] at h
  exact (List.cons.inj h).1

theorem mem_layer_properties :
    name ∈ s.layer.properties ↔ name ∈ Table.keys (s.properties.getD []) :=
  List.mem_mergeSort

end Schema

namespace Document

theorem sites_settle {t : Table Schema} : d.sites (d.settle f t) t =
    (d.bodies.filter (·.needsName)).map (fun s => (s, Schema.refTo (f s.signature))) ++
      (movedEntries t).map fun s => (s, standIn s (f s.signature)) := by
  have htable : (settleEntries f t).map (·.2) = (t.map (·.2)).map (Schema.settle f .entry) := by
    simp [settleEntries]
  have hentries : (d.settle f t).components.schemas = settleEntries f t := rfl
  rw [sites, bodies_settle, hentries, htable, beside_map, beside_map, List.filter_map]
  congr 1
  · refine List.map_congr_left fun s hs => ?_
    have hneeds : s.needsName = true := (List.mem_filter.mp hs).2
    rw [settleBody, if_pos hneeds]
  · simp only [movedEntries, List.flatMap_map, List.map_flatMap, Schema.sites_settle]

theorem mem_sites_settle {t : Table Schema} {x : Schema × Schema}
    (hx : x ∈ d.sites (d.settle f t) t) :
    x.1 ∈ d.moved t ∧ x.2.target? = some (f x.1.signature) := by
  rw [sites_settle] at hx
  rcases List.mem_append.mp hx with hx | hx
  · obtain ⟨s, hs, rfl⟩ := List.mem_map.mp hx
    exact ⟨List.mem_append_left _ hs, target?_refTo _⟩
  · obtain ⟨s, hs, rfl⟩ := List.mem_map.mp hx
    exact ⟨List.mem_append_right _ hs, target?_standIn s _⟩

theorem exists_site {t : Table Schema} (hs : s ∈ d.moved t) :
    ∃ x ∈ d.sites (d.settle f t) t, x.1 = s := by
  rw [sites_settle]
  rcases List.mem_append.mp hs with hs | hs
  · exact ⟨_, List.mem_append_left _ (List.mem_map_of_mem hs), rfl⟩
  · exact ⟨_, List.mem_append_right _ (List.mem_map_of_mem hs), rfl⟩

/-- A hoard that a run ends with holds the sources of the normal form. -/
theorem Gathers.sources {h : Hoard} (hg : d.Gathers h) :
    d.Sources (d.settle h.entryOf h.table) h.table := by
  obtain ⟨new, htable, hnew, -⟩ := Hoard.Adds.appends hg
  have htable : h.table = d.components.schemas ++ new := htable
  refine ⟨(keys_settleEntries).symm, htable ▸ List.prefix_append _ _, ?_⟩
  intro p hp
  rw [htable, List.drop_left] at hp
  obtain ⟨s, hs, hname, horigin⟩ := hnew p hp
  obtain ⟨x, hx, rfl⟩ := exists_site (f := h.entryOf) hs
  have hentry := Hoard.entryOf_of_lookup hname
  exact ⟨x, hx, hentry ▸ (mem_sites_settle hx).2, horigin⟩

/-- Inline schemas share an entry exactly if their signatures are equal, and the entry has the type,
the property names and the description of each of them. A type that is not written counts as that of
an object where properties are. -/
theorem normalize_shares (hk : (Table.keys d.components.schemas).Nodup)
    (hd : d.normalize = .ok d') : ∃ t, d.Sources d' t ∧
      (∀ x ∈ d.sites d' t, ∀ y ∈ d.sites d' t,
        x.2.target? = y.2.target? ↔ x.1.signature = y.1.signature) ∧
      ∀ x ∈ d.sites d' t, ∃ name e, x.2.target? = some name ∧
        Table.find? name d'.components.schemas = some e ∧ e.layer.type = x.1.layer.type ∧
        (∀ n, n ∈ Table.keys (e.properties.getD []) ↔
          n ∈ Table.keys (x.1.properties.getD [])) ∧
        e.description = x.1.description := by
  obtain ⟨h, hg, rfl⟩ := hoist_settles hk (normalize_eq_ok.mp hd).1
  have hsound : h.Sound := Hoard.Adds.sound hg (Hoard.sound_ofTable hk)
  have hentry {x} (hx : x ∈ d.sites (d.settle h.entryOf h.table) h.table) :=
    hg.entry hk (mem_sites_settle hx).1
  refine ⟨h.table, hg.sources, fun x hx y hy => ?_, fun x hx => ?_⟩
  · rw [(mem_sites_settle hx).2, (mem_sites_settle hy).2, Option.some.injEq]
    constructor
    · intro heq
      exact hsound.entryOf_inj (heq ▸ (hentry hx).1) (hentry hy).1
    · intro heq
      rw [heq]
  · obtain ⟨-, e, he, hsig⟩ := hentry hx
    have hlayer : (e.settle h.entryOf .entry).layer = x.1.layer :=
      (Schema.layer_settle _ e).trans (Schema.layer_of_signature hsig)
    have hfind : Table.find? (h.entryOf x.1.signature) (settleEntries h.entryOf h.table) =
        some (e.settle h.entryOf .entry) := by
      rw [find?_settleEntries, he, Option.map_some]
    refine ⟨_, _, (mem_sites_settle hx).2, hfind, congrArg Layer.type hlayer, fun n => ?_,
      congrArg Layer.description hlayer⟩
    rw [← Schema.mem_layer_properties, hlayer, Schema.mem_layer_properties]

/-- Two components with objects of one signature in them, and a body of another. -/
def twins : Document :=
  posting [("Left", .objectOf [("end", .objectOf [("at", .text)])]),
    ("Right", .objectOf [("end", .objectOf [("at", .refTo "Left")])])]
    (.objectOf [("span", .refTo "Right")])

theorem normalize_twins_shares : (Table.keys twins.components.schemas).Nodup ∧
    ∃ d', twins.normalize = .ok d' ∧
      Table.keys d'.components.schemas = ["Left", "Right", "CreateRequest", "LeftEnd"] ∧
      ∃ t, twins.Sources d' t ∧
        (∀ x ∈ twins.sites d' t, ∀ y ∈ twins.sites d' t,
          x.2.target? = y.2.target? ↔ x.1.signature = y.1.signature) ∧
        ∀ x ∈ twins.sites d' t, ∃ name e, x.2.target? = some name ∧
          Table.find? name d'.components.schemas = some e ∧ e.layer.type = x.1.layer.type ∧
          (∀ n, n ∈ Table.keys (e.properties.getD []) ↔
            n ∈ Table.keys (x.1.properties.getD [])) ∧
          e.description = x.1.description := by
  have hk : (Table.keys twins.components.schemas).Nodup := by decide
  have h : twins.normalize.toOption.map (Table.keys ·.components.schemas) =
      some ["Left", "Right", "CreateRequest", "LeftEnd"] := by decide +kernel
  obtain ⟨d', hd, hkeys⟩ := toOption_map_eq_some.mp h
  exact ⟨hk, d', hd, hkeys, normalize_shares hk hd⟩

/-- A component that is written as an object, and a body with its properties and no type. -/
def untypedBody : Document :=
  posting [("A", .objectOf [("a", .text)])] { Schema.blank with properties := some [("a", .text)] }

/-- The types that are written may differ. -/
theorem normalize_untypedBody : ¬ ∀ (d d' : Document) (t : Table Schema),
    (Table.keys d.components.schemas).Nodup → d.normalize = .ok d' → d.Sources d' t →
      ∀ x ∈ d.sites d' t, ∀ name e, x.2.target? = some name →
        Table.find? name d'.components.schemas = some e → e.primaryType? = x.1.primaryType? := by
  intro hall
  have h : untypedBody.normalize.toOption.map (fun d' => (Table.keys d'.components.schemas,
      (untypedBody.sites d' untypedBody.components.schemas).map fun x =>
        (x.1.primaryType?, x.2.target?, x.2.target?.bind fun name =>
          (Table.find? name d'.components.schemas).map (·.primaryType?)))) =
      some (["A"], [(none, some "A", some (some "object"))]) := by decide +kernel
  obtain ⟨d', hd, hp⟩ := toOption_map_eq_some.mp h
  obtain ⟨hkeys, hsites⟩ := Prod.mk.inj hp
  have hsources : untypedBody.Sources d' untypedBody.components.schemas := by
    refine ⟨hkeys.symm, List.prefix_rfl, ?_⟩
    rintro p ⟨⟩
  obtain ⟨x, hx, hvals⟩ : ∃ x ∈ untypedBody.sites d' untypedBody.components.schemas,
      (x.1.primaryType?, x.2.target?, x.2.target?.bind fun name =>
        (Table.find? name d'.components.schemas).map (·.primaryType?)) =
      (none, some "A", some (some "object")) := by
    rw [← List.mem_map, hsites]
    exact List.mem_singleton_self _
  simp only [Prod.mk.injEq] at hvals
  obtain ⟨htype, htarget, hentry⟩ := hvals
  rw [htarget, Option.bind_some] at hentry
  obtain ⟨e, he, hobject⟩ := Option.map_eq_some_iff.mp hentry
  have := hall _ _ _ (by decide) hd hsources x hx _ e htarget he
  rw [htype, hobject] at this
  cases this

end Document
end SdkSmith.OpenApi
