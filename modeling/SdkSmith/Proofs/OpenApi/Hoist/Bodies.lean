import SdkSmith.Proofs.OpenApi.Hoist.Walk

/-!
What hoisting does to the bodies of a document, given the entry of each signature: the schema of a
body becomes a reference if it needs a name, and everything else is left.
-/
namespace SdkSmith.OpenApi

/-- A body's schema, or a reference to its entry if it needs a name. -/
def settleBody (f : Signature → String) (s : Schema) : Schema :=
  if s.needsName then Schema.refTo (f s.signature) else s

/-- The content of a body with its schema settled. -/
def settleContent (f : Signature → String) (content : Table MediaType) : Table MediaType :=
  match bodySchema? content with
  | some s => withBodySchema content (settleBody f s)
  | none => content

namespace Operation

/-- An operation with its bodies settled. -/
def settle (f : Signature → String) (o : Operation) : Operation :=
  { o with
    requestBody := o.requestBody.map fun b => { b with content := settleContent f b.content }
    responses := o.responses.map fun r =>
      (r.1, { r.2 with content := settleContent f r.2.content }) }

/-- The schemas of the bodies, the request's first. -/
def bodies (o : Operation) : List Schema :=
  (o.requestBody.bind fun b => bodySchema? b.content).toList ++
    o.responses.filterMap fun r => bodySchema? r.2.content

end Operation

namespace PathItem

/-- A path item with the bodies of its operations settled. -/
def settle (f : Signature → String) (p : PathItem) : PathItem :=
  ⟨p.get.map (·.settle f), p.put.map (·.settle f), p.post.map (·.settle f),
    p.delete.map (·.settle f), p.options.map (·.settle f), p.head.map (·.settle f),
    p.patch.map (·.settle f), p.trace.map (·.settle f), p.parameters⟩

/-- The schemas of the bodies, operation by operation. -/
def bodies (p : PathItem) : List Schema :=
  p.operations.flatMap (·.2.bodies)

end PathItem

namespace Document

/-- The schemas of the bodies, operation by operation. -/
def bodies (d : Document) : List Schema :=
  (d.paths.getD []).flatMap (·.2.bodies)

/-- A document with its bodies settled and a table of settled entries. -/
def settle (f : Signature → String) (t : Table Schema) (d : Document) : Document :=
  { d with
    paths := d.paths.map fun ps => ps.map fun p => (p.1, p.2.settle f)
    components := { d.components with schemas := settleEntries f t } }

end Document

variable {f : Signature → String} {s s' : Schema} {o : Operation} {p : PathItem} {d : Document}
  {content : Table MediaType}

theorem needsName_settleBody (f : Signature → String) (s : Schema) :
    (settleBody f s).needsName = false := by
  unfold settleBody
  split
  · rw [Schema.needsName, Schema.isArrayOfInlineObjects_eq]
    rfl
  · exact Bool.eq_false_iff.mpr ‹_›

theorem settleBody_eq_self : settleBody f s = s ↔ s.needsName = false := by
  constructor
  · intro h
    rw [← h]
    exact needsName_settleBody f s
  · intro h
    rw [settleBody, h, if_neg Bool.false_ne_true]

theorem jsonType?_mem {mime : String} (h : jsonType? content = some mime) :
    mime ∈ Table.keys content := by
  rcases Option.or_eq_some_iff.mp h with hjson | ⟨-, hfirst⟩
  · exact List.mem_of_find?_eq_some hjson
  · exact List.mem_of_head? hfirst

theorem bodySchema?_withBodySchema (h : bodySchema? content = some s') (s : Schema) :
    bodySchema? (withBodySchema content s) = some s := by
  unfold bodySchema? withBodySchema at *
  cases hm : jsonType? content with
  | none => simp [hm] at h
  | some mime =>
    have hkeys := Table.keys_put (v := (⟨some s⟩ : MediaType)) (jsonType?_mem hm)
    have htype : jsonType? (Table.put mime ⟨some s⟩ content) = some mime := by
      rw [← hm, jsonType?, jsonType?, hkeys]
    simp [htype, Table.find?_put]

theorem withBodySchema_self (h : bodySchema? content = some s) :
    withBodySchema content s = content := by
  unfold bodySchema? withBodySchema at *
  cases hm : jsonType? content with
  | none => rfl
  | some mime =>
    simp only [hm, Option.bind_some] at h
    obtain ⟨⟨_⟩, hmedia, rfl⟩ := Option.bind_eq_some_iff.mp h
    exact Table.put_of_find? hmedia

theorem bodySchema?_settleContent :
    bodySchema? (settleContent f content) = (bodySchema? content).map (settleBody f) := by
  unfold settleContent
  cases h : bodySchema? content with
  | none => exact h
  | some s => exact bodySchema?_withBodySchema h _

theorem settleContent_self (h : ∀ s, bodySchema? content = some s → s.needsName = false) :
    settleContent f content = content := by
  unfold settleContent
  split
  · rw [settleBody_eq_self.mpr (h _ ‹_›)]
    exact withBodySchema_self ‹_›
  · rfl

theorem Operation.requestSchema?_settle :
    (o.settle f).requestSchema? = o.requestSchema?.map (settleBody f) := by
  unfold requestSchema? settle
  cases o.requestBody with
  | none => rfl
  | some b => exact bodySchema?_settleContent

theorem Operation.bodies_settle : (o.settle f).bodies = o.bodies.map (settleBody f) := by
  have hrequest := o.requestSchema?_settle (f := f)
  unfold requestSchema? at hrequest
  rw [bodies, bodies, hrequest, List.map_append]
  congr 1
  · cases o.requestBody.bind fun b => bodySchema? b.content <;> rfl
  · simp only [settle, List.filterMap_map, List.map_filterMap]
    congr 1
    funext r
    exact bodySchema?_settleContent

theorem Operation.settle_self (h : ∀ s ∈ o.bodies, s.needsName = false) : o.settle f = o := by
  have hbody : (o.requestBody.map fun b => { b with content := settleContent f b.content }) =
      o.requestBody := by
    cases hb : o.requestBody with
    | none => rfl
    | some b =>
      rw [Option.map_some, settleContent_self fun s hs => h s (by simp [bodies, hb, hs])]
  have hresponses : (o.responses.map fun r =>
      (r.1, { r.2 with content := settleContent f r.2.content })) = o.responses := by
    refine map_eq_self.mpr fun r hr => ?_
    have hmem {s} (hs : bodySchema? r.2.content = some s) : s ∈ o.bodies :=
      List.mem_append_right _ (List.mem_filterMap.mpr ⟨r, hr, hs⟩)
    rw [settleContent_self fun s hs => h s (hmem hs)]
  rw [settle, hbody, hresponses]

namespace PathItem

theorem operations_settle :
    (p.settle f).operations = p.operations.map fun x => (x.1, x.2.settle f) := by
  have hmap (l : List (Api.HttpMethod × Option Operation)) :
      (l.map fun x => (x.1, x.2.map (·.settle f))).filterMap
        (fun x => x.2.map fun o => (x.1, o)) =
        (l.filterMap fun x => x.2.map fun o => (x.1, o)).map fun x => (x.1, x.2.settle f) := by
    rw [List.filterMap_map, List.map_filterMap]
    congr 1
    funext x
    obtain ⟨m, o⟩ := x
    cases o <;> rfl
  exact hmap [(.get, p.get), (.put, p.put), (.post, p.post), (.delete, p.delete),
    (.options, p.options), (.head, p.head), (.patch, p.patch), (.trace, p.trace)]

theorem bodies_settle : (p.settle f).bodies = p.bodies.map (settleBody f) := by
  rw [bodies, operations_settle, bodies, List.flatMap_map, List.map_flatMap]
  congr 1
  funext x
  exact x.2.bodies_settle

theorem bodies_eq (p : PathItem) : p.bodies = [p.get, p.put, p.post, p.delete, p.options, p.head,
    p.patch, p.trace].flatMap (·.elim [] Operation.bodies) := by
  have hflat (l : List (Api.HttpMethod × Option Operation)) :
      (l.filterMap fun x => x.2.map fun o => (x.1, o)).flatMap (·.2.bodies) =
        l.flatMap (·.2.elim [] Operation.bodies) := by
    induction l with
    | nil => rfl
    | cons x l ih =>
      obtain ⟨m, o⟩ := x
      cases o <;> simp [ih]
  rw [bodies, operations, hflat]
  rfl

theorem settle_self (h : ∀ s ∈ p.bodies, s.needsName = false) : p.settle f = p := by
  have hmem {o? : Option Operation} (ho : o? ∈ [p.get, p.put, p.post, p.delete, p.options,
      p.head, p.patch, p.trace]) : o?.map (·.settle f) = o? := by
    cases o? with
    | none => rfl
    | some o =>
      rw [Option.map_some, o.settle_self fun s hs => h s ?_]
      rw [bodies_eq]
      exact List.mem_flatMap.mpr ⟨some o, ho, hs⟩
  simp [settle, hmem]

end PathItem

namespace Document

theorem bodies_settle {t : Table Schema} :
    (d.settle f t).bodies = d.bodies.map (settleBody f) := by
  unfold bodies settle
  cases d.paths with
  | none => rfl
  | some ps =>
    simp only [Option.map_some, Option.getD_some, List.flatMap_map, List.map_flatMap]
    congr 1
    funext x
    exact x.2.bodies_settle

theorem operations_settle {t : Table Schema} : (d.settle f t).operations =
    d.operations.map fun x => (x.1, x.2.1.settle f, x.2.2.1, x.2.2.2.settle f) := by
  unfold operations settle
  cases d.paths with
  | none => rfl
  | some ps =>
    simp only [Option.map_some, Option.getD_some, List.flatMap_map, List.map_flatMap,
      PathItem.operations_settle, List.map_map]
    rfl

theorem mem_bodies {path : String} {m : Api.HttpMethod} (ho : (path, p, m, o) ∈ d.operations)
    (hs : s ∈ o.bodies) : s ∈ d.bodies := by
  obtain ⟨q, hq, ho⟩ := List.mem_flatMap.mp ho
  obtain ⟨x, hx, heq⟩ := List.mem_map.mp ho
  cases heq
  exact List.mem_flatMap.mpr ⟨q, hq, List.mem_flatMap.mpr ⟨x, hx, hs⟩⟩

theorem settle_self (hbodies : ∀ s ∈ d.bodies, s.needsName = false)
    (htable : movedEntries d.components.schemas = []) :
    d.settle f d.components.schemas = d := by
  have hpaths : (d.paths.map fun ps => ps.map fun p => (p.1, p.2.settle f)) = d.paths := by
    cases hps : d.paths with
    | none => rfl
    | some ps =>
      refine congrArg some (map_eq_self.mpr fun p hp => ?_)
      have hmem {s} (hs : s ∈ p.2.bodies) : s ∈ d.bodies := by
        rw [bodies, hps]
        exact List.mem_flatMap.mpr ⟨p, hp, hs⟩
      rw [p.2.settle_self fun s hs => hbodies s (hmem hs)]
  rw [settle, hpaths, settleEntries_eq_self.mpr htable]

end Document

end SdkSmith.OpenApi
