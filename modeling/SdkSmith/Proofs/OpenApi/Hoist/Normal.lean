import SdkSmith.Proofs.OpenApi.Hoist.Bodies

/-!
What hoisting does to a document: the bodies and the entries of the table are settled by the
entries of one last hoard, which holds every schema as it was before its own members moved.
-/
namespace SdkSmith.OpenApi

namespace Document

/-- What a document registers, given the entries that the walk of the table meets. -/
def moved (d : Document) (t : Table Schema) : List Schema :=
  d.bodies.filter (·.needsName) ++ movedEntries t

/-- A hoard that a run on the document ends with. -/
def Gathers (d : Document) (h : Hoard) : Prop :=
  (Hoard.ofTable d.components.schemas).Adds (d.moved h.table) h

end Document

variable {d d' : Document}

theorem hoistBody_settles (s : Schema) (base : Option String) (word : String) (origin : Origin)
    (location : String) : Settles (hoistBody s base word origin location)
      ([s].filter (·.needsName)) fun f => settleBody f s := by
  cases hs : s.needsName with
  | false => simpa [hoistBody, settleBody, hs] using Settles.pure s
  | true =>
    have hname (name : String) : Settles (Schema.refTo <$> register name s (some origin)) [s]
        fun f => Schema.refTo (f s.signature) := (register_settles name s).map Schema.refTo
    simp only [hoistBody, settleBody, hs, List.filter_cons_of_pos, List.filter_nil, if_true]
    cases s.titleName? with
    | some title => simpa using hname title
    | none => cases base with
      | some base => simpa using hname (Naming.studlyCase (base ++ " " ++ word))
      | none => exact .fail _

theorem hoistContent_settles (content : Table MediaType) (base : Option String) (word : String)
    (origin : Origin) (location : String) :
    Settles (hoistContent content base word origin location)
      ((bodySchema? content).toList.filter (·.needsName)) fun f => settleContent f content := by
  unfold hoistContent settleContent
  cases bodySchema? content with
  | none => exact .pure content
  | some s => exact (hoistBody_settles s base word origin location).map (withBodySchema content)

theorem hoistResponses_settles (base : Option String) (location : String)
    (rs : Table Response) : Settles (hoistResponses base location rs)
    ((rs.filterMap fun r => bodySchema? r.2.content).filter (·.needsName)) fun f =>
      rs.map fun r => (r.1, { r.2 with content := settleContent f r.2.content }) := by
  induction rs with
  | nil => exact .pure []
  | cons r rs ih =>
    have hr := hoistContent_settles r.2.content base "Response" .response
      (location ++ " response " ++ r.1)
    have hsplit : (r :: rs).filterMap (fun r => bodySchema? r.2.content) =
        (bodySchema? r.2.content).toList ++ rs.filterMap fun r => bodySchema? r.2.content := by
      cases h : bodySchema? r.2.content <;> simp [h]
    rw [hsplit, List.filter_append]
    exact hr.bind fun content => ih.map fun rs => (r.1, { r.2 with content := content }) :: rs

theorem hoistOperation_settles (path method : String) (o : Operation) :
    Settles (hoistOperation path method o) (o.bodies.filter (·.needsName)) (o.settle ·) := by
  have hrun : hoistOperation path method o = (do
      let body ← o.requestBody.mapM fun b => do
        let content ← hoistContent b.content o.baseName? "Request" .request (method ++ " " ++ path)
        return { b with content := content }
      let responses ← hoistResponses o.baseName? (method ++ " " ++ path) o.responses
      return { o with requestBody := body, responses := responses }) := by
    rw [hoistOperation]
    cases o.requestBody with
    | none => rfl
    | some b => simp
  have hbody := Settles.option o.requestBody fun b _ => (hoistContent_settles b.content
    o.baseName? "Request" .request (method ++ " " ++ path)).map fun content =>
      { b with content := content }
  have hresponses := hoistResponses_settles o.baseName? (method ++ " " ++ path) o.responses
  have hsplit : o.bodies.filter (·.needsName) =
      (o.requestBody.elim [] fun b => (bodySchema? b.content).toList.filter (·.needsName)) ++
        (o.responses.filterMap fun r => bodySchema? r.2.content).filter (·.needsName) := by
    rw [Operation.bodies, List.filter_append]
    cases o.requestBody <;> rfl
  rw [hrun, hsplit]
  exact hbody.bind fun body => hresponses.map fun responses =>
    { o with requestBody := body, responses := responses }

theorem hoistOperation?_settles (path method : String) (o? : Option Operation) :
    Settles (hoistOperation? path method o?)
      ((o?.elim [] Operation.bodies).filter (·.needsName)) fun f => o?.map (·.settle f) := by
  cases o? with
  | none => exact .pure none
  | some o => exact (hoistOperation_settles path method o).map some

theorem hoistPath_settles (path : String) (p : PathItem) : Settles (hoistPath path p)
    (p.bodies.filter (·.needsName)) (p.settle ·) := by
  have h := hoistOperation?_settles path
  have htrace (get put post delete options head patch) := (h "TRACE" p.trace).bind fun trace =>
    .pure (PathItem.mk get put post delete options head patch trace p.parameters)
  have hpatch (get put post delete options head) := (h "PATCH" p.patch).bind
    (htrace get put post delete options head)
  have hhead (get put post delete options) := (h "HEAD" p.head).bind
    (hpatch get put post delete options)
  have hoptions (get put post delete) := (h "OPTIONS" p.options).bind (hhead get put post delete)
  have hdelete (get put post) := (h "DELETE" p.delete).bind (hoptions get put post)
  have hpost (get put) := (h "POST" p.post).bind (hdelete get put)
  have hput (get) := (h "PUT" p.put).bind (hpost get)
  have hget := (h "GET" p.get).bind hput
  rw [PathItem.bodies_eq]
  simp only [List.flatMap_cons, List.flatMap_nil, List.filter_append, List.filter_nil]
  exact hget

theorem hoistPaths_settles (ps : Table PathItem) : Settles (hoistPaths ps)
    ((ps.flatMap (·.2.bodies)).filter (·.needsName)) fun f =>
      ps.map fun p => (p.1, p.2.settle f) := by
  induction ps with
  | nil => exact .pure []
  | cons p ps ih =>
    rw [List.flatMap_cons, List.filter_append]
    exact (hoistPath_settles p.1 p.2).bind fun item => ih.map fun ps => (p.1, item) :: ps

/-- A document with these paths and this table. -/
def Document.withTable (d : Document) (paths : Option (Table PathItem)) (t : Table Schema) :
    Document :=
  { d with paths := paths, components := { d.components with schemas := t } }

/-- Hoisting goes through the bodies and then walks the table. -/
theorem Document.hoist_eq (d : Document) : d.hoist =
    (d.paths.mapM hoistPaths).run (Hoard.ofTable d.components.schemas) >>= fun x =>
      ((hoistTable.run x.2).map (·.2)).map fun h => d.withTable x.1 h.table := by
  have hrun : d.hoist = (do
      let r ← (do
        let paths ← d.paths.mapM hoistPaths
        hoistTable
        return paths : Hoisting _).run (Hoard.ofTable d.components.schemas)
      return d.withTable r.1 r.2.table) := by
    rw [hoist]
    cases d.paths <;> rfl
  rw [hrun, StateT.run_bind, bind_assoc]
  refine bind_congr fun x => ?_
  rw [StateT.run_bind, bind_assoc]
  cases hoistTable.run x.2 <;> rfl

theorem Document.hoist_eq_ok : d.hoist = .ok d' ↔ ∃ paths h₁ h₂,
    (d.paths.mapM hoistPaths).run (Hoard.ofTable d.components.schemas) = .ok (paths, h₁) ∧
      hoistTable.run h₁ = .ok ((), h₂) ∧
      d' = { d with paths := paths, components := { d.components with schemas := h₂.table } } := by
  rw [hoist_eq, bind_eq_ok]
  constructor
  · rintro ⟨⟨paths, h₁⟩, hpaths, hwalk⟩
    obtain ⟨h₂, htable, rfl⟩ := map_eq_ok.mp hwalk
    obtain ⟨⟨_, _⟩, hrun, rfl⟩ := map_eq_ok.mp htable
    exact ⟨paths, h₁, _, hpaths, hrun, rfl⟩
  · rintro ⟨paths, h₁, h₂, hpaths, htable, rfl⟩
    exact ⟨(paths, h₁), hpaths, map_eq_ok.mpr ⟨h₂, map_eq_ok.mpr ⟨((), h₂), htable, rfl⟩, rfl⟩⟩

theorem hoistPaths?_settles (d : Document) : Settles (d.paths.mapM hoistPaths)
    (d.bodies.filter (·.needsName)) fun f => d.paths.map fun ps =>
      ps.map fun p => (p.1, p.2.settle f) := by
  have hps := Settles.option d.paths fun ps _ => hoistPaths_settles ps
  have hbodies : d.bodies.filter (·.needsName) =
      d.paths.elim [] fun ps => (ps.flatMap (·.2.bodies)).filter (·.needsName) := by
    rw [Document.bodies]
    cases d.paths <;> rfl
  rw [hbodies]
  exact hps

/-- Hoisting settles a document. -/
theorem Document.hoist_settles (hk : (Table.keys d.components.schemas).Nodup)
    (hd : d.hoist = .ok d') : ∃ h, d.Gathers h ∧ d' = d.settle h.entryOf h.table := by
  obtain ⟨paths, h₁, h₂, hpaths, htable, rfl⟩ := hoist_eq_ok.mp hd
  have hsettles := hoistPaths?_settles d
  have hadds := hsettles.adds hpaths
  obtain ⟨src, hadds', hsrc⟩ := hoistTable_settles (hadds.nodup hk) htable
  let h : Hoard := ⟨src, h₂.known⟩
  have hagrees : h₂.Agrees h.entryOf := h.agrees_entryOf
  refine ⟨h, hadds.append hadds', ?_⟩
  rw [hsettles.result hpaths (hadds'.agrees h.agrees_entryOf), hsrc _ hagrees]
  rfl

/-- What is registered has an entry of its signature. -/
theorem Document.Gathers.entry {h : Hoard} {s : Schema} (hg : d.Gathers h)
    (hk : (Table.keys d.components.schemas).Nodup) (hs : s ∈ d.moved h.table) :
    h.known.lookup s.signature = some (h.entryOf s.signature) ∧
      ∃ e, Table.find? (h.entryOf s.signature) h.table = some e ∧ e.signature = s.signature := by
  have hknown := Hoard.Adds.knows hg hs
  have hsound := Hoard.Adds.sound hg (Hoard.sound_ofTable hk)
  exact ⟨hknown, hsound.entry _ _ hknown⟩

end SdkSmith.OpenApi
