import SdkSmith.OpenApi.References
import SdkSmith.Proofs.OpenApi.Hoist.Normal

/-!
When the bodies of operations cannot be named. Hoisting fails at the first body that needs a name
and gets none, whatever the table is; one kind of these could be named by the summary of its
operation, if an operationId without words did not stand before it.
-/
namespace SdkSmith.OpenApi

/-- The schema of a body, with its operation and where it stands. -/
structure BodySite where
  schema : Schema
  operation : Operation
  location : String

/-- The bodies of an operation, the request's first. -/
def Operation.bodySites (path method : String) (o : Operation) : List BodySite :=
  let location := method ++ " " ++ path
  (o.requestSchema?.toList.map fun s => ⟨s, o, location⟩) ++ o.responses.flatMap fun r =>
    (bodySchema? r.2.content).toList.map fun s => ⟨s, o, location ++ " response " ++ r.1⟩

/-- The bodies of a document, operation by operation. -/
def Document.bodySites (d : Document) : List BodySite :=
  d.operations.flatMap fun x => x.2.2.2.bodySites x.1 x.2.2.1.name

/-- Whether a text makes a class name. -/
def Names (text : Option String) : Prop :=
  ∃ t, text = some t ∧ Naming.studlyCase t ≠ ""

namespace BodySite

/-- Whether a body needs a name and neither its title nor its operation makes one. -/
structure Nameless (x : BodySite) : Prop where
  needsName : x.schema.needsName = true
  title : ¬ Names x.schema.title
  operationId : ¬ Names x.operation.operationId
  summary : ¬ Names x.operation.summary

/-- Whether only the summary of a body's operation makes a name, and an operationId that makes none
stands before it. -/
structure Shadowed (x : BodySite) : Prop where
  needsName : x.schema.needsName = true
  title : ¬ Names x.schema.title
  given : x.operation.operationId ≠ none
  operationId : ¬ Names x.operation.operationId
  summary : Names x.operation.summary

/-- Whether hoisting gives a body no name though it needs one. -/
def isUnnamed (x : BodySite) : Bool :=
  x.schema.needsName && x.schema.titleName?.isNone && x.operation.baseName?.isNone

end BodySite

/-- The failure of the first body that gets no name. -/
def firstUnnamed? (l : List BodySite) : Option Failure :=
  (l.find? (·.isUnnamed)).map fun x => .unnamedSchema x.location false

/-- How a run ends, unless it gives a result. -/
def failure? {ε α : Type} : Except ε α → Option ε
  | .error e => some e
  | .ok _ => none

/-- Whether a step fails at the first of some bodies that gets no name, and else gives a result. -/
def StopsAt {α : Type} (m : Hoisting α) (l : List BodySite) : Prop :=
  ∀ h, failure? (m.run h) = firstUnnamed? l

variable {α β : Type} {m : Hoisting α} {k : α → Hoisting β} {l l' : List BodySite} {x : BodySite}
  {o : Operation} {s : Schema} {d : Document} {f : Failure} {path method location : String}

theorem failure?_eq_some {ε : Type} {r : Except ε α} {e : ε} :
    failure? r = some e ↔ r = .error e := by
  cases r <;> simp [failure?]

theorem firstUnnamed?_append :
    firstUnnamed? (l ++ l') = (firstUnnamed? l).or (firstUnnamed? l') := by
  rw [firstUnnamed?, List.find?_append, Option.map_or]
  rfl

theorem firstUnnamed?_eq_some : firstUnnamed? l = some f ↔ ∃ before x after,
    l = before ++ x :: after ∧ (∀ y ∈ before, y.isUnnamed = false) ∧ x.isUnnamed = true ∧
      f = .unnamedSchema x.location false := by
  rw [firstUnnamed?, Option.map_eq_some_iff]
  constructor
  · rintro ⟨x, hfind, rfl⟩
    obtain ⟨hx, before, after, rfl, hbefore⟩ := List.find?_eq_some_iff_append.mp hfind
    exact ⟨before, x, after, rfl, fun y hy => by simpa using hbefore y hy, hx, rfl⟩
  · rintro ⟨before, x, after, rfl, hbefore, hx, rfl⟩
    refine ⟨x, List.find?_eq_some_iff_append.mpr ⟨hx, before, after, rfl, fun y hy => ?_⟩, rfl⟩
    simp [hbefore y hy]

/-! Steps -/

namespace StopsAt

theorem pure (a : α) : StopsAt (Pure.pure a) [] := fun _ => rfl

theorem bind (hm : StopsAt m l) (hk : ∀ a, StopsAt (k a) l') : StopsAt (m >>= k) (l ++ l') := by
  intro h
  have hfirst := hm h
  rw [StateT.run_bind, firstUnnamed?_append, ← hfirst]
  cases m.run h with
  | error e => rfl
  | ok x => exact hk x.1 x.2

theorem map (hm : StopsAt m l) (g : α → β) : StopsAt (g <$> m) l := by
  rw [← bind_pure_comp, ← List.append_nil l]
  exact hm.bind fun a => pure (g a)

theorem option {a? : Option α} {k : α → Hoisting β} {l : α → List BodySite}
    (hk : ∀ a, StopsAt (k a) (l a)) : StopsAt (a?.mapM k) (a?.elim [] l) := by
  cases a? with
  | none => exact pure none
  | some a => exact (hk a).map some

end StopsAt

theorem hoistBody_stopsAt (s : Schema) (o : Operation) (word : String) (origin : Origin)
    (location : String) :
    StopsAt (hoistBody s o.baseName? word origin location) [⟨s, o, location⟩] := by
  intro h
  rw [firstUnnamed?, List.find?_singleton, BodySite.isUnnamed]
  unfold hoistBody
  cases s.needsName with
  | false => rfl
  | true => cases s.titleName? <;> cases o.baseName? <;> rfl

theorem hoistContent_stopsAt (content : Table MediaType) (o : Operation) (word : String)
    (origin : Origin) (location : String) :
    StopsAt (hoistContent content o.baseName? word origin location)
      ((bodySchema? content).toList.map fun s => ⟨s, o, location⟩) := by
  unfold hoistContent
  cases bodySchema? content with
  | none => exact .pure content
  | some s => exact (hoistBody_stopsAt s o word origin location).map (withBodySchema content)

theorem hoistResponses_stopsAt (o : Operation) (location : String) (rs : Table Response) :
    StopsAt (hoistResponses o.baseName? location rs) (rs.flatMap fun r =>
      (bodySchema? r.2.content).toList.map fun s => ⟨s, o, location ++ " response " ++ r.1⟩) := by
  induction rs with
  | nil => exact .pure []
  | cons r rs ih =>
    have hr := hoistContent_stopsAt r.2.content o "Response" .response
      (location ++ " response " ++ r.1)
    rw [List.flatMap_cons]
    exact hr.bind fun content =>
      ih.map fun rs => (r.1, ({ r.2 with content := content } : Response)) :: rs

theorem hoistOperation_stopsAt (path method : String) (o : Operation) :
    StopsAt (hoistOperation path method o) (o.bodySites path method) := by
  have hresponses (body : Option RequestBody) :=
    (hoistResponses_stopsAt o (method ++ " " ++ path) o.responses).map fun responses =>
      ({ o with requestBody := body, responses := responses } : Operation)
  rw [hoistOperation, Operation.bodySites, Operation.requestSchema?]
  cases o.requestBody with
  | none => exact (StopsAt.pure none).bind hresponses
  | some b =>
    have hcontent := hoistContent_stopsAt b.content o "Request" .request (method ++ " " ++ path)
    exact hcontent.bind fun content =>
      (StopsAt.pure (some { b with content := content })).bind hresponses

theorem hoistOperation?_stopsAt (path method : String) (o? : Option Operation) :
    StopsAt (hoistOperation? path method o?) (o?.elim [] (·.bodySites path method)) := by
  cases o? with
  | none => exact .pure none
  | some o => exact (hoistOperation_stopsAt path method o).map some

/-- The bodies of a path item, operation by operation. -/
def PathItem.bodySites (path : String) (p : PathItem) : List BodySite :=
  p.operations.flatMap fun x => x.2.bodySites path x.1.name

theorem PathItem.bodySites_eq (path : String) (p : PathItem) : p.bodySites path =
    [("GET", p.get), ("PUT", p.put), ("POST", p.post), ("DELETE", p.delete),
      ("OPTIONS", p.options), ("HEAD", p.head), ("PATCH", p.patch), ("TRACE", p.trace)].flatMap
      fun x => x.2.elim [] (·.bodySites path x.1) := by
  have hflat (l : List (Api.HttpMethod × Option Operation)) :
      (l.filterMap fun x => x.2.map fun o => (x.1, o)).flatMap
          (fun x => x.2.bodySites path x.1.name) =
        l.flatMap fun x => x.2.elim [] (·.bodySites path x.1.name) := by
    induction l with
    | nil => rfl
    | cons x l ih =>
      obtain ⟨m, o⟩ := x
      cases o <;> simp [ih]
  rw [bodySites, operations, hflat]
  rfl

theorem hoistPath_stopsAt (path : String) (p : PathItem) :
    StopsAt (hoistPath path p) (p.bodySites path) := by
  have h := hoistOperation?_stopsAt path
  have htrace (get put post delete options head patch) := (h "TRACE" p.trace).bind fun trace =>
    .pure (PathItem.mk get put post delete options head patch trace p.parameters)
  have hpatch (get put post delete options head) := (h "PATCH" p.patch).bind
    (htrace get put post delete options head)
  have hhead (get put post delete options) := (h "HEAD" p.head).bind
    (hpatch get put post delete options)
  have hoptions (get put post delete) := (h "OPTIONS" p.options).bind (hhead get put post delete)
  have hdelete (get put post) := (h "DELETE" p.delete).bind (hoptions get put post)
  have hpost (get put) := (h "POST" p.post).bind (hdelete get put)
  have hput (get) := (h "PUT" p.put).bind (hpost get)
  have hget := (h "GET" p.get).bind hput
  rw [PathItem.bodySites_eq]
  exact hget

theorem hoistPaths_stopsAt (ps : Table PathItem) :
    StopsAt (hoistPaths ps) (ps.flatMap fun p => p.2.bodySites p.1) := by
  induction ps with
  | nil => exact .pure []
  | cons p ps ih =>
    exact (hoistPath_stopsAt p.1 p.2).bind fun item => ih.map fun ps => (p.1, item) :: ps

theorem Document.bodySites_eq (d : Document) :
    d.bodySites = d.paths.elim [] fun ps => ps.flatMap fun p => p.2.bodySites p.1 := by
  rw [bodySites, operations, List.flatMap_assoc]
  cases d.paths with
  | none => rfl
  | some ps =>
    simp only [Option.getD_some, Option.elim_some, List.flatMap_map]
    rfl

theorem hoistPaths?_stopsAt (d : Document) : StopsAt (d.paths.mapM hoistPaths) d.bodySites := by
  rw [d.bodySites_eq]
  exact .option hoistPaths_stopsAt

/-! Names -/

theorem names_or {t u : Option String} : Names (t.or u) ↔ Names t ∨ t = none ∧ Names u := by
  cases t <;> simp [Names]

theorem titleName?_eq_none : s.titleName? = none ↔ ¬ Names s.title := by
  unfold Schema.titleName? Names
  cases s.title <;> simp

theorem baseName?_eq_none : o.baseName? = none ↔ ¬ Names (o.operationId.or o.summary) := by
  unfold Operation.baseName? Names
  cases o.operationId.or o.summary <;> simp

namespace BodySite

theorem isUnnamed_iff : x.isUnnamed = true ↔ x.Nameless ∨ x.Shadowed := by
  simp only [isUnnamed, Bool.and_eq_true, Option.isNone_iff_eq_none, titleName?_eq_none,
    baseName?_eq_none, names_or, not_or, not_and]
  constructor
  · rintro ⟨⟨hneeds, htitle⟩, hid, hsummary⟩
    by_cases hs : Names x.operation.summary
    · exact Or.inr ⟨hneeds, htitle, fun hnone => hsummary hnone hs, hid, hs⟩
    · exact Or.inl ⟨hneeds, htitle, hid, hs⟩
  · rintro (⟨hneeds, htitle, hid, hs⟩ | ⟨hneeds, htitle, hgiven, hid, -⟩)
    · exact ⟨⟨hneeds, htitle⟩, hid, fun _ => hs⟩
    · exact ⟨⟨hneeds, htitle⟩, hid, fun hnone => absurd hnone hgiven⟩

end BodySite

/-- Hoisting the bodies of operations fails at the first body that nothing names, or for which an
operationId that makes no name stands before the summary, and says where the body is; so fails the
normal form. If there is no such body, it does not fail. -/
theorem Document.hoistPaths_fails (d : Document) (f : Failure) :
    ((d.paths.mapM hoistPaths).run (Hoard.ofTable d.components.schemas) = .error f ↔
      ∃ before x after, d.bodySites = before ++ x :: after ∧
        (∀ y ∈ before, ¬ y.Nameless ∧ ¬ y.Shadowed) ∧ (x.Nameless ∨ x.Shadowed) ∧
        f = .unnamedSchema x.location false) ∧
    ((d.paths.mapM hoistPaths).run (Hoard.ofTable d.components.schemas) = .error f →
      d.normalize = .error f) := by
  constructor
  · rw [← failure?_eq_some, hoistPaths?_stopsAt d, firstUnnamed?_eq_some]
    simp only [BodySite.isUnnamed_iff, Bool.eq_false_iff, ne_eq, not_or]
  · intro hrun
    have hhoist : d.hoist = .error f := by
      rw [hoist_eq, hrun]
      rfl
    rw [normalize, hhoist]
    rfl

/-- An operation that sends an object written out, with an operationId without words. -/
def dashed : Operation where
  operationId := some "---"
  summary := some "Create user"
  description := none
  tags := []
  parameters := []
  requestBody := some ⟨none, true, [("application/json", ⟨some (.objectOf [("name", .text)])⟩)]⟩
  responses := []

/-- A document with this operation only. -/
def dashing : Document where
  version := none
  info := some ⟨some "Sample", none, none⟩
  servers := []
  paths := some [("/users", {
    get := none
    put := none
    post := some dashed
    delete := none
    options := none
    head := none
    patch := none
    trace := none
    parameters := []
  })]
  components := ⟨[], [], []⟩
  security := []

/-- The summary would name the body, but hoisting fails. -/
theorem Document.hoistPaths_dashing_fails : ¬ ∀ (d : Document) (f : Failure),
    (d.paths.mapM hoistPaths).run (Hoard.ofTable d.components.schemas) = .error f ↔
      ∃ before x after, d.bodySites = before ++ x :: after ∧ (∀ y ∈ before, ¬ y.Nameless) ∧
        x.Nameless ∧ f = .unnamedSchema x.location false := by
  intro hall
  have hsites : dashing.bodySites = [⟨.objectOf [("name", .text)], dashed, "POST /users"⟩] := by
    rfl
  have hfails : firstUnnamed? dashing.bodySites = some (.unnamedSchema "POST /users" false) := by
    decide +kernel
  rw [← hoistPaths?_stopsAt dashing (Hoard.ofTable _), failure?_eq_some, hall] at hfails
  obtain ⟨before, x, after, hx, -, hnameless, -⟩ := hfails
  have hmem : x ∈ dashing.bodySites := hx ▸ List.mem_append_right _ List.mem_cons_self
  rw [hsites, List.mem_singleton] at hmem
  subst hmem
  exact hnameless.summary ⟨"Create user", rfl, by decide +kernel⟩

end SdkSmith.OpenApi
