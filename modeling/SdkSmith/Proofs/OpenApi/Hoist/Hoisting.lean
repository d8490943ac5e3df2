import SdkSmith.Proofs.OpenApi.Hoist.Hoard
import SdkSmith.Proofs.OpenApi.Hoist.Settle
import SdkSmith.Proofs.Runs

/-!
Runs that hoist: what moves out of a schema is registered in order, and the schema comes out
settled by the entries of its last table, or of any later one.
-/
namespace SdkSmith.OpenApi

/-- Names for signatures that agree with the entries. -/
def Hoard.Agrees (h : Hoard) (f : Signature → String) : Prop :=
  ∀ g n, h.known.lookup g = some n → f g = n

/-- Every run registers the schemas, and the names of their entries make up its result. With
nothing to register it runs and changes nothing. -/
structure Settles {α : Type} (m : Hoisting α) (ss : List Schema) (r : (Signature → String) → α) :
    Prop where
  adds : ∀ {h a h'}, m.run h = .ok (a, h') → h.Adds ss h'
  result : ∀ {h a h'}, m.run h = .ok (a, h') → ∀ {f}, h'.Agrees f → a = r f
  idle : ss = [] → ∀ h, ∃ a, m.run h = .ok (a, h)

variable {α β : Type} {m : Hoisting α} {k : α → Hoisting β} {ss ss' : List Schema}
  {r : (Signature → String) → α} {r' : α → (Signature → String) → β} {h h' : Hoard} {b : β}
  {o : Option Origin} {s : Schema}

theorem run_bind_eq_ok : (m >>= k).run h = .ok (b, h') ↔
    ∃ a h₁, m.run h = .ok (a, h₁) ∧ (k a).run h₁ = .ok (b, h') := by
  rw [StateT.run_bind, bind_eq_ok, Prod.exists]

theorem Hoard.agrees_entryOf (h : Hoard) : h.Agrees h.entryOf := fun _ _ => entryOf_of_lookup

theorem Hoard.Adds.agrees {f : Signature → String} (ha : h.Adds ss h') (hf : h'.Agrees f) :
    h.Agrees f := fun g n hn => hf g n (ha.keeps hn)

namespace Settles

theorem pure (a : α) : Settles (Pure.pure a) [] fun _ => a := by
  refine ⟨?_, ?_, fun _ h => ⟨a, rfl⟩⟩
  · rintro h _ _ ⟨⟩
    exact .nil
  · rintro h _ _ ⟨⟩ _ _
    rfl

theorem bind (hm : Settles m ss r) (hk : ∀ a, Settles (k a) ss' (r' a)) :
    Settles (m >>= k) (ss ++ ss') fun f => r' (r f) f := by
  refine ⟨?_, ?_, ?_⟩
  · intro h b h' hrun
    obtain ⟨a, h₁, hfirst, hrest⟩ := run_bind_eq_ok.mp hrun
    exact (hm.adds hfirst).append ((hk a).adds hrest)
  · intro h b h' hrun f hf
    obtain ⟨a, h₁, hfirst, hrest⟩ := run_bind_eq_ok.mp hrun
    rw [(hk a).result hrest hf, hm.result hfirst (((hk a).adds hrest).agrees hf)]
  · intro hnil h
    obtain ⟨hss, hss'⟩ := List.append_eq_nil_iff.mp hnil
    obtain ⟨a, ha⟩ := hm.idle hss h
    obtain ⟨b, hb⟩ := (hk a).idle hss' h
    exact ⟨b, run_bind_eq_ok.mpr ⟨a, h, ha, hb⟩⟩

theorem map (hm : Settles m ss r) (g : α → β) : Settles (g <$> m) ss fun f => g (r f) := by
  rw [← bind_pure_comp, ← List.append_nil ss]
  exact hm.bind fun a => pure (g a)

theorem fail (e : Failure) : Settles (throw e) (s :: ss) r := by
  refine ⟨?_, ?_, ?_⟩
  · rintro h a h' ⟨⟩
  · rintro h a h' ⟨⟩
  · rintro ⟨⟩

/-- A step that may fail before anything is registered. -/
theorem lift_bind {x : Except Failure α} {r : (Signature → String) → β}
    (hx : ss = [] → ∃ a, x = .ok a) (hk : ∀ a, x = .ok a → Settles (k a) ss r) :
    Settles ((x : Hoisting α) >>= k) ss r := by
  cases x with
  | error e =>
    refine ⟨?_, ?_, fun hnil _ => ?_⟩
    · rintro h b h' ⟨⟩
    · rintro h b h' ⟨⟩
    · obtain ⟨a, ⟨⟩⟩ := hx hnil
  | ok a => exact ⟨(hk a rfl).adds, (hk a rfl).result, (hk a rfl).idle⟩

theorem option (a? : Option α) {n : α → List Schema} (hk : ∀ a, a? = some a →
    Settles (k a) (n a) (r' a)) : Settles (a?.mapM k) (a?.elim [] n) fun f =>
      a?.map fun a => r' a f := by
  cases a? with
  | none => exact pure none
  | some a => exact (hk a rfl).map some

end Settles

theorem register_settles (name : String) (s : Schema) :
    Settles (register name s o) [s] fun f => f s.signature := by
  have hrun {h n h'} (hr : (register name s o).run h = .ok (n, h')) :
      ((h.register name s o).1, (h.register name s o).2) = (n, h') := Except.ok.inj hr
  refine ⟨?_, ?_, fun hnil => ?_⟩
  · intro h n h' hr
    cases hrun hr
    exact .single name o
  · intro h n h' hr f hf
    cases hrun hr
    exact (hf _ _ (h.register_knows name s o)).symm
  · cases hnil

theorem hoist_eq (p : Position) (s : Schema) : hoist o p s = do
    match ← (treatment p s : Hoisting Treatment) with
    | .keep => return s
    | .move name => standIn s <$> register name s o
    | .items hint =>
      let items ← s.items.mapM (hoist o (.member hint hint))
      return { s with items := items }
    | .visit owner =>
      let properties ← s.properties.mapM (hoistProperties o owner)
      let items ← s.items.mapM (hoist o (.member (owner ++ " item") (owner ++ " item")))
      let allOf ← s.allOf.mapM (hoistAll o owner)
      return { s with properties := properties, items := items, allOf := allOf } := by
  obtain ⟨_, _, _, _, properties, _, items, allOf, _⟩ := s
  rw [hoist]
  congr 1
  funext t
  cases t with
  | keep => rfl
  | move name => rfl
  | items hint => cases items <;> rfl
  | visit owner => cases properties <;> cases items <;> cases allOf <;> rfl

theorem hoistProperties_settles (owner : String) {ps : List (String × Schema)}
    (h : ∀ p ∈ ps, ∀ q, Settles (hoist o q p.2) (p.2.moved q.place) fun f =>
      p.2.settle f q.place) :
    Settles (hoistProperties o owner ps) (Schema.movedOut ps) fun f => Schema.settleOut f ps := by
  induction ps with
  | nil => exact .pure []
  | cons p ps ih =>
    have hp := h p List.mem_cons_self
    have hps := ih fun q hq => h q (List.mem_cons_of_mem _ hq)
    exact (hp _).bind fun s => hps.map fun ps => (p.1, s) :: ps

theorem hoistAll_settles (owner : String) {l : List Schema}
    (h : ∀ s ∈ l, ∀ q, Settles (hoist o q s) (s.moved q.place) fun f => s.settle f q.place) :
    Settles (hoistAll o owner l) (Schema.movedAll l) fun f => Schema.settleAll f l := by
  induction l with
  | nil => exact .pure []
  | cons s l ih =>
    have hs := h s List.mem_cons_self
    have hl := ih fun x hx => h x (List.mem_cons_of_mem _ hx)
    exact (hs _).bind fun s => hl.map fun l => s :: l

/-- Hoisting settles a schema. -/
theorem hoist_settles (p : Position) (s : Schema) :
    Settles (hoist o p s) (s.moved p.place) fun f => s.settle f p.place := by
  induction s using Schema.tree_induction generalizing p with
  | step s properties items members =>
    rw [hoist_eq]
    refine .lift_bind (fun hnil => treatment_of_fate (Schema.ne_move_of_moved hnil)) fun t ht => ?_
    have hfate := fate_of_treatment ht
    simp only [Schema.moved_eq, Schema.settle_eq, hfate]
    cases t with
    | keep => exact .pure s
    | move name => exact (register_settles name s).map (standIn s)
    | items hint =>
      have hi := Settles.option s.items fun i hi => items i hi (.member hint hint)
      exact hi.map fun items => { s with items := items }
    | visit owner =>
      have hp := Settles.option s.properties fun ps hps => hoistProperties_settles owner
        fun p hp q => properties ps hps p hp q
      have hi := Settles.option s.items fun i hi =>
        items i hi (.member (owner ++ " item") (owner ++ " item"))
      have ha := Settles.option s.allOf fun l hl => hoistAll_settles owner
        fun x hx q => members l hl x hx q
      simp only [Treatment.fate, Schema.inside, List.append_assoc]
      exact hp.bind fun properties => hi.bind fun items => ha.map fun allOf =>
        { s with properties := properties, items := items, allOf := allOf }

end SdkSmith.OpenApi
