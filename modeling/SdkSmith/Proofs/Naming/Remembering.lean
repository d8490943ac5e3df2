import SdkSmith.Naming.Memo

/-!
What the memory of names answers. It holds nothing but what the rules say, whatever it was asked
before, so each answer is that of the rules.
-/
namespace SdkSmith.Naming

/-- The name that the rules give. -/
def NameRequest.name : NameRequest → String
  | .normal text => normalize text
  | .variable text => variableName text
  | .class text suffix => className text suffix
  | .credential key => credentialName key

/-- Whether a memory holds nothing but what the rules say. -/
structure Memo.Sound (m : Memo) : Prop where
  normal : ∀ x ∈ m.normal, x.2 = normalize x.1
  vars : ∀ x ∈ m.vars, x.2 = variableName x.1
  classes : ∀ x ∈ m.classes, x.2 = className x.1.1 x.1.2

/-- The answer to a request when others were answered before. -/
def answerAfter (earlier : List NameRequest) (q : NameRequest) : String :=
  ((Memo.empty.answers earlier).2.answer q).1

variable {m : Memo}

/-- An answer by a rule is the rule's, and what is remembered stays so. -/
theorem remember_eq {α : Type} [BEq α] [LawfulBEq α] {known : List (α × String)}
    (rule : α → String) (h : ∀ x ∈ known, x.2 = rule x.1) (key : α) :
    (remember known key (rule key)).1 = rule key ∧
      ∀ x ∈ (remember known key (rule key)).2, x.2 = rule x.1 := by
  unfold remember
  cases hfind : known.lookup key with
  | some hit =>
    obtain ⟨before, after, rfl, -⟩ := List.lookup_eq_some_iff.mp hfind
    exact ⟨h (key, hit) (List.mem_append_right _ List.mem_cons_self), h⟩
  | none => exact ⟨rfl, List.forall_mem_cons.mpr ⟨rfl, h⟩⟩

theorem Memo.sound_empty : Memo.empty.Sound :=
  ⟨List.forall_mem_nil _, List.forall_mem_nil _, List.forall_mem_nil _⟩

theorem Memo.Sound.answer (h : m.Sound) (q : NameRequest) :
    (m.answer q).1 = q.name ∧ (m.answer q).2.Sound := by
  cases q with
  | normal text =>
    obtain ⟨hname, hknown⟩ := remember_eq normalize h.normal text
    exact ⟨hname, hknown, h.vars, h.classes⟩
  | «variable» text =>
    obtain ⟨hname, hknown⟩ := remember_eq variableName h.vars text
    exact ⟨hname, h.normal, hknown, h.classes⟩
  | «class» text suffix =>
    obtain ⟨hname, hknown⟩ := remember_eq (fun x : String × String => className x.1 x.2)
      h.classes (text, suffix)
    exact ⟨hname, h.normal, h.vars, hknown⟩
  | credential key =>
    obtain ⟨hname, hknown⟩ := remember_eq variableName h.vars (credentialKey key)
    exact ⟨hname, h.normal, hknown, h.classes⟩

theorem Memo.Sound.answers (h : m.Sound) (qs : List NameRequest) :
    (m.answers qs).1 = qs.map (·.name) ∧ (m.answers qs).2.Sound := by
  induction qs generalizing m with
  | nil => exact ⟨rfl, h⟩
  | cons q qs ih =>
    obtain ⟨hname, hsound⟩ := h.answer q
    obtain ⟨hnames, hlast⟩ := ih hsound
    refine ⟨?_, hlast⟩
    rw [List.map_cons, ← hname, ← hnames]
    rfl

/-- What was asked before makes no difference. -/
theorem answerAfter_eq (earlier : List NameRequest) (q : NameRequest) :
    answerAfter earlier q = q.name :=
  ((Memo.sound_empty.answers earlier).2.answer q).1

/-- One memory for all requests comes to the same as a new one for each: it answers by the rules,
in every order and as often as it is asked. -/
theorem answers_eq_fresh (qs : List NameRequest) :
    (Memo.empty.answers qs).1 = qs.map (fun q => (Memo.empty.answer q).1) ∧
      ∀ q, (Memo.empty.answer q).1 = q.name := by
  have hfresh : ∀ q, (Memo.empty.answer q).1 = q.name := by
    intro q
    exact (Memo.sound_empty.answer q).1
  refine ⟨?_, hfresh⟩
  obtain ⟨hnames, -⟩ := Memo.sound_empty.answers qs
  rw [hnames]
  apply List.map_congr_left
  intro q _
  exact (hfresh q).symm

/-- A credential is asked for by its key or by what is left of the key. -/
example : (Memo.empty.answers [.credential "X-Api-Key", .variable "Api-Key",
    .class "list" "Dto", .class "list" "Resource", .credential "x-Api-Key"]).1 =
      ["apiKey", "apiKey", "ListDto", "ListResource", "apiKey"] := by decide +kernel

end SdkSmith.Naming
