import SdkSmith.Client.Template

/-!
The tokens of a template. A template can be cut at its tokens in one way, and this is what is found
when it is scanned.
-/
namespace SdkSmith.Client.Template

/-- A template cut at its tokens, each with the text before it, and the text after the last one. A
token goes from the leftmost brace that opens to the first one that closes after it; no brace that
opens is closed in the text that is left. -/
inductive IsCut : String → List (String × String) → String → Prop
  | rest {text : String}
      (h : ∀ before after, text = before ++ "\x7b" ++ after → '\x7d' ∉ after.toList) :
      IsCut text [] text
  | token {template text name tail rest : String} {cuts : List (String × String)}
      (htemplate : template = text ++ "\x7b" ++ name ++ "\x7d" ++ tail)
      (htext : '\x7b' ∉ text.toList) (hname : '\x7d' ∉ name.toList)
      (h : IsCut tail cuts rest) : IsCut template ((text, name) :: cuts) rest

variable {template rest text name : String} {cuts : List (String × String)}
  {s l r : List Char} {c : Char}

/-! One way to cut -/

theorem append_cons_inj_of_first {l' r' : List Char} (hl : c ∉ l) (hl' : c ∉ l')
    (h : l ++ c :: r = l' ++ c :: r') : l = l' ∧ r = r' := by
  rcases List.append_eq_append_iff.mp h with ⟨m, rfl, hr⟩ | ⟨m, rfl, hr⟩
  all_goals
    cases m with
    | nil => exact ⟨by simp, by simpa [eq_comm] using hr⟩
    | cons d m => simp_all

theorem toList_token (text name template : String) :
    (text ++ "\x7b" ++ name ++ "\x7d" ++ template).toList =
      text.toList ++ '\x7b' :: (name.toList ++ '\x7d' :: template.toList) := by
  simp

/-- A brace that opens after others has no more after it than they have. -/
theorem not_mem_of_first (hl : '\x7b' ∉ l) (hr : '\x7d' ∉ r)
    (h : text.toList = l ++ '\x7b' :: r) {before after : String}
    (hsplit : text = before ++ "\x7b" ++ after) : '\x7d' ∉ after.toList := by
  have hlist : l ++ '\x7b' :: r = before.toList ++ '\x7b' :: after.toList := by
    rw [← h, hsplit]
    simp
  intro hclosed
  rcases List.append_eq_append_iff.mp hlist with ⟨m, -, hm⟩ | ⟨m, rfl, hm⟩
  · have hmem : '\x7d' ∈ '\x7b' :: r := by
      rw [hm]
      exact List.mem_append_right m (List.mem_cons_of_mem _ hclosed)
    rcases List.mem_cons.mp hmem with heq | hmem
    · exact absurd heq (by decide)
    · exact hr hmem
  · cases m with
    | nil => simp_all
    | cons d m => simp_all

theorem exists_isCut (template : String) : ∃ cuts rest, IsCut template cuts rest := by
  induction hn : template.toList.length using Nat.strongRecOn generalizing template with
  | ind n ih =>
    by_cases hopen : '\x7b' ∈ template.toList
    · obtain ⟨l, r, hr, hl⟩ := List.eq_append_cons_of_mem hopen
      by_cases hclosed : '\x7d' ∈ r
      · obtain ⟨t, u, rfl, ht⟩ := List.eq_append_cons_of_mem hclosed
        have hlength : u.length < n := by
          rw [← hn, hr]
          simp only [List.length_append, List.length_cons]
          omega
        obtain ⟨cuts, rest, hcut⟩ := ih u.length hlength (String.ofList u) (by simp)
        have htemplate : template =
            String.ofList l ++ "\x7b" ++ String.ofList t ++ "\x7d" ++ String.ofList u := by
          rw [← String.toList_inj, toList_token]
          simp [hr]
        exact ⟨_, rest, .token htemplate (by simpa using hl) (by simpa using ht) hcut⟩
      · exact ⟨[], template, .rest fun _ _ => not_mem_of_first hl hclosed hr⟩
    · refine ⟨[], template, .rest fun before after hsplit => ?_⟩
      rw [hsplit] at hopen
      simp at hopen

/-- A token is a brace that is closed. -/
theorem exists_closed {text name tail : String}
    (h : template = text ++ "\x7b" ++ name ++ "\x7d" ++ tail) :
    ∃ before after, template = before ++ "\x7b" ++ after ∧ '\x7d' ∈ after.toList := by
  refine ⟨text, name ++ "\x7d" ++ tail, ?_, by simp⟩
  simp [h, String.append_assoc]

theorem IsCut.unique {cuts' : List (String × String)} {rest' : String}
    (h : IsCut template cuts rest) (h' : IsCut template cuts' rest') :
    cuts' = cuts ∧ rest' = rest := by
  induction h generalizing cuts' rest' with
  | rest hopen =>
    cases h' with
    | rest => exact ⟨rfl, rfl⟩
    | token htemplate =>
      obtain ⟨before, after, hsplit, hclosed⟩ := exists_closed htemplate
      exact absurd hclosed (hopen before after hsplit)
  | token htemplate htext hname h ih =>
    cases h' with
    | rest hopen =>
      obtain ⟨before, after, hsplit, hclosed⟩ := exists_closed htemplate
      exact absurd hclosed (hopen before after hsplit)
    | token htemplate' htext' hname' h' =>
      rw [htemplate, ← String.toList_inj, toList_token, toList_token] at htemplate'
      obtain ⟨htexts, hlater⟩ := append_cons_inj_of_first htext htext' htemplate'
      obtain ⟨hnames, htails⟩ := append_cons_inj_of_first hname hname' hlater
      rw [String.toList_inj] at htexts hnames htails
      subst htexts hnames htails
      obtain ⟨rfl, rfl⟩ := ih h'
      exact ⟨rfl, rfl⟩

theorem IsCut.template_eq (h : IsCut template cuts rest) :
    template = String.join (cuts.map fun x => x.1 ++ "\x7b" ++ x.2 ++ "\x7d") ++ rest := by
  induction h with
  | rest => simp
  | token htemplate htext hname h ih =>
    rw [List.map_cons, String.join_cons, String.append_assoc, ← ih, htemplate]

/-! What is scanned -/

/-- The piece for a text, if there is any. -/
def textPieces (s : List Char) : List Piece :=
  if s = [] then [] else [.text s]

theorem scanFrom_append_of_not_mem (h : '\x7b' ∉ s) (r : List Char) :
    scanFrom none (s ++ r) = s.foldr before (scanFrom none r) := by
  induction s with
  | nil => rfl
  | cons c s ih =>
    rw [List.mem_cons, not_or] at h
    rw [List.cons_append, scanFrom, if_neg (Ne.symm h.1), ih h.2, List.foldr_cons]

theorem scanFrom_token (h : '\x7d' ∉ s) (t r : List Char) :
    scanFrom (some t) (s ++ '\x7d' :: r) = .token (t.reverse ++ s) :: scanFrom none r := by
  induction s generalizing t with
  | nil => simp [scanFrom]
  | cons c s ih =>
    rw [List.mem_cons, not_or] at h
    rw [List.cons_append, scanFrom, if_neg (Ne.symm h.1), ih h.2]
    simp

theorem scanFrom_unclosed (h : '\x7d' ∉ s) (t : List Char) :
    scanFrom (some t) s = [.text ('\x7b' :: t.reverse ++ s)] := by
  induction s generalizing t with
  | nil => simp [scanFrom]
  | cons c s ih =>
    rw [List.mem_cons, not_or] at h
    rw [scanFrom, if_neg (Ne.symm h.1), ih h.2]
    simp

theorem foldr_before (s : List Char) {ps : List Piece} (h : ∀ t qs, ps ≠ .text t :: qs) :
    s.foldr before ps = textPieces s ++ ps := by
  induction s with
  | nil => rfl
  | cons c s ih =>
    rw [List.foldr_cons, ih]
    cases s with
    | nil =>
      unfold textPieces
      simp only [if_true, List.nil_append]
      unfold before
      split
      · exact absurd rfl (h _ _)
      · rfl
    | cons d s => rfl

theorem foldr_before_text (s t : List Char) : s.foldr before [.text t] = [.text (s ++ t)] := by
  induction s with
  | nil => rfl
  | cons c s ih => rw [List.foldr_cons, ih, before, List.cons_append]

theorem scan_token (htext : '\x7b' ∉ text.toList) (hname : '\x7d' ∉ name.toList)
    (template : String) : scan (text ++ "\x7b" ++ name ++ "\x7d" ++ template) =
      textPieces text.toList ++ .token name.toList :: scan template := by
  rw [scan, toList_token, scanFrom_append_of_not_mem htext, scanFrom, if_pos rfl,
    scanFrom_token hname, List.reverse_nil, List.nil_append, foldr_before, scan]
  rintro t qs ⟨⟩

theorem scan_rest
    (h : ∀ before after, text = before ++ "\x7b" ++ after → '\x7d' ∉ after.toList) :
    scan text = textPieces text.toList := by
  rw [scan]
  by_cases hopen : '\x7b' ∈ text.toList
  · obtain ⟨l, r, hr, hl⟩ := List.eq_append_cons_of_mem hopen
    have hclosed : '\x7d' ∉ r := by
      have hsplit := h (String.ofList l) (String.ofList r) (by
        rw [← String.toList_inj, hr]
        simp)
      rwa [String.toList_ofList] at hsplit
    rw [hr, scanFrom_append_of_not_mem hl, scanFrom, if_pos rfl, scanFrom_unclosed hclosed,
      foldr_before_text, textPieces, if_neg (by simp)]
    simp
  · have hplain := scanFrom_append_of_not_mem hopen []
    rw [List.append_nil] at hplain
    rw [hplain, scanFrom, foldr_before _ (by rintro t qs ⟨⟩), List.append_nil]

end SdkSmith.Client.Template
