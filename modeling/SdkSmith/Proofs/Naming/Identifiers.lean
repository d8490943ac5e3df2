import SdkSmith.Naming.Casing
import SdkSmith.Naming.Fresh
import SdkSmith.Proofs.Naming.FreshNames
import SdkSmith.Proofs.Text.Cutting

/-!
What names are made of. Names are letters and digits, so no separator gets into them, and a
variable begins with a letter, so it has words of its own.
-/
namespace SdkSmith

namespace Text
variable {w : List Char} {c : Char}

/-- What holds of every ASCII character. -/
theorem of_ascii {P : Char → Prop} (hall : ∀ n < 128, P (Char.ofNat n)) (hc : c.toNat < 128) :
    P c := by
  have hcode := hall c.toNat hc
  rwa [Char.ofNat_toNat] at hcode

theorem lt_of_isAlphanum (h : c.isAlphanum) : c.toNat < 128 := by
  -- capital letters, small letters and digits, each a range of codes
  have hranges : (65 ≤ c.val ∧ c.val ≤ 90 ∨ 97 ≤ c.val ∧ c.val ≤ 122) ∨
      48 ≤ c.val ∧ c.val ≤ 57 := by
    simpa only [Bool.or_eq_true, Bool.and_eq_true, decide_eq_true_eq] using
      (show (decide (65 ≤ c.val ∧ c.val ≤ 90) || decide (97 ≤ c.val) && decide (c.val ≤ 122) ||
        decide (48 ≤ c.val) && decide (c.val ≤ 57)) = true from h)
  simp only [UInt32.le_iff_toNat_le] at hranges
  have hcode : c.toNat = c.val.toNat := rfl
  have h90 : (90 : UInt32).toNat = 90 := rfl
  have h122 : (122 : UInt32).toNat = 122 := rfl
  have h57 : (57 : UInt32).toNat = 57 := rfl
  omega

theorem isAlphanum_of_isAlpha (h : c.isAlpha) : c.isAlphanum := by
  rw [Char.isAlphanum, h, Bool.true_or]

theorem not_isDigit_of_isAlpha (h : c.isAlpha) : c.isDigit = false ∧ (c == ' ') = false :=
  of_ascii (P := fun c => c.isAlpha → c.isDigit = false ∧ (c == ' ') = false) (by decide +kernel)
    (lt_of_isAlphanum (isAlphanum_of_isAlpha h)) h

theorem isAlpha_toLower (h : c.isAlpha) : c.toLower.isAlpha :=
  of_ascii (P := fun c => c.isAlpha → c.toLower.isAlpha) (by decide +kernel)
    (lt_of_isAlphanum (isAlphanum_of_isAlpha h)) h

theorem isAlphanum_toLower (h : c.isAlphanum) : c.toLower.isAlphanum :=
  of_ascii (P := fun c => c.isAlphanum → c.toLower.isAlphanum) (by decide +kernel)
    (lt_of_isAlphanum h) h

theorem isAlphanum_toUpper (h : c.isAlphanum) : c.toUpper.isAlphanum :=
  of_ascii (P := fun c => c.isAlphanum → c.toUpper.isAlphanum) (by decide +kernel)
    (lt_of_isAlphanum h) h

theorem isAlphanum_capitalize (h : ∀ c ∈ w, c.isAlphanum) : ∀ c ∈ capitalize w, c.isAlphanum := by
  cases w with
  | nil => exact List.forall_mem_nil _
  | cons c w =>
    rw [List.forall_mem_cons] at h
    rw [capitalize, upperChar, if_pos (lt_of_isAlphanum h.1), List.singleton_append,
      List.forall_mem_cons]
    exact ⟨isAlphanum_toUpper h.1, h.2⟩

end Text

namespace Naming
variable {s w : List Char} {c : Char} {text suffix name wanted : String} {taken : List String}

theorem flatten_humpsFrom (prev : Char) (s : List Char) :
    (humpsFrom prev s).flatten = prev :: s := by
  induction s generalizing prev with
  | nil => rfl
  | cons cur rest ih =>
    rw [humpsFrom]
    split
    · rw [List.flatten_cons, ih, List.singleton_append]
    · have hrest := ih cur
      cases h : humpsFrom cur rest with
      | nil => simp [h] at hrest
      | cons w ws =>
        rw [h] at hrest
        simpa using hrest

theorem flatten_humps (s : List Char) : (humps s).flatten = s := by
  cases s with
  | nil => rfl
  | cons c s => exact flatten_humpsFrom c s

theorem dropFillersBeforeLast_sublist (ws : List (List Char)) :
    (dropFillersBeforeLast ws).Sublist ws := by
  fun_induction dropFillersBeforeLast ws with
  | case1 => exact .refl _
  | case2 => exact .refl _
  | case3 w v r h ih => exact ih.cons w
  | case4 w v r h ih => exact ih.cons_cons w

theorem dropFillers_sublist (ws : List (List Char)) : (dropFillers ws).Sublist ws := by
  cases ws with
  | nil => exact .refl _
  | cons w ws => exact (dropFillersBeforeLast_sublist ws).cons_cons w

theorem isAlphanum_wordsOf (hw : w ∈ wordsOf s) : ∀ c ∈ w, c.isAlphanum := by
  intro c hc
  obtain ⟨run, hrun, hhump⟩ := List.mem_flatMap.mp ((dropFillers_sublist _).mem hw)
  have hmem : c ∈ run := by
    rw [← flatten_humps run]
    exact List.mem_flatten_of_mem hhump hc
  simpa using (Text.mem_pieces (List.mem_filter.mp hrun).1 hmem).2

theorem isAlphanum_joinWords {ws : List (List Char)} (h : ∀ w ∈ ws, ∀ c ∈ w, c.isAlphanum) :
    ∀ c ∈ joinWords ws, c.isAlphanum ∨ c = ' ' := by
  induction ws with
  | nil => exact List.forall_mem_nil _
  | cons w ws ih =>
    rw [List.forall_mem_cons] at h
    intro c hc
    rw [joinWords] at hc
    by_cases hws : ws = []
    · rw [hws, List.intercalate_singleton] at hc
      exact Or.inl (h.1 c hc)
    · rw [List.intercalate_cons_of_ne_nil hws, List.mem_append, List.mem_append,
        List.mem_singleton] at hc
      rcases hc with (hc | hc) | hc
      · exact Or.inl (h.1 c hc)
      · exact Or.inr hc
      · exact ih h.2 c hc

/-- The words of a text are of letters and digits, and none is empty. -/
theorem mem_normalWords {text : String} (hw : w ∈ normalWords text) :
    w ≠ [] ∧ ∀ c ∈ w, c.isAlphanum := by
  obtain ⟨hpiece, hne⟩ := List.mem_filter.mp hw
  refine ⟨by simpa using hne, fun c hc => ?_⟩
  obtain ⟨hmem, hblank⟩ := Text.mem_pieces hpiece hc
  have hjoined := (List.dropWhile_sublist _).mem hmem
  exact (isAlphanum_joinWords (fun w hw => isAlphanum_wordsOf hw) c hjoined).resolve_right
    (by simpa using hblank)

/-- A name of letters and digits. -/
def IsAlphanum (name : String) : Prop :=
  ∀ c ∈ name.toList, c.isAlphanum

theorem isAlphanum_of_all (h : name.toList.all Char.isAlphanum = true) : IsAlphanum name :=
  List.all_eq_true.mp h

theorem IsAlphanum.append (h : IsAlphanum name) (hsuffix : IsAlphanum suffix) :
    IsAlphanum (name ++ suffix) := by
  rw [IsAlphanum, String.toList_append, List.forall_mem_append]
  exact ⟨h, hsuffix⟩

theorem isAlphanum_flatMap {ws : List (List Char)} (h : ∀ w ∈ ws, w ∈ normalWords text) :
    ∀ c ∈ ws.flatMap Text.capitalize, c.isAlphanum := by
  intro c hc
  obtain ⟨w, hw, hc⟩ := List.mem_flatMap.mp hc
  exact Text.isAlphanum_capitalize (mem_normalWords (h w hw)).2 c hc

theorem isAlphanum_camelCase (text : String) : IsAlphanum (camelCase text) := by
  rw [IsAlphanum, camelCase, String.toList_ofList]
  cases h : normalWords text with
  | nil => exact List.forall_mem_nil _
  | cons w ws =>
    have hmem : ∀ v ∈ w :: ws, v ∈ normalWords text := fun v hv => h ▸ hv
    rw [camelChars, List.forall_mem_append, List.forall_mem_map]
    refine ⟨fun c hc => Text.isAlphanum_toLower ?_, ?_⟩
    · exact (mem_normalWords (hmem w List.mem_cons_self)).2 c hc
    · exact isAlphanum_flatMap fun v hv => hmem v (List.mem_cons_of_mem w hv)

theorem isAlphanum_studlyCase (text : String) : IsAlphanum (studlyCase text) := by
  rw [IsAlphanum, studlyCase, String.toList_ofList]
  exact isAlphanum_flatMap fun _ h => h

theorem isAlphanum_variableName (text : String) : IsAlphanum (variableName text) := by
  rw [variableName]
  split
  · exact isAlphanum_of_all (by decide)
  · exact isAlphanum_camelCase text

theorem isAlphanum_className (h : IsAlphanum suffix) (text : String) :
    IsAlphanum (className text suffix) := by
  have hname : IsAlphanum (if (studlyCase text).isEmpty then "Unnamed" else studlyCase text) := by
    split
    · exact isAlphanum_of_all (by decide)
    · exact isAlphanum_studlyCase text
  simp only [className]
  generalize (if (studlyCase text).isEmpty then "Unnamed" else studlyCase text) = name at hname ⊢
  split
  · exact hname.append h
  · exact hname

theorem isAlphanum_toString (n : Nat) : IsAlphanum (toString n) := by
  intro c hc
  rw [Nat.toString_eq_repr, Nat.toList_repr] at hc
  have hdigit := Nat.isDigit_of_mem_toDigits (by decide) (by decide) hc
  rw [Char.isAlphanum, hdigit, Bool.or_true]

theorem IsAlphanum.freshNumbered (h : IsAlphanum wanted) (taken : List String) :
    IsAlphanum (freshNumbered taken wanted) := by
  rcases freshNumbered_eq taken wanted with heq | ⟨n, heq⟩
  · rw [heq]
    exact h
  · rw [heq]
    exact h.append (isAlphanum_toString n)

/-! Words -/

theorem humpsFrom_cons (prev : Char) (s : List Char) :
    ∃ w ws, humpsFrom prev s = (prev :: w) :: ws := by
  cases s with
  | nil => exact ⟨[], [], rfl⟩
  | cons cur rest =>
    rw [humpsFrom]
    split
    · exact ⟨[], _, rfl⟩
    · split
      · exact ⟨[], [], rfl⟩
      · exact ⟨_, _, rfl⟩

/-- A letter in front stays in front. -/
theorem normalizeChars_of_isAlpha (h : c.isAlpha) (s : List Char) :
    ∃ t, normalizeChars (c :: s) = c :: t := by
  have halnum := Text.isAlphanum_of_isAlpha h
  have hfold : foldChar c = [c] := if_pos (Text.lt_of_isAlphanum halnum)
  have hstrip : stripPossessive (c :: fold s) = c :: stripPossessive (fold s) := by
    rw [stripPossessive]
    rintro _ _ rfl
    cases h
  obtain ⟨run, runs, hruns⟩ := Text.pieces_cons (p := fun c => !c.isAlphanum)
    (by rw [halnum]; rfl) (stripPossessive (fold s))
  obtain ⟨hump, humps, hhumps⟩ := humpsFrom_cons c run
  obtain ⟨ws, hwords⟩ : ∃ ws, wordsOf (c :: s) = (c :: hump) :: ws := by
    rw [wordsOf, fold, List.flatMap_cons, hfold, List.singleton_append, ← fold, hstrip, alnumRuns,
      hruns, List.filter_cons_of_pos rfl, List.flatMap_cons, Naming.humps, hhumps, List.cons_append,
      dropFillers]
    exact ⟨_, rfl⟩
  obtain ⟨t, ht⟩ : ∃ t, joinWords ((c :: hump) :: ws) = c :: t := by
    cases ws with
    | nil => exact ⟨_, List.intercalate_singleton⟩
    | cons w ws => exact ⟨_, List.intercalate_cons_cons⟩
  obtain ⟨hdigit, hblank⟩ := Text.not_isDigit_of_isAlpha h
  refine ⟨t, ?_⟩
  rw [normalizeChars, hwords, ht, List.dropWhile_cons_of_neg (by simp [hdigit, hblank])]

/-- The first word of a text begins with a letter. -/
theorem isAlpha_of_normalWords {ws : List (List Char)} (h : normalWords text = w :: ws) :
    ∃ c t, w = c :: t ∧ c.isAlpha := by
  have halnum : ∀ c ∈ joinWords (wordsOf text.toList), c.isAlphanum ∨ c = ' ' :=
    isAlphanum_joinWords fun w hw => isAlphanum_wordsOf hw
  have hsub := List.dropWhile_sublist (l := joinWords (wordsOf text.toList))
    fun c : Char => c.isDigit || c == ' '
  have hhead := List.head?_dropWhile_not (fun c : Char => c.isDigit || c == ' ')
    (joinWords (wordsOf text.toList))
  rw [normalWords] at h
  cases hchars : normalizeChars text.toList with
  | nil =>
    rw [hchars] at h
    cases h
  | cons c s =>
    rw [← normalizeChars, hchars] at hsub hhead
    simp only [List.head?_cons, Bool.or_eq_false_iff] at hhead
    obtain ⟨v, vs, hv⟩ := Text.pieces_cons (p := (· == ' ')) hhead.2 s
    rw [hchars, hv, List.filter_cons_of_pos rfl] at h
    refine ⟨c, v, (List.cons.inj h).1.symm, ?_⟩
    rcases halnum c (hsub.mem List.mem_cons_self) with hc | hc
    · simpa [Char.isAlphanum, hhead.1] using hc
    · simp [hc] at hhead

/-- Whether there are words in a text. -/
theorem camelCase_eq_empty : camelCase text = "" ↔ normalWords text = [] := by
  rw [← String.toList_eq_nil_iff, camelCase, String.toList_ofList]
  cases h : normalWords text with
  | nil => exact iff_of_true rfl rfl
  | cons w ws =>
    obtain ⟨hne, -⟩ := mem_normalWords (h ▸ List.mem_cons_self)
    simp [camelChars, hne]

/-- Whether a text begins with a letter. -/
def startsWithLetter (text : String) : Bool :=
  text.toList.head?.any Char.isAlpha

theorem camelCase_ne_empty (h : startsWithLetter text) : camelCase text ≠ "" := by
  rw [startsWithLetter, Option.any_eq_true] at h
  obtain ⟨c, hc, hletter⟩ := h
  obtain ⟨s, hs⟩ := List.head?_eq_some_iff.mp hc
  obtain ⟨t, ht⟩ := normalizeChars_of_isAlpha hletter s
  rw [Ne, camelCase_eq_empty, normalWords, hs, ht]
  obtain ⟨w, ws, hw⟩ := Text.pieces_cons (p := (· == ' ')) (Text.not_isDigit_of_isAlpha hletter).2 t
  rw [hw, List.filter_cons_of_pos rfl]
  exact List.cons_ne_nil _ _

theorem startsWithLetter_append (h : startsWithLetter name) (suffix : String) :
    startsWithLetter (name ++ suffix) := by
  rw [startsWithLetter, Option.any_eq_true] at h ⊢
  obtain ⟨c, hc, hletter⟩ := h
  refine ⟨c, ?_, hletter⟩
  rw [String.toList_append, List.head?_append, hc]
  rfl

/-- A variable begins with a letter. -/
theorem startsWithLetter_variableName (text : String) : startsWithLetter (variableName text) := by
  rw [variableName]
  split
  · decide
  · rename_i hne
    have hwords : normalWords text ≠ [] := by
      rwa [String.isEmpty_iff, camelCase_eq_empty] at hne
    obtain ⟨w, ws, hw⟩ := List.exists_cons_of_ne_nil hwords
    obtain ⟨c, t, rfl, hletter⟩ := isAlpha_of_normalWords hw
    rw [startsWithLetter, camelCase, String.toList_ofList, hw, camelChars]
    exact Text.isAlpha_toLower hletter

end Naming
end SdkSmith
