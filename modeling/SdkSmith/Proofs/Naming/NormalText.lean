import Mathlib.Data.List.DropRight
import SdkSmith.Proofs.Naming.Identifiers

/-!
Normal text is a fixed point. Each pass over a text leaves alone what it made itself, and no later
pass undoes that: dropping words or digits takes nothing away that a cut depends on. So the words of
normal text are its words.
-/
namespace SdkSmith.Naming

variable {s w : List Char} {ws : List (List Char)} {prev cur : Char}

/-! Camel humps -/

/-- Whether a word is one hump. -/
def IsHump (w : List Char) : Prop :=
  humps w = [w]

theorem IsHump.ne_nil (h : IsHump w) : w ≠ [] := by
  rintro rfl
  cases h

/-- A word that begins at the end of another one begins there whatever follows. -/
theorem beginsWord_of_none (h : beginsWord prev cur none = true) (next : Option Char) :
    beginsWord prev cur next = true := by
  simp only [beginsWord, Option.any_none, Bool.and_false, Bool.or_false, Bool.and_eq_true] at h
  rw [beginsWord, h.1, h.2, Bool.true_or, Bool.and_self]

theorem isHump_cons_cons : IsHump (prev :: cur :: w) ↔
    beginsWord prev cur w.head? = false ∧ IsHump (cur :: w) := by
  obtain ⟨v, vs, hv⟩ := humpsFrom_cons cur w
  have hrest : IsHump (cur :: w) ↔ v = w ∧ vs = [] := by
    rw [IsHump, humps, hv, List.cons.injEq, List.cons.injEq]
    simp
  rw [hrest, IsHump, humps, humpsFrom]
  cases hbegins : beginsWord prev cur w.head? with
  | true => simp
  | false => simp [hv]

/-- A hump is cut no further: at its end less begins than where the next one follows. -/
theorem isHump_of_mem_humpsFrom (prev : Char) (s : List Char) :
    ∀ w ∈ humpsFrom prev s, IsHump w := by
  induction s generalizing prev with
  | nil => exact List.forall_mem_singleton.mpr rfl
  | cons cur rest ih =>
    have hrest := ih cur
    rw [humpsFrom]
    cases hbegins : beginsWord prev cur rest.head? with
    | true => exact List.forall_mem_cons.mpr ⟨rfl, hrest⟩
    | false =>
      obtain ⟨v, vs, hv⟩ := humpsFrom_cons cur rest
      have hflatten := flatten_humpsFrom cur rest
      rw [hv] at hrest hflatten
      rw [List.forall_mem_cons] at hrest
      simp only [Bool.false_eq_true, if_false, hv]
      refine List.forall_mem_cons.mpr ⟨isHump_cons_cons.mpr ⟨?_, hrest.1⟩, hrest.2⟩
      cases v with
      | nil =>
        refine Bool.eq_false_iff.mpr fun hnone => ?_
        rw [beginsWord_of_none hnone] at hbegins
        cases hbegins
      | cons next v =>
        obtain rfl : next :: v ++ vs.flatten = rest := by simpa using hflatten
        exact hbegins

theorem isHump_of_mem_humps (h : w ∈ humps s) : IsHump w := by
  cases s with
  | nil => cases h
  | cons c s => exact isHump_of_mem_humpsFrom c s w h

theorem flatMap_humps (h : ∀ w ∈ ws, IsHump w) : ws.flatMap humps = ws := by
  induction ws with
  | nil => rfl
  | cons w ws ih =>
    rw [List.forall_mem_cons] at h
    rw [List.flatMap_cons, h.1, ih h.2, List.singleton_append]

/-- What is left of a hump is one. -/
theorem IsHump.dropWhile (h : IsHump w) (p : Char → Bool) (hne : w.dropWhile p ≠ []) :
    IsHump (w.dropWhile p) := by
  induction w with
  | nil => exact absurd rfl hne
  | cons c w ih =>
    by_cases hc : p c
    · rw [List.dropWhile_cons_of_pos hc] at hne ⊢
      cases w with
      | nil => exact absurd rfl hne
      | cons d w => exact ih (isHump_cons_cons.mp h).2 hne
    · rwa [List.dropWhile_cons_of_neg hc]

/-! Fillers -/

theorem dropFillersBeforeLast_twice (ws : List (List Char)) :
    dropFillersBeforeLast (dropFillersBeforeLast ws) = dropFillersBeforeLast ws := by
  fun_induction dropFillersBeforeLast ws with
  | case1 => rfl
  | case2 => rfl
  | case3 w v r h ih => exact ih
  | case4 w v r h ih =>
    cases hrest : dropFillersBeforeLast (v :: r) with
    | nil => rfl
    | cons u us =>
      rw [hrest] at ih
      rw [dropFillersBeforeLast, if_neg h, ih]

/-- Whether a word further on is a filler does not depend on the word in front. -/
theorem dropFillersBeforeLast_of_cons (h : dropFillersBeforeLast (w :: ws) = w :: ws) :
    dropFillersBeforeLast ws = ws := by
  cases ws with
  | nil => rfl
  | cons v ws =>
    rw [dropFillersBeforeLast] at h
    split at h
    · have hlength := (dropFillersBeforeLast_sublist (v :: ws)).length_le
      rw [h, List.length_cons, List.length_cons] at hlength
      omega
    · exact (List.cons.inj h).2

/-! Leading digits -/

/-- Words without the digits in front. -/
def trimDigits : List (List Char) → List (List Char)
  | [] => []
  | w :: ws =>
    match w.dropWhile Char.isDigit with
    | [] => trimDigits ws
    | c :: v => (c :: v) :: ws

theorem trimDigits_cons_of_digits (h : w.dropWhile Char.isDigit = []) (ws : List (List Char)) :
    trimDigits (w :: ws) = trimDigits ws := by
  rw [trimDigits, h]

theorem trimDigits_cons_of_ne_nil (h : w.dropWhile Char.isDigit ≠ []) (ws : List (List Char)) :
    trimDigits (w :: ws) = w.dropWhile Char.isDigit :: ws := by
  obtain ⟨c, v, hv⟩ := List.exists_cons_of_ne_nil h
  rw [trimDigits, hv]

theorem trimDigits_twice (ws : List (List Char)) :
    trimDigits (trimDigits ws) = trimDigits ws := by
  induction ws with
  | nil => rfl
  | cons w ws ih =>
    by_cases hw : w.dropWhile Char.isDigit = []
    · rw [trimDigits_cons_of_digits hw, ih]
    · have hagain : (w.dropWhile Char.isDigit).dropWhile Char.isDigit =
          w.dropWhile Char.isDigit := List.dropWhile_idempotent _ _
      rw [trimDigits_cons_of_ne_nil hw, trimDigits_cons_of_ne_nil (by rwa [hagain]), hagain]

/-- There are no blanks in a word. -/
theorem dropWhile_digit_or_blank (h : ∀ c ∈ w, c.isAlphanum) :
    (w.dropWhile fun c => c.isDigit || c == ' ') = w.dropWhile Char.isDigit := by
  induction w with
  | nil => rfl
  | cons c w ih =>
    rw [List.forall_mem_cons] at h
    have hblank : (c == ' ') = false := by
      rw [beq_eq_false_iff_ne]
      rintro rfl
      cases h.1
    rw [List.dropWhile_cons, List.dropWhile_cons, hblank, Bool.or_false, ih h.2]

/-- Dropping digits and blanks in front of a text drops the digits in front of its words. -/
theorem dropWhile_joinWords (h : ∀ w ∈ ws, ∀ c ∈ w, c.isAlphanum) :
    ((joinWords ws).dropWhile fun c => c.isDigit || c == ' ') = joinWords (trimDigits ws) := by
  induction ws with
  | nil => rfl
  | cons w ws ih =>
    rw [List.forall_mem_cons] at h
    have hword := dropWhile_digit_or_blank h.1
    cases ws with
    | nil =>
      rw [joinWords, List.intercalate_singleton, hword]
      by_cases hw : w.dropWhile Char.isDigit = []
      · rw [trimDigits_cons_of_digits hw, hw]
        rfl
      · rw [trimDigits_cons_of_ne_nil hw, joinWords, List.intercalate_singleton]
    | cons v ws =>
      rw [joinWords, List.intercalate_cons_cons, List.append_assoc, ← joinWords,
        List.dropWhile_append, hword]
      by_cases hw : w.dropWhile Char.isDigit = []
      · rw [trimDigits_cons_of_digits hw, ← ih h.2, hw]
        rfl
      · rw [trimDigits_cons_of_ne_nil hw, if_neg (by simpa using hw), joinWords, joinWords,
          List.intercalate_cons_cons, List.append_assoc]

/-! Rows of words -/

/-- Whether words are those of a text: of letters and digits, each one hump, and no filler between
the first and the last. -/
structure IsRow (ws : List (List Char)) : Prop where
  isAlphanum : ∀ w ∈ ws, ∀ c ∈ w, c.isAlphanum
  isHump : ∀ w ∈ ws, IsHump w
  fillers : dropFillers ws = ws

theorem isRow_wordsOf (s : List Char) : IsRow (wordsOf s) := by
  constructor
  case isAlphanum => exact fun w hw => isAlphanum_wordsOf hw
  case isHump =>
    intro w hw
    obtain ⟨run, -, hhump⟩ := List.mem_flatMap.mp ((dropFillers_sublist _).mem hw)
    exact isHump_of_mem_humps hhump
  case fillers =>
    rw [wordsOf]
    cases (alnumRuns (stripPossessive (fold s))).flatMap humps with
    | nil => rfl
    | cons w ws => rw [dropFillers, dropFillers, dropFillersBeforeLast_twice]

theorem IsRow.of_cons (h : IsRow (w :: ws)) : IsRow ws := by
  have hrest : dropFillersBeforeLast ws = ws := (List.cons.inj h.fillers).2
  constructor
  case isAlphanum => exact fun v hv => h.isAlphanum v (List.mem_cons_of_mem w hv)
  case isHump => exact fun v hv => h.isHump v (List.mem_cons_of_mem w hv)
  case fillers =>
    cases ws with
    | nil => rfl
    | cons v ws => rw [dropFillers, dropFillersBeforeLast_of_cons hrest]

/-- The digits in front of words may go. -/
theorem IsRow.trimDigits (h : IsRow ws) : IsRow (trimDigits ws) := by
  induction ws with
  | nil => exact h
  | cons w ws ih =>
    by_cases hw : w.dropWhile Char.isDigit = []
    · rw [trimDigits_cons_of_digits hw]
      exact ih h.of_cons
    · rw [trimDigits_cons_of_ne_nil hw]
      constructor
      case isAlphanum =>
        refine List.forall_mem_cons.mpr ⟨fun c hc => ?_, h.of_cons.isAlphanum⟩
        exact h.isAlphanum w List.mem_cons_self c ((List.dropWhile_sublist _).mem hc)
      case isHump =>
        refine List.forall_mem_cons.mpr ⟨?_, h.of_cons.isHump⟩
        exact (h.isHump w List.mem_cons_self).dropWhile _ hw
      case fillers =>
        rw [dropFillers, (List.cons.inj h.fillers).2]

/-! Words of words -/

theorem fold_eq_self (h : ∀ c ∈ s, c.toNat < 128) : fold s = s := by
  induction s with
  | nil => rfl
  | cons c s ih =>
    rw [List.forall_mem_cons] at h
    have hfold : foldChar c = [c] := if_pos h.1
    rw [fold, List.flatMap_cons, hfold, ← fold, ih h.2, List.singleton_append]

theorem stripPossessive_eq_self (h : '\'' ∉ s) : stripPossessive s = s := by
  fun_induction stripPossessive s with
  | case1 => exact absurd List.mem_cons_self h
  | case2 => exact absurd List.mem_cons_self h
  | case3 c r hc ih => rw [ih fun hr => h (List.mem_cons_of_mem c hr)]
  | case4 => rfl

theorem alnumRuns_joinWords (hne : ∀ w ∈ ws, w ≠ []) (h : ∀ w ∈ ws, ∀ c ∈ w, c.isAlphanum) :
    alnumRuns (joinWords ws) = ws := by
  by_cases hws : ws = []
  · rw [hws]
    rfl
  · have hpieces : Text.pieces (fun c => !c.isAlphanum) (joinWords ws) = ws :=
      Text.pieces_intercalate hws (fun w hw c hc => by rw [h w hw c hc]; rfl) rfl
    rw [alnumRuns, hpieces, List.filter_eq_self]
    intro w hw
    simpa using hne w hw

/-- The words of a row that is put together are those of the row. -/
theorem IsRow.wordsOf_joinWords (h : IsRow ws) : wordsOf (joinWords ws) = ws := by
  have hchars := isAlphanum_joinWords h.isAlphanum
  have hfold : fold (joinWords ws) = joinWords ws := by
    refine fold_eq_self fun c hc => ?_
    rcases hchars c hc with halnum | rfl
    · exact Text.lt_of_isAlphanum halnum
    · decide
  have hstrip : stripPossessive (joinWords ws) = joinWords ws := by
    refine stripPossessive_eq_self fun hquote => ?_
    rcases hchars _ hquote with halnum | hblank
    · cases halnum
    · cases hblank
  have hruns := alnumRuns_joinWords (fun w hw => (h.isHump w hw).ne_nil) h.isAlphanum
  rw [wordsOf, hfold, hstrip, hruns, flatMap_humps h.isHump, h.fillers]

theorem normalizeChars_eq (s : List Char) :
    normalizeChars s = joinWords (trimDigits (wordsOf s)) :=
  dropWhile_joinWords (isRow_wordsOf s).isAlphanum

theorem normalizeChars_twice (s : List Char) :
    normalizeChars (normalizeChars s) = normalizeChars s := by
  have hrow := (isRow_wordsOf s).trimDigits
  calc normalizeChars (normalizeChars s)
      = joinWords (trimDigits (wordsOf (joinWords (trimDigits (wordsOf s))))) := by
        rw [normalizeChars_eq, normalizeChars_eq]
    _ = joinWords (trimDigits (trimDigits (wordsOf s))) := by rw [hrow.wordsOf_joinWords]
    _ = normalizeChars s := by rw [trimDigits_twice, normalizeChars_eq]

/-! Normal text -/

/-- Whether a text is normal: words of letters and digits with one blank between them, of which none
is empty, no blank at either end, and no digit in front. -/
structure IsNormal (text : String) : Prop where
  words : ∃ ws : List String, text = " ".intercalate ws ∧ ∀ w ∈ ws, w ≠ "" ∧ IsAlphanum w
  first : ∀ c, text.toList.head? = some c → c.isDigit = false ∧ c ≠ ' '
  last : text.toList.getLast? ≠ some ' '

/-- Words that are put together end in the last letter or digit of the last one. -/
theorem exists_joinWords_concat (hne : ws ≠ []) (h : ∀ w ∈ ws, w ≠ [] ∧ ∀ c ∈ w, c.isAlphanum) :
    ∃ t c, joinWords ws = t ++ [c] ∧ c.isAlphanum := by
  induction ws with
  | nil => exact absurd rfl hne
  | cons w ws ih =>
    rw [List.forall_mem_cons] at h
    cases ws with
    | nil =>
      refine ⟨w.dropLast, w.getLast h.1.1, ?_, h.1.2 _ (List.getLast_mem _)⟩
      rw [joinWords, List.intercalate_singleton, List.dropLast_append_getLast]
    | cons v ws =>
      obtain ⟨t, c, heq, hc⟩ := ih (List.cons_ne_nil v ws) h.2
      refine ⟨w ++ [' '] ++ t, c, ?_, hc⟩
      rw [joinWords, List.intercalate_cons_cons, ← joinWords, heq, ← List.append_assoc]

theorem IsRow.last_joinWords (h : IsRow ws) : (joinWords ws).getLast? ≠ some ' ' := by
  by_cases hws : ws = []
  · rw [hws]
    decide
  · obtain ⟨t, c, heq, hc⟩ := exists_joinWords_concat hws
      fun w hw => ⟨(h.isHump w hw).ne_nil, h.isAlphanum w hw⟩
    rw [heq, List.getLast?_concat, Ne, Option.some_inj]
    rintro rfl
    cases hc

/-- The words of a row, as texts. -/
theorem IsRow.words_joinWords (h : IsRow ws) :
    ∃ ts : List String, String.ofList (joinWords ws) = " ".intercalate ts ∧
      ∀ t ∈ ts, t ≠ "" ∧ IsAlphanum t := by
  refine ⟨ws.map String.ofList, ?_, ?_⟩
  · rw [← String.toList_inj, String.toList_ofList, String.toList_intercalate, List.map_map]
    have hwords : ws.map (String.toList ∘ String.ofList) = ws := by simp [Function.comp_def]
    rw [hwords]
    rfl
  · rw [List.forall_mem_map]
    intro w hw
    refine ⟨fun hempty => (h.isHump w hw).ne_nil ?_, ?_⟩
    · simpa using hempty
    · rw [IsAlphanum, String.toList_ofList]
      exact h.isAlphanum w hw

/-- Normalizing makes a text normal, and a second time it changes nothing. The texts that it leaves
as they are are those of the rows of words that have no digits in front. -/
theorem normalize_isNormal (text : String) :
    normalize (normalize text) = normalize text ∧ IsNormal (normalize text) ∧
      (normalize text = text ↔
        ∃ ws, IsRow ws ∧ trimDigits ws = ws ∧ text = String.ofList (joinWords ws)) := by
  have hrow := (isRow_wordsOf text.toList).trimDigits
  have hnormal : normalize text = String.ofList (joinWords (trimDigits (wordsOf text.toList))) := by
    rw [normalize, normalizeChars_eq]
  refine ⟨?_, ?_, ?_⟩
  · rw [normalize, normalize, String.toList_ofList, normalizeChars_twice]
  · constructor
    case words =>
      rw [hnormal]
      exact hrow.words_joinWords
    case first =>
      intro c hc
      have hhead := List.head?_dropWhile_not (fun c : Char => c.isDigit || c == ' ')
        (joinWords (wordsOf text.toList))
      rw [normalize, String.toList_ofList, normalizeChars] at hc
      rw [hc] at hhead
      simpa using hhead
    case last =>
      rw [hnormal, String.toList_ofList]
      exact hrow.last_joinWords
  · constructor
    · intro hsame
      exact ⟨_, hrow, trimDigits_twice _, hsame.symm.trans hnormal⟩
    · rintro ⟨ws, hws, htrim, rfl⟩
      rw [normalize, String.toList_ofList, normalizeChars_eq, hws.wordsOf_joinWords, htrim]

example : normalize "2. Find the café's HTTPServer in a list" =
    "Find the cafe HTTP Server in list" := by decide +kernel

end SdkSmith.Naming
