import SdkSmith.Proofs.Naming.LegalNames

/-!
How names are spelled. A name in camel or studly case is read back as it is, though other words may
be found in it than it was made from. Words have one name, whatever separates them and where humps
take the place of separators.
-/
namespace SdkSmith.Naming

/-! Names that are read back -/

/-- Casing a second time changes nothing, and a variable becomes a class by its first letter alone.
The texts that casing leaves as they are, the empty one aside, are those that are names. -/
theorem casing_stable (text : String) :
    camelCase (camelCase text) = camelCase text ∧
    studlyCase (studlyCase text) = studlyCase text ∧
    studlyCase (camelCase text) = capitalizeFirst (camelCase text) ∧
    (camelCase text = text ↔ text = "" ∨ IsVariable text) ∧
    (studlyCase text = text ↔ text = "" ∨ IsClassName text) := by
  have hcamel : camelCase text = "" ∨ IsVariable (camelCase text) :=
    or_iff_not_imp_left.mpr isVariable_camelCase
  have hstudly : studlyCase text = "" ∨ IsClassName (studlyCase text) :=
    or_iff_not_imp_left.mpr isClassName_studlyCase
  have hcamelFixed : ∀ {name}, name = "" ∨ IsVariable name → camelCase name = name := by
    rintro name (rfl | h)
    · decide
    · exact camelCase_of_isVariable h
  have hstudlyFixed : ∀ {name}, name = "" ∨ IsClassName name → studlyCase name = name := by
    rintro name (rfl | h)
    · decide
    · exact studlyCase_of_isClassName h
  refine ⟨hcamelFixed hcamel, hstudlyFixed hstudly, ?_, ?_, ?_⟩
  · rcases hcamel with hempty | h
    · rw [hempty]
      decide
    · exact studlyCase_of_isNameOf (fun _ hc => Text.isAlpha_of_isLower hc) h
  · exact ⟨fun hsame => hsame ▸ hcamel, hcamelFixed⟩
  · exact ⟨fun hsame => hsame ▸ hstudly, hstudlyFixed⟩

example : normalWords "xYZ" = [['x'], ['Y', 'Z']] ∧ camelCase "x y z" = "xYZ" := by decide +kernel

/-! Spellings of words -/

/-- A small letter, then small letters and digits. -/
def IsPlainWord (w : String) : Prop :=
  w.toList.head?.any Char.isLower = true ∧
    w.toList.all (fun c => c.isLower || c.isDigit) = true

instance (w : String) : Decidable (IsPlainWord w) :=
  inferInstanceAs (Decidable (_ ∧ _))

/-- Some ASCII characters, none of which is a letter, a digit or an apostrophe. -/
def IsSeparator (sep : String) : Prop :=
  sep ≠ "" ∧ ∀ c ∈ sep.toList, c.toNat < 128 ∧ c.isAlphanum = false ∧ c ≠ '\''

instance (sep : String) : Decidable (IsSeparator sep) :=
  have : Decidable (∀ c ∈ sep.toList, c.toNat < 128 ∧ c.isAlphanum = false ∧ c ≠ '\'') :=
    List.decidableBAll _ sep.toList
  instDecidableAnd

/-- Words with separators between them, not all of which need be the same. -/
inductive Separated : List String → String → Prop
  | word (w : String) : Separated [w] w
  | cons (w : String) {sep text : String} {ws : List String} (hsep : IsSeparator sep)
      (h : Separated ws text) : Separated (w :: ws) (w ++ sep ++ text)

/-- A word with its first letter in upper case. -/
def raised (w : String) : String :=
  String.ofList (w.toList.modifyHead Char.toUpper)

/-- Words without separators, each later one with its first letter in upper case. -/
def humped : List String → String
  | [] => ""
  | w :: ws => w ++ String.join (ws.map raised)

/-- The ways to spell words as one text. -/
def IsSpelling (ws : List String) (text : String) : Prop :=
  Separated ws text ∨ text = humped ws

variable {c : Char} {w : List Char} {ws : List String} {text sep v : String}

theorem separated_intercalate (hsep : IsSeparator sep) (hne : ws ≠ []) :
    Separated ws (sep.intercalate ws) := by
  induction ws with
  | nil => exact absurd rfl hne
  | cons w ws ih =>
    by_cases hws : ws = []
    · rw [hws, String.intercalate_singleton]
      exact .word w
    · rw [String.intercalate_cons_of_ne_nil hws]
      exact .cons w hsep (ih hws)

/-! Plain words -/

theorem IsPlainWord.exists_cons (h : IsPlainWord v) :
    ∃ c r, v.toList = c :: r ∧ c.isLower ∧ ∀ x ∈ v.toList, (x.isLower || x.isDigit) = true := by
  obtain ⟨hfirst, hall⟩ := h
  obtain ⟨c, hc, hlower⟩ := Option.any_eq_true _ _ |>.mp hfirst
  obtain ⟨r, hr⟩ := List.head?_eq_some_iff.mp hc
  exact ⟨c, r, hr, hlower, List.all_eq_true.mp hall⟩

theorem IsPlainWord.isAlphanum (h : IsPlainWord v) : IsAlphanum v := by
  obtain ⟨-, -, -, -, hall⟩ := h.exists_cons
  intro c hc
  have hc := hall c hc
  rw [Bool.or_eq_true] at hc
  rcases hc with hlower | hdigit
  · exact Text.isAlphanum_of_isAlpha (Text.isAlpha_of_isLower hlower)
  · rw [Char.isAlphanum, hdigit, Bool.or_true]

theorem IsPlainWord.isVariable (h : IsPlainWord v) : IsVariable v :=
  isNameOf_of_isAlphanum h.isAlphanum h.1

theorem isHump_of_not_isUpper (hne : w ≠ []) (h : ∀ c ∈ w, c.isUpper = false) : IsHump w := by
  induction w with
  | nil => exact absurd rfl hne
  | cons prev w ih =>
    rw [List.forall_mem_cons] at h
    cases w with
    | nil => rfl
    | cons cur w =>
      have hbegins : beginsWord prev cur w.head? = false := by
        rw [beginsWord, h.2 cur List.mem_cons_self, Bool.false_and]
      exact isHump_cons_cons.mpr ⟨hbegins, ih (List.cons_ne_nil cur w) h.2⟩

theorem IsPlainWord.isHump (h : IsPlainWord v) : IsHump v.toList := by
  obtain ⟨c, r, hv, -, hall⟩ := h.exists_cons
  refine isHump_of_not_isUpper (hv ▸ List.cons_ne_nil c r) fun c hc => ?_
  exact Text.of_ascii (P := fun c => (c.isLower || c.isDigit) = true → c.isUpper = false)
    (by decide +kernel) (Text.lt_of_isAlphanum (h.isAlphanum c hc)) (hall c hc)

theorem IsPlainWord.capitalize (h : IsPlainWord v) :
    Text.capitalize v.toList = (raised v).toList := by
  obtain ⟨c, r, hv, hc, -⟩ := h.exists_cons
  rw [raised, String.toList_ofList, hv, Text.capitalize_of_isAlpha (Text.isAlpha_of_isLower hc),
    List.modifyHead_cons]

theorem IsPlainWord.isAlphanum_raised (h : IsPlainWord v) : IsAlphanum (raised v) := by
  rw [IsAlphanum, ← h.capitalize]
  exact Text.isAlphanum_capitalize h.isAlphanum

/-! Separated words -/

theorem alnumRuns_append_of_not (h : ∀ c ∈ w, c.isAlphanum = false) (s : List Char) :
    alnumRuns (w ++ s) = alnumRuns s := by
  induction w with
  | nil => rfl
  | cons c w ih =>
    rw [List.forall_mem_cons] at h
    rw [List.cons_append, alnumRuns, Text.pieces, if_pos (by rw [h.1]; rfl),
      List.filter_cons_of_neg (by decide)]
    exact ih h.2

theorem alnumRuns_append_cons (hne : w ≠ []) (h : ∀ c ∈ w, c.isAlphanum)
    (hc : c.isAlphanum = false) (s : List Char) :
    alnumRuns (w ++ c :: s) = w :: alnumRuns s := by
  rw [alnumRuns, Text.pieces_append_cons (fun c hc => by rw [h c hc]; rfl) (by rw [hc]; rfl),
    List.filter_cons_of_pos (by simpa using hne)]
  rfl

theorem Separated.alnumRuns (h : Separated ws text) (hwords : ∀ w ∈ ws, IsPlainWord w) :
    alnumRuns text.toList = ws.map String.toList := by
  induction h with
  | word w =>
    obtain ⟨c, r, hw, -⟩ := (hwords w List.mem_cons_self).exists_cons
    have hletters := (hwords w List.mem_cons_self).isAlphanum
    rw [Naming.alnumRuns, Text.pieces_eq_singleton fun c hc => by rw [hletters c hc]; rfl, hw]
    simp [hw]
  | @cons sep ws text w hsep h ih =>
    rw [List.forall_mem_cons] at hwords
    obtain ⟨c, r, hw, -⟩ := hwords.1.exists_cons
    obtain ⟨hne, hchars⟩ := hsep
    obtain ⟨d, sep', hsep'⟩ := List.exists_cons_of_ne_nil (mt String.toList_eq_nil_iff.mp hne)
    rw [hsep', List.forall_mem_cons] at hchars
    rw [String.toList_append, String.toList_append, hsep', List.append_assoc, List.cons_append,
      alnumRuns_append_cons (hw ▸ List.cons_ne_nil c r) hwords.1.isAlphanum hchars.1.2.1,
      alnumRuns_append_of_not fun c hc => (hchars.2 c hc).2.1, ih hwords.2, List.map_cons]

/-- There is nothing to fold in separated words, and no possessive ending. -/
theorem Separated.isPlain (h : Separated ws text) (hwords : ∀ w ∈ ws, IsPlainWord w) :
    ∀ c ∈ text.toList, c.toNat < 128 ∧ c ≠ '\'' := by
  have hword : ∀ w, IsPlainWord w → ∀ c ∈ w.toList, c.toNat < 128 ∧ c ≠ '\'' := by
    intro w hw c hc
    have halnum := hw.isAlphanum c hc
    refine ⟨Text.lt_of_isAlphanum halnum, ?_⟩
    rintro rfl
    cases halnum
  induction h with
  | word w => exact hword w (hwords w List.mem_cons_self)
  | cons w hsep h ih =>
    rw [List.forall_mem_cons] at hwords
    rw [String.toList_append, String.toList_append, List.forall_mem_append, List.forall_mem_append]
    exact ⟨⟨hword w hwords.1, fun c hc => ⟨(hsep.2 c hc).1, (hsep.2 c hc).2.2⟩⟩, ih hwords.2⟩

theorem isFiller_toList (hv : v ≠ "a" ∧ v ≠ "an") : isFiller v.toList = false := by
  rw [isFiller, Bool.or_eq_false_iff, beq_eq_false_iff_ne, beq_eq_false_iff_ne]
  exact ⟨fun h => hv.1 (String.toList_inj.mp h), fun h => hv.2 (String.toList_inj.mp h)⟩

theorem Separated.normalWords (h : Separated ws text) (hwords : ∀ w ∈ ws, IsPlainWord w)
    (hfillers : ∀ w ∈ ws.tail.dropLast, w ≠ "a" ∧ w ≠ "an") :
    normalWords text = ws.map String.toList := by
  have hplain := h.isPlain hwords
  have hfold : fold text.toList = text.toList := fold_eq_self fun c hc => (hplain c hc).1
  have hstrip : stripPossessive text.toList = text.toList :=
    stripPossessive_eq_self fun hquote => (hplain _ hquote).2 rfl
  have hhumps : (ws.map String.toList).flatMap humps = ws.map String.toList :=
    flatMap_humps (List.forall_mem_map.mpr fun w hw => (hwords w hw).isHump)
  cases ws with
  | nil => cases h
  | cons w ws =>
    have hrest : dropFillersBeforeLast (ws.map String.toList) = ws.map String.toList := by
      refine dropFillersBeforeLast_eq_self ?_
      rw [← List.map_dropLast, List.forall_mem_map]
      exact fun v hv => isFiller_toList (hfillers v hv)
    obtain ⟨c, r, hw, hc, -⟩ := (hwords w List.mem_cons_self).exists_cons
    have hdigit := (Text.not_isDigit_of_isAlpha (Text.isAlpha_of_isLower hc)).1
    rw [normalWords_eq, wordsOf, hfold, hstrip, h.alnumRuns hwords, hhumps, List.map_cons,
      dropFillers, hrest, hw, trimDigits, List.dropWhile_cons_of_neg (by rw [hdigit]; decide)]

/-! Names of words -/

theorem toList_humped (w : String) (ws : List String) :
    (humped (w :: ws)).toList = w.toList ++ ws.flatMap fun v => (raised v).toList := by
  rw [humped, String.toList_append, String.toList_join, List.flatMap_map]

theorem camelCase_of_normalWords (hwords : ∀ w ∈ ws, IsPlainWord w)
    (h : normalWords text = ws.map String.toList) : camelCase text = humped ws := by
  cases ws with
  | nil =>
    rw [camelCase, h]
    rfl
  | cons w ws =>
    rw [List.forall_mem_cons] at hwords
    have hfirst : w.toList.map Char.toLower = w.toList := by
      obtain ⟨-, -, -, -, hall⟩ := hwords.1.exists_cons
      refine (List.map_congr_left fun c hc => ?_).trans (List.map_id _)
      exact Text.of_ascii (P := fun c => (c.isLower || c.isDigit) = true → c.toLower = c)
        (by decide +kernel) (Text.lt_of_isAlphanum (hwords.1.isAlphanum c hc)) (hall c hc)
    rw [← String.toList_inj, camelCase, String.toList_ofList, h, List.map_cons, camelChars, hfirst,
      toList_humped, List.flatMap_map]
    congr 1
    exact List.flatMap_congr fun v hv => (hwords.2 v hv).capitalize

theorem isVariable_humped (hne : ws ≠ []) (hwords : ∀ w ∈ ws, IsPlainWord w) :
    IsVariable (humped ws) := by
  obtain ⟨w, ws, rfl⟩ := List.exists_cons_of_ne_nil hne
  rw [List.forall_mem_cons] at hwords
  refine hwords.1.isVariable.append ?_
  rw [IsAlphanum, String.toList_join, List.flatMap_map]
  intro c hc
  obtain ⟨v, hv, hc⟩ := List.mem_flatMap.mp hc
  exact (hwords.2 v hv).isAlphanum_raised c hc

/-- Plain words, of which only the first and the last may be articles, have one name in camel case,
with whatever separators or with humps they are spelled: that with humps. -/
theorem camelCase_spelling (hne : ws ≠ []) (hwords : ∀ w ∈ ws, IsPlainWord w)
    (hfillers : ∀ w ∈ ws.tail.dropLast, w ≠ "a" ∧ w ≠ "an") :
    (∀ sep, IsSeparator sep → IsSpelling ws (sep.intercalate ws)) ∧ IsSpelling ws (humped ws) ∧
      ∀ text, IsSpelling ws text → camelCase text = humped ws := by
  refine ⟨fun sep hsep => Or.inl (separated_intercalate hsep hne), Or.inr rfl, ?_⟩
  rintro text (h | rfl)
  · exact camelCase_of_normalWords hwords (h.normalWords hwords hfillers)
  · exact camelCase_of_isVariable (isVariable_humped hne hwords)

/-- An article at either end, words of one letter, and a digit. -/
theorem camelCase_article_spelling :
    ["an", "x", "y", "user2", "a"] ≠ [] ∧
    (∀ w ∈ ["an", "x", "y", "user2", "a"], IsPlainWord w) ∧
    (∀ w ∈ ["an", "x", "y", "user2", "a"].tail.dropLast, w ≠ "a" ∧ w ≠ "an") ∧
    IsSeparator "_" ∧
    camelCase "an_x_y_user2_a" = "anXYUser2A" ∧
    camelCase "an x-y/user2. a" = "anXYUser2A" ∧
    camelCase "anXYUser2A" = "anXYUser2A" := by
  have hne : ["an", "x", "y", "user2", "a"] ≠ [] := List.cons_ne_nil _ _
  have hwords : ∀ w ∈ ["an", "x", "y", "user2", "a"], IsPlainWord w := by decide
  have hfillers : ∀ w ∈ ["an", "x", "y", "user2", "a"].tail.dropLast, w ≠ "a" ∧ w ≠ "an" := by
    decide
  have hsep : IsSeparator "_" := by decide
  obtain ⟨hjoined, hhumped, hname⟩ := camelCase_spelling hne hwords hfillers
  have hmixed : Separated ["an", "x", "y", "user2", "a"] "an x-y/user2. a" :=
    .cons "an" (by decide : IsSeparator " ") <| .cons "x" (by decide : IsSeparator "-") <|
      .cons "y" (by decide : IsSeparator "/") <| .cons "user2" (by decide : IsSeparator ". ") <|
        .word "a"
  exact ⟨hne, hwords, hfillers, hsep, hname _ (hjoined "_" hsep), hname _ (Or.inl hmixed),
    hname _ hhumped⟩

/-- An article between other words is left out where it is a word of its own. -/
example : camelCase "pick a user" = "pickUser" ∧ camelCase "pickAUser" = "pickAUser" := by
  decide +kernel

end SdkSmith.Naming
