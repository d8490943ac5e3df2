import SdkSmith.Proofs.Client.Plan.ClassNames
import SdkSmith.Proofs.Naming.NormalText
import SdkSmith.Proofs.Naming.Remembering

/-!
Which texts are names. Whatever a variable or a class is named for, its name is a letter of the
right case and then letters and digits, and a class has no name that is reserved; such a name is
its own.
-/
namespace SdkSmith

namespace Text
variable {c : Char} {w : List Char}

theorem isLower_toLower (h : c.isAlpha) : c.toLower.isLower :=
  of_ascii (P := fun c => c.isAlpha → c.toLower.isLower) (by decide +kernel)
    (lt_of_isAlphanum (isAlphanum_of_isAlpha h)) h

theorem isUpper_toUpper (h : c.isAlpha) : c.toUpper.isUpper :=
  of_ascii (P := fun c => c.isAlpha → c.toUpper.isUpper) (by decide +kernel)
    (lt_of_isAlphanum (isAlphanum_of_isAlpha h)) h

theorem isAlpha_of_isUpper (h : c.isUpper) : c.isAlpha :=
  Bool.or_eq_true_iff.mpr (Or.inl h)

theorem isAlpha_of_isLower (h : c.isLower) : c.isAlpha :=
  Bool.or_eq_true_iff.mpr (Or.inr h)

theorem not_isUpper_of_isLower (h : c.isLower) : c.isUpper = false :=
  of_ascii (P := fun c => c.isLower → c.isUpper = false) (by decide +kernel)
    (lt_of_isAlphanum (isAlphanum_of_isAlpha (isAlpha_of_isLower h))) h

theorem toLower_of_not_isUpper (hc : c.isAlphanum) (h : c.isUpper = false) : c.toLower = c :=
  of_ascii (P := fun c => c.isUpper = false → c.toLower = c) (by decide +kernel)
    (lt_of_isAlphanum hc) h

theorem isLower_or_isDigit (hc : c.isAlphanum) (h : c.isUpper = false) :
    (c.isLower || c.isDigit) = true :=
  of_ascii (P := fun c => c.isAlphanum → c.isUpper = false → (c.isLower || c.isDigit) = true)
    (by decide +kernel) (lt_of_isAlphanum hc) hc h

theorem toUpper_of_isUpper (h : c.isUpper) : c.toUpper = c :=
  of_ascii (P := fun c => c.isUpper → c.toUpper = c) (by decide +kernel)
    (lt_of_isAlphanum (isAlphanum_of_isAlpha (isAlpha_of_isUpper h))) h

theorem capitalize_of_isAlpha (h : c.isAlpha) (w : List Char) :
    capitalize (c :: w) = c.toUpper :: w := by
  rw [capitalize, upperChar, if_pos (lt_of_isAlphanum (isAlphanum_of_isAlpha h)),
    List.singleton_append]

theorem capitalize_of_isUpper (h : c.isUpper) (w : List Char) : capitalize (c :: w) = c :: w := by
  rw [capitalize_of_isAlpha (isAlpha_of_isUpper h), toUpper_of_isUpper h]

end Text

namespace Naming

/-- A name whose first character is of a kind, the others being letters and digits. -/
def IsNameOf (kind : Char → Bool) (name : String) : Prop :=
  ∃ c r, name.toList = c :: r ∧ kind c = true ∧ ∀ x ∈ r, x.isAlphanum

/-- The name of a variable: a small letter, then letters and digits. -/
def IsVariable (name : String) : Prop := IsNameOf Char.isLower name

/-- The name of a class: a capital letter, then letters and digits. -/
def IsClassName (name : String) : Prop := IsNameOf Char.isUpper name

/-- Whether a name is no reserved word in any letter case. -/
def IsUnreserved (name : String) : Prop :=
  ∀ w ∈ reservedWords, Text.lower w ≠ Text.lower name

/-- What classes take on that would have a reserved name, by the kind of the class. -/
def classSuffixes : List String := ["Dto", "Resource", "Request", "Connector"]

variable {text suffix name : String} {kind : Char → Bool} {prev : Char} {s w : List Char}
  {ws : List (List Char)}

/-! Names of a kind -/

theorem IsNameOf.append (h : IsNameOf kind name) (hsuffix : IsAlphanum suffix) :
    IsNameOf kind (name ++ suffix) := by
  obtain ⟨c, r, hname, hc, hr⟩ := h
  refine ⟨c, r ++ suffix.toList, ?_, hc, List.forall_mem_append.mpr ⟨hr, hsuffix⟩⟩
  rw [String.toList_append, hname, List.cons_append]

theorem IsNameOf.numbered (h : IsNameOf kind name) (n : Nat) :
    IsNameOf kind (Naming.numbered name n) :=
  h.append (isAlphanum_toString n)

theorem IsNameOf.freshNumbered (h : IsNameOf kind name) (taken : List String) :
    IsNameOf kind (Naming.freshNumbered taken name) := by
  rcases freshNumbered_eq taken name with heq | ⟨n, heq⟩
  · rwa [heq]
  · rw [heq]
    exact h.numbered n

theorem isNameOf_of_isAlphanum (h : IsAlphanum name) (hfirst : name.toList.head?.any kind) :
    IsNameOf kind name := by
  obtain ⟨c, hc, hkind⟩ := Option.any_eq_true _ _ |>.mp hfirst
  obtain ⟨r, hr⟩ := List.head?_eq_some_iff.mp hc
  rw [IsAlphanum, hr, List.forall_mem_cons] at h
  exact ⟨c, r, hr, hkind, h.2⟩

theorem isNameOf_iff : IsNameOf kind name ↔
    name.toList.head?.any kind = true ∧ name.toList.tail.all Char.isAlphanum = true := by
  rw [IsNameOf]
  generalize name.toList = w
  cases w with
  | nil => simp
  | cons c r => simp

instance (kind : Char → Bool) (name : String) : Decidable (IsNameOf kind name) :=
  decidable_of_iff _ isNameOf_iff.symm

instance (name : String) : Decidable (IsVariable name) :=
  inferInstanceAs (Decidable (IsNameOf Char.isLower name))

instance (name : String) : Decidable (IsClassName name) :=
  inferInstanceAs (Decidable (IsNameOf Char.isUpper name))

theorem isUnreserved_iff : IsUnreserved name ↔ isReserved name = false := by
  have hlower : ∀ w ∈ reservedWords, Text.lower w = w := by decide +kernel
  rw [isReserved_eq_false, IsUnreserved]
  constructor
  · intro h hmem
    exact h _ hmem (hlower _ hmem)
  · intro h w hw heq
    rw [hlower w hw] at heq
    exact h (heq ▸ hw)

theorem isVariable_camelCase (h : camelCase text ≠ "") : IsVariable (camelCase text) := by
  refine isNameOf_of_isAlphanum (isAlphanum_camelCase text) ?_
  rw [Ne, camelCase_eq_empty] at h
  obtain ⟨w, ws, hw⟩ := List.exists_cons_of_ne_nil h
  obtain ⟨c, t, rfl, hletter⟩ := isAlpha_of_normalWords hw
  rw [camelCase, String.toList_ofList, hw, camelChars]
  exact Text.isLower_toLower hletter

theorem isClassName_studlyCase (h : studlyCase text ≠ "") : IsClassName (studlyCase text) := by
  refine isNameOf_of_isAlphanum (isAlphanum_studlyCase text) ?_
  rw [Ne, ← String.toList_eq_nil_iff] at h
  rw [studlyCase, String.toList_ofList] at h ⊢
  cases hw : normalWords text with
  | nil => simp [hw] at h
  | cons w ws =>
    obtain ⟨c, t, rfl, hletter⟩ := isAlpha_of_normalWords hw
    rw [List.flatMap_cons, Text.capitalize_of_isAlpha hletter]
    exact Text.isUpper_toUpper hletter

/-- The name of a variable is one, whatever the variable is named for. -/
theorem isVariable_variableName (text : String) : IsVariable (variableName text) := by
  rw [variableName]
  split
  · decide
  · rename_i hne
    exact isVariable_camelCase (by rwa [String.isEmpty_iff] at hne)

/-- What follows a reserved name keeps the name of a class one. -/
theorem isClassName_className (hsuffix : IsAlphanum suffix) (text : String) :
    IsClassName (className text suffix) := by
  have hname : IsClassName (if (studlyCase text).isEmpty then "Unnamed" else studlyCase text) := by
    split
    · exact isNameOf_of_isAlphanum (isAlphanum_of_all (by decide)) (by decide)
    · rename_i hne
      exact isClassName_studlyCase (by rwa [String.isEmpty_iff] at hne)
  simp only [className]
  generalize (if (studlyCase text).isEmpty then "Unnamed" else studlyCase text) = name at hname ⊢
  split
  · exact hname.append hsuffix
  · exact hname

/-- A suffix is of letters and digits, and no reserved word ends in it. -/
theorem forall_classSuffixes (h : suffix ∈ classSuffixes) :
    IsAlphanum suffix ∧ ∀ w ∈ reservedWords, ¬ (Text.lower suffix).toList <:+ w.toList := by
  have hletters : ∀ suffix ∈ classSuffixes, suffix.toList.all Char.isAlphanum := by decide
  have hends : ∀ suffix ∈ classSuffixes,
      ∀ w ∈ reservedWords, ¬ (Text.lower suffix).toList <:+ w.toList := by decide +kernel
  exact ⟨isAlphanum_of_all (hletters suffix h), hends suffix h⟩

/-! Words of a name -/

theorem normalWords_eq (text : String) : normalWords text = trimDigits (wordsOf text.toList) := by
  have hrow := (isRow_wordsOf text.toList).trimDigits
  rw [normalWords, normalizeChars_eq]
  generalize trimDigits (wordsOf text.toList) = ws at hrow
  by_cases hws : ws = []
  · rw [hws]
    rfl
  · have hpieces : Text.pieces (· == ' ') (joinWords ws) = ws := by
      refine Text.pieces_intercalate hws (fun w hw c hc => ?_) rfl
      rw [beq_eq_false_iff_ne]
      rintro rfl
      cases hrow.isAlphanum w hw _ hc
    rw [hpieces, List.filter_eq_self]
    intro w hw
    simpa using (hrow.isHump w hw).ne_nil

/-- Each hump but the first begins with a capital letter. -/
theorem isUpper_of_mem_tail_humpsFrom (prev : Char) (s : List Char) :
    ∀ w ∈ (humpsFrom prev s).tail, ∃ c r, w = c :: r ∧ c.isUpper := by
  induction s generalizing prev with
  | nil => exact List.forall_mem_nil _
  | cons cur rest ih =>
    have hrest := ih cur
    obtain ⟨v, vs, hv⟩ := humpsFrom_cons cur rest
    rw [humpsFrom]
    rw [hv, List.tail_cons] at hrest
    split
    · rename_i hbegins
      rw [beginsWord, Bool.and_eq_true] at hbegins
      rw [List.tail_cons, hv]
      exact List.forall_mem_cons.mpr ⟨⟨cur, v, rfl, hbegins.1⟩, hrest⟩
    · rw [hv]
      exact hrest

/-- The first hump of a word that begins with no capital letter has none. -/
theorem not_isUpper_of_head_humpsFrom (hs : ∀ c ∈ prev :: s, c.isAlphanum)
    (hprev : prev.isUpper = false) :
    ∃ w ws, humpsFrom prev s = w :: ws ∧ ∀ c ∈ w, c.isUpper = false := by
  induction s generalizing prev with
  | nil => exact ⟨[prev], [], rfl, List.forall_mem_singleton.mpr hprev⟩
  | cons cur rest ih =>
    rw [List.forall_mem_cons] at hs
    have hletter := Text.isLower_or_isDigit hs.1 hprev
    rw [humpsFrom, beginsWord, hletter, Bool.true_or, Bool.and_true]
    cases hcur : cur.isUpper with
    | true => exact ⟨[prev], _, rfl, List.forall_mem_singleton.mpr hprev⟩
    | false =>
      obtain ⟨w, ws, hw, hlow⟩ := ih hs.2 hcur
      rw [hw]
      exact ⟨prev :: w, ws, rfl, List.forall_mem_cons.mpr ⟨hprev, hlow⟩⟩

theorem dropFillersBeforeLast_eq_self (h : ∀ w ∈ ws.dropLast, isFiller w = false) :
    dropFillersBeforeLast ws = ws := by
  fun_induction dropFillersBeforeLast ws with
  | case1 => rfl
  | case2 => rfl
  | case3 w v r hfiller ih =>
    rw [List.dropLast_cons_cons, List.forall_mem_cons] at h
    simp [h.1] at hfiller
  | case4 w v r hfiller ih =>
    rw [List.dropLast_cons_cons, List.forall_mem_cons] at h
    rw [ih h.2]

/-- The words of a name are its humps: there is nothing in it to cut at, and nothing to drop. -/
theorem normalWords_of_isAlphanum (h : IsAlphanum name) (hs : name.toList = prev :: s)
    (hprev : prev.isAlpha) : normalWords name = humpsFrom prev s := by
  rw [IsAlphanum, hs] at h
  have hfold : fold (prev :: s) = prev :: s :=
    fold_eq_self fun c hc => Text.lt_of_isAlphanum (h c hc)
  have hstrip : stripPossessive (prev :: s) = prev :: s :=
    stripPossessive_eq_self fun hquote => by cases h _ hquote
  have hruns : alnumRuns (prev :: s) = [prev :: s] := by
    rw [alnumRuns, Text.pieces_eq_singleton fun c hc => by rw [h c hc]; rfl]
    rfl
  obtain ⟨w, ws, hhumps⟩ := humpsFrom_cons prev s
  have hcapital := isUpper_of_mem_tail_humpsFrom prev s
  rw [hhumps, List.tail_cons] at hcapital
  have hfillers : dropFillersBeforeLast ws = ws := by
    refine dropFillersBeforeLast_eq_self fun v hv => ?_
    obtain ⟨c, r, rfl, hc⟩ := hcapital v (List.mem_of_mem_dropLast hv)
    rw [isFiller, Bool.or_eq_false_iff, beq_eq_false_iff_ne, beq_eq_false_iff_ne]
    constructor
    · rintro ⟨⟩
      cases hc
    · rintro ⟨⟩
      cases hc
  have hwords : wordsOf (prev :: s) = humpsFrom prev s := by
    rw [wordsOf, hfold, hstrip, hruns, List.flatMap_singleton, humps, hhumps, dropFillers, hfillers]
  rw [normalWords_eq, hs, hwords, hhumps, trimDigits,
    List.dropWhile_cons_of_neg (by rw [(Text.not_isDigit_of_isAlpha hprev).1]; decide)]

/-- The humps of a name after the first are capitalized already. -/
theorem flatMap_capitalize (h : ∀ w ∈ ws, ∃ c r, w = c :: r ∧ c.isUpper) :
    ws.flatMap Text.capitalize = ws.flatten := by
  rw [List.flatMap_def]
  congr 1
  refine (List.map_congr_left fun w hw => ?_).trans (List.map_id ws)
  obtain ⟨c, r, rfl, hc⟩ := h w hw
  exact Text.capitalize_of_isUpper hc r

theorem IsNameOf.isAlphanum (h : IsNameOf kind name) (hkind : ∀ c, kind c → c.isAlpha) :
    IsAlphanum name := by
  obtain ⟨c, r, hname, hc, hr⟩ := h
  rw [IsAlphanum, hname]
  exact List.forall_mem_cons.mpr ⟨Text.isAlphanum_of_isAlpha (hkind c hc), hr⟩

theorem IsClassName.isAlphanum (h : IsClassName name) : IsAlphanum name :=
  IsNameOf.isAlphanum h fun _ hc => Text.isAlpha_of_isUpper hc

/-- The name of a variable is its own camel case: its first hump has no capital letter, and all
others begin with one. -/
theorem camelCase_of_isVariable (h : IsVariable name) : camelCase name = name := by
  have halnum := IsNameOf.isAlphanum h fun _ hc => Text.isAlpha_of_isLower hc
  obtain ⟨prev, s, hs, hprev, -⟩ := h
  have hwords := normalWords_of_isAlphanum halnum hs (Text.isAlpha_of_isLower hprev)
  have hcapital := isUpper_of_mem_tail_humpsFrom prev s
  have hflatten := flatten_humpsFrom prev s
  rw [IsAlphanum, hs] at halnum
  obtain ⟨w, ws, hhumps, hlow⟩ :=
    not_isUpper_of_head_humpsFrom halnum (Text.not_isUpper_of_isLower hprev)
  rw [hhumps, List.tail_cons] at hcapital
  rw [hhumps, List.flatten_cons] at hflatten
  have hletters : ∀ c ∈ w, c.isAlphanum := by
    intro c hc
    refine halnum c ?_
    rw [← hflatten]
    exact List.mem_append_left _ hc
  have hlower : w.map Char.toLower = w :=
    (List.map_congr_left fun c hc =>
      Text.toLower_of_not_isUpper (hletters c hc) (hlow c hc)).trans (List.map_id w)
  rw [← String.toList_inj, camelCase, String.toList_ofList, hwords, hhumps, camelChars, hlower,
    flatMap_capitalize hcapital, hflatten, hs]

/-- In studly case a name in letters and digits changes at its first letter only. -/
theorem studlyCase_of_isNameOf (hkind : ∀ c, kind c → c.isAlpha) (h : IsNameOf kind name) :
    studlyCase name = capitalizeFirst name := by
  have halnum := h.isAlphanum hkind
  obtain ⟨prev, s, hs, hprev, -⟩ := h
  have hwords := normalWords_of_isAlphanum halnum hs (hkind prev hprev)
  have hcapital := isUpper_of_mem_tail_humpsFrom prev s
  have hflatten := flatten_humpsFrom prev s
  obtain ⟨w, ws, hhumps⟩ := humpsFrom_cons prev s
  rw [hhumps, List.tail_cons] at hcapital
  rw [hhumps, List.flatten_cons, List.cons_append, List.cons_inj_right] at hflatten
  rw [studlyCase, capitalizeFirst, hwords, hhumps, List.flatMap_cons, flatMap_capitalize hcapital,
    hs, Text.capitalize_of_isAlpha (hkind prev hprev),
    Text.capitalize_of_isAlpha (hkind prev hprev), List.cons_append, hflatten]

theorem studlyCase_of_isClassName (h : IsClassName name) : studlyCase name = name := by
  rw [studlyCase_of_isNameOf (fun _ hc => Text.isAlpha_of_isUpper hc) h]
  obtain ⟨prev, s, hs, hprev, -⟩ := h
  rw [capitalizeFirst, hs, Text.capitalize_of_isUpper hprev, ← hs, String.ofList_toList]

theorem IsNameOf.ne_empty (h : IsNameOf kind name) : name ≠ "" := by
  obtain ⟨c, r, hname, -⟩ := h
  rw [Ne, ← String.toList_eq_nil_iff, hname]
  exact List.cons_ne_nil c r

/-- The name of a variable is named for itself. -/
theorem variableName_of_isVariable (h : IsVariable name) : variableName name = name := by
  rw [variableName, camelCase_of_isVariable h, if_neg]
  rw [String.isEmpty_iff]
  exact h.ne_empty

/-- The name of a class is named for itself. -/
theorem className_of_isClassName (h : IsClassName name) (hfree : isReserved name = false)
    (suffix : String) : className name suffix = name := by
  have hne : name.isEmpty = false := by
    rw [Bool.eq_false_iff, Ne, String.isEmpty_iff]
    exact h.ne_empty
  simp only [className, studlyCase_of_isClassName h, hne, Bool.false_eq_true, if_false, hfree]

/-! Answers -/

/-- Whatever was asked before, the name for a text is that of a variable or a class, for a class of
any kind one that is not reserved. The texts that are answered by themselves are these names. -/
theorem answerAfter_isLegal (earlier : List NameRequest) (text : String) :
    IsVariable (answerAfter earlier (.variable text)) ∧
    IsVariable (answerAfter earlier (.credential text)) ∧
    (answerAfter earlier (.variable text) = text ↔ IsVariable text) ∧
    ∀ suffix ∈ classSuffixes, IsClassName (answerAfter earlier (.class text suffix)) ∧
      IsUnreserved (answerAfter earlier (.class text suffix)) ∧
      (answerAfter earlier (.class text suffix) = text ↔
        IsClassName text ∧ IsUnreserved text) := by
  simp only [answerAfter_eq, NameRequest.name, isUnreserved_iff]
  refine ⟨isVariable_variableName text, isVariable_variableName _, ?_, fun suffix hsuffix => ?_⟩
  · refine ⟨fun hsame => ?_, variableName_of_isVariable⟩
    have hname := isVariable_variableName text
    rwa [hsame] at hname
  · obtain ⟨hletters, hends⟩ := forall_classSuffixes hsuffix
    have hname := isClassName_className hletters text
    have hfree := isReserved_className hends text
    refine ⟨hname, hfree, fun hsame => ?_, fun h => className_of_isClassName h.1 h.2 suffix⟩
    rw [hsame] at hname hfree
    exact ⟨hname, hfree⟩

theorem answerAfter_list_isLegal :
    "Resource" ∈ classSuffixes ∧
      answerAfter [.class "../list" "Dto", .variable "../list"] (.class "../list" "Resource") =
        "ListResource" ∧
      IsClassName
        (answerAfter [.class "../list" "Dto", .variable "../list"] (.class "../list" "Resource")) ∧
      IsUnreserved
        (answerAfter [.class "../list" "Dto", .variable "../list"]
          (.class "../list" "Resource")) := by
  have hsuffix : "Resource" ∈ classSuffixes := by decide
  obtain ⟨hname, hfree, -⟩ := (answerAfter_isLegal
    [.class "../list" "Dto", .variable "../list"] "../list").2.2.2 "Resource" hsuffix
  exact ⟨hsuffix, by decide +kernel, hname, hfree⟩

end Naming
end SdkSmith
