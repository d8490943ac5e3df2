import SdkSmith.Output.Path
import SdkSmith.Proofs.Text.Cutting

/-!
The path of a class by its namespace. What stands below the root namespace becomes directories, and
a name without separators adds one step at the end and nothing else.
-/
namespace SdkSmith

namespace Text

variable {p : Char → Bool} {s t : List Char} {c : Char} {a b : String}

/-! Trimming -/

/-- Whether neither end of a text has to be trimmed. -/
def Trimmed (p : Char → Bool) (s : List Char) : Prop :=
  (∀ c ∈ s.head?, p c = false) ∧ ∀ c ∈ s.getLast?, p c = false

theorem not_of_head?_dropWhile (p : Char → Bool) (s : List Char) :
    ∀ c ∈ (s.dropWhile p).head?, p c = false := by
  induction s with
  | nil => exact fun c hc => by cases hc
  | cons d s ih =>
    rw [List.dropWhile_cons]
    split
    · exact ih
    · rename_i hd
      rintro c ⟨⟩
      exact Bool.eq_false_iff.mpr hd

theorem dropWhile_eq_self (h : ∀ c ∈ s.head?, p c = false) : s.dropWhile p = s := by
  cases s with
  | nil => rfl
  | cons c s => rw [List.dropWhile_cons_of_neg (by rw [h c rfl]; exact Bool.false_ne_true)]

theorem dropEndWhile_eq_self (h : ∀ c ∈ s.getLast?, p c = false) : dropEndWhile p s = s := by
  rw [dropEndWhile, dropWhile_eq_self (by rwa [List.head?_reverse]), List.reverse_reverse]

theorem trimWhile_eq_self (h : Trimmed p s) : trimWhile p s = s := by
  rw [trimWhile, dropWhile_eq_self h.1, dropEndWhile_eq_self h.2]

theorem trimmed_trimWhile (p : Char → Bool) (s : List Char) : Trimmed p (trimWhile p s) := by
  have hhead := not_of_head?_dropWhile p s
  rw [trimWhile]
  generalize s.dropWhile p = r at hhead
  constructor
  · -- what stays of a text begins as it does
    obtain ⟨tail, htail⟩ : dropEndWhile p r <+: r := by
      rw [dropEndWhile, ← List.reverse_suffix, List.reverse_reverse]
      exact List.dropWhile_suffix p
    intro c hc
    refine hhead c ?_
    rw [← htail, List.head?_append, hc]
    rfl
  · rw [dropEndWhile, List.getLast?_reverse]
    exact not_of_head?_dropWhile p r.reverse

theorem Trimmed.append_cons (hs : Trimmed p s) (ht : Trimmed p t) (hs' : s ≠ []) (ht' : t ≠ [])
    (c : Char) : Trimmed p (s ++ c :: t) := by
  obtain ⟨d, s, rfl⟩ := List.exists_cons_of_ne_nil hs'
  obtain ⟨e, t, rfl⟩ := List.exists_cons_of_ne_nil ht'
  refine ⟨hs.1, ?_⟩
  rw [List.getLast?_append, List.getLast?_cons_cons, List.getLast?_cons]
  have hlast := ht.2
  rwa [List.getLast?_cons] at hlast

theorem trimWhile_cons (hc : p c) (h : Trimmed p s) : trimWhile p (c :: s) = s := by
  rw [trimWhile, List.dropWhile_cons_of_pos hc, dropWhile_eq_self h.1, dropEndWhile_eq_self h.2]

theorem trimmed_trimOf (c : Char) (a : String) : Trimmed (· == c) (trimOf c a).toList := by
  rw [trimOf, String.toList_ofList]
  exact trimmed_trimWhile _ _

theorem trimOf_eq_self (h : Trimmed (· == c) a.toList) : trimOf c a = a := by
  rw [trimOf, trimWhile_eq_self h, String.ofList_toList]

theorem trimmed_append (ha : Trimmed p a.toList) (hb : Trimmed p b.toList) (ha' : a ≠ "")
    (hb' : b ≠ "") : Trimmed p (a ++ "\\" ++ b).toList := by
  rw [Ne, ← String.toList_eq_nil_iff] at ha' hb'
  rw [String.toList_append, String.toList_append, List.append_assoc]
  exact ha.append_cons hb ha' hb' '\\'

/-! Splitting -/

theorem pieces_append (hc : p c) (s t : List Char) :
    pieces p (s ++ c :: t) = pieces p s ++ pieces p t := by
  induction s with
  | nil => exact pieces_append_cons (List.forall_mem_nil _) hc t
  | cons d s ih =>
    rw [List.cons_append, pieces, pieces, ih]
    split
    · rfl
    · obtain ⟨w, ws, hw⟩ := List.exists_cons_of_ne_nil (pieces_ne_nil p s)
      rw [hw]
      rfl

theorem split_append (c : Char) (a b : String) :
    split c (a ++ String.ofList [c] ++ b) = split c a ++ split c b := by
  have hpieces := pieces_append (p := (· == c)) (beq_self_eq_true c) a.toList b.toList
  rw [split, String.toList_append, String.toList_append, String.toList_ofList, List.append_assoc,
    List.singleton_append, hpieces, List.map_append]
  rfl

theorem split_eq_singleton (h : c ∉ a.toList) : split c a = [a] := by
  rw [split, pieces_eq_singleton, List.map_singleton, String.ofList_toList]
  intro d hd
  rw [beq_eq_false_iff_ne]
  rintro rfl
  exact h hd

end Text

namespace Output

variable {a b path name root below : String} {names : List String}

/-- The steps of a path. -/
def stepsOf (path : String) : List String :=
  (Text.split '/' path).filter fun step => !step.isEmpty

/-- Whether a path does not start where it is followed from. -/
def isAbsolute (path : String) : Bool :=
  path.toList.head? == some '/'

/-- The directory for what a namespace has below the root. -/
def directoryOf (below : String) : String :=
  ((Text.split '\\' below).filter fun part => !part.isEmpty).foldl join ""

/-- A name that is one step. -/
structure IsStep (name : String) : Prop where
  ne_empty : name ≠ ""
  no_slash : '/' ∉ name.toList

theorem relativePath_eq (f : Php.File) (root : String) : relativePath f root =
    join (directoryOf (belowRoot (Text.trimOf '\\' root) (Text.trimOf '\\' f.namespaceName)))
      (f.declaration.name ++ ".php") := rfl

/-! Steps -/

theorem stepsOf_append (a b : String) : stepsOf (a ++ "/" ++ b) = stepsOf a ++ stepsOf b := by
  have hsplit := Text.split_append '/' a b
  rw [stepsOf, show "/" = String.ofList ['/'] from rfl, hsplit, List.filter_append]
  rfl

theorem IsStep.stepsOf (h : IsStep name) : stepsOf name = [name] := by
  rw [Output.stepsOf, Text.split_eq_singleton h.no_slash]
  simpa using h.ne_empty

theorem IsStep.head?_ne (h : IsStep name) : name.toList.head? ≠ some '/' :=
  fun hhead => h.no_slash (List.mem_of_head? hhead)

theorem IsStep.stepsOf_join (h : IsStep name) (path : String) :
    Output.stepsOf (join path name) = Output.stepsOf path ++ [name] := by
  rw [join, if_neg (by simpa using h.head?_ne)]
  split
  · rename_i hend
    rw [Bool.or_eq_true, String.isEmpty_iff, beq_iff_eq] at hend
    rcases hend with rfl | hend
    · rw [String.empty_append, h.stepsOf]
      rfl
    · -- the separator is there already
      obtain ⟨r, hr⟩ := List.getLast?_eq_some_iff.mp hend
      obtain rfl : path = String.ofList r ++ "/" := by
        rw [← String.toList_inj, hr, String.toList_append, String.toList_ofList]
        rfl
      have hpath := stepsOf_append (String.ofList r) ""
      rw [String.append_empty] at hpath
      rw [stepsOf_append, h.stepsOf, hpath]
      simp [Output.stepsOf, Text.split, Text.pieces]
  · rw [stepsOf_append, h.stepsOf]

theorem IsStep.isAbsolute_join (h : IsStep name) (path : String) :
    isAbsolute (join path name) = isAbsolute path := by
  have hname : isAbsolute name = false := by
    rw [isAbsolute, beq_eq_false_iff_ne]
    exact h.head?_ne
  rw [join, if_neg (by simpa using h.head?_ne)]
  by_cases hpath : path = ""
  · rw [if_pos (by rw [hpath]; rfl), hpath, String.empty_append, hname]
    rfl
  · have hne : path.toList ≠ [] := by rwa [Ne, String.toList_eq_nil_iff]
    obtain ⟨c, r, hr⟩ := List.exists_cons_of_ne_nil hne
    split <;> simp [isAbsolute, String.toList_append, hr]

/-- Names that are steps are the last ones of the path that they are put to. -/
theorem stepsOf_foldl_join (h : ∀ n ∈ names, IsStep n) (path : String) :
    stepsOf (names.foldl join path) = stepsOf path ++ names := by
  induction names generalizing path with
  | nil => exact (List.append_nil _).symm
  | cons n names ih =>
    rw [List.forall_mem_cons] at h
    rw [List.foldl_cons, ih h.2, h.1.stepsOf_join, List.append_assoc, List.singleton_append]

theorem isAbsolute_foldl_join (h : ∀ n ∈ names, IsStep n) (path : String) :
    isAbsolute (names.foldl join path) = isAbsolute path := by
  induction names generalizing path with
  | nil => rfl
  | cons n names ih =>
    rw [List.forall_mem_cons] at h
    rw [List.foldl_cons, ih h.2, h.1.isAbsolute_join]

/-! Namespaces -/

theorem directoryOf_append (below : String) (hne : name ≠ "") (hclear : '\\' ∉ name.toList) :
    directoryOf (below ++ "\\" ++ name) = join (directoryOf below) name := by
  have hsplit := Text.split_append '\\' below name
  rw [directoryOf, show "\\" = String.ofList ['\\'] from rfl, hsplit, List.filter_append,
    List.foldl_append, Text.split_eq_singleton hclear, List.filter_cons_of_pos (by simpa using hne)]
  rfl

theorem directoryOf_eq_self (hne : name ≠ "") (hclear : '\\' ∉ name.toList) :
    directoryOf name = join "" name := by
  rw [directoryOf, Text.split_eq_singleton hclear, List.filter_cons_of_pos (by simpa using hne)]
  rfl

theorem belowRoot_self (root : String) : belowRoot root root = "" := if_pos rfl

/-- What a namespace has after the root and a separator is what it has below the root. -/
theorem belowRoot_trimOf (hroot : Text.Trimmed (· == '\\') root.toList)
    (hbelow : Text.Trimmed (· == '\\') below.toList) (hne : below ≠ "") :
    belowRoot root (Text.trimOf '\\' (root ++ "\\" ++ below)) = below := by
  by_cases hempty : root = ""
  · -- the separator is trimmed off, and nothing is left of the root
    subst hempty
    have htrim : Text.trimOf '\\' ("" ++ "\\" ++ below) = below := by
      have hcons := Text.trimWhile_cons (p := (· == '\\')) (beq_self_eq_true '\\') hbelow
      rw [Text.trimOf, String.toList_append]
      exact (congrArg String.ofList hcons).trans String.ofList_toList
    have hnone : Text.afterLead? ("" ++ "\\") below = none := by
      rw [Option.eq_none_iff_forall_ne_some]
      intro r hr
      rw [Text.afterLead?_eq_some] at hr
      have hhead := hbelow.1 '\\' (by rw [hr, String.toList_append]; rfl)
      simp at hhead
    rw [htrim, belowRoot, if_neg hne, hnone]
    rfl
  · have htrim := Text.trimOf_eq_self (Text.trimmed_append hroot hbelow hempty hne)
    rw [htrim, belowRoot, if_neg, Text.afterLead?_eq_some.mpr rfl]
    · rfl
    · intro heq
      have hlength := congrArg (·.toList.length) heq
      simp at hlength

end Output
end SdkSmith
