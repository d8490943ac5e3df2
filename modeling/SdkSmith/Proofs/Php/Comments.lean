import Mathlib.Data.List.Basic
import Mathlib.Data.List.TakeWhile
import SdkSmith.Client.Imports
import SdkSmith.Php.Render
import SdkSmith.Proofs.Text.Cutting

/-!
Texts in comments. A comment ends at the first star with a slash after it, so what matters of a text
is how many of these it has. A doc comment keeps the lines of its text as they are: its block has
the ends in the text, and one more.
-/
namespace SdkSmith

namespace Text

/-- How often a text ends a comment: the stars with a slash after them. -/
def commentEnds : List Char → Nat
  | [] => 0
  | c :: s => (if c = '*' ∧ s.head? = some '/' then 1 else 0) + commentEnds s

/-- How often some texts end a comment. -/
def endsIn : List String → Nat
  | [] => 0
  | t :: ts => commentEnds t.toList + endsIn ts

/-- Whether no character may be part of an end. -/
def IsInert (s : List Char) : Prop := ∀ c ∈ s, c ≠ '*' ∧ c ≠ '/'

instance (s : List Char) : Decidable (IsInert s) :=
  List.decidableBAll (fun c => c ≠ '*' ∧ c ≠ '/') s

variable {α : Type} {s t sep : List Char} {ts us : List String} {p : Char → Bool}

/-! Texts one after another -/

theorem commentEnds_of_not_mem (h : '*' ∉ s) : commentEnds s = 0 := by
  induction s with
  | nil => rfl
  | cons c s ih =>
    rw [List.mem_cons, not_or] at h
    rw [commentEnds, if_neg fun hends => h.1 hends.1.symm, ih h.2]

theorem IsInert.not_mem (h : IsInert s) : '*' ∉ s := fun hmem => (h '*' hmem).1 rfl

theorem IsInert.head?_ne (h : IsInert s) : s.head? ≠ some '/' := fun hhead =>
  (h '/' (List.mem_of_mem_head? hhead)).2 rfl

/-- Texts are counted one by one, unless an end stands where they meet. -/
theorem commentEnds_append (h : s.getLast? = some '*' → t.head? ≠ some '/') :
    commentEnds (s ++ t) = commentEnds s + commentEnds t := by
  -- the last character of `s` is the one that the head of `t` follows
  induction s with
  | nil => rw [List.nil_append, commentEnds, Nat.zero_add]
  | cons c s ih =>
    cases s with
    | nil =>
      have hmeet : ¬(c = '*' ∧ t.head? = some '/') := by
        rintro ⟨rfl, hhead⟩
        exact h rfl hhead
      rw [List.singleton_append, commentEnds, if_neg hmeet, commentEnds, commentEnds]
      simp
    | cons c' s =>
      rw [List.getLast?_cons_cons] at h
      rw [List.cons_append, commentEnds, ih h, ← Nat.add_assoc]
      rfl

theorem commentEnds_append_of_not_mem (h : '*' ∉ s) (t : List Char) :
    commentEnds (s ++ t) = commentEnds t := by
  rw [commentEnds_append fun hlast => absurd (List.mem_of_getLast? hlast) h,
    commentEnds_of_not_mem h, Nat.zero_add]

theorem commentEnds_append_of_inert (s : List Char) (h : IsInert t) :
    commentEnds (s ++ t) = commentEnds s := by
  rw [commentEnds_append fun _ => h.head?_ne, commentEnds_of_not_mem h.not_mem, Nat.add_zero]

theorem commentEnds_between (s t : List Char) (h : IsInert sep) (hne : sep ≠ []) :
    commentEnds (s ++ (sep ++ t)) = commentEnds s + commentEnds t := by
  have hhead : (sep ++ t).head? ≠ some '/' := by
    rw [List.head?_append_of_ne_nil _ hne]
    exact h.head?_ne
  rw [commentEnds_append fun _ => hhead, commentEnds_append_of_not_mem h.not_mem]

theorem endsIn_append (ts us : List String) : endsIn (ts ++ us) = endsIn ts + endsIn us := by
  induction ts with
  | nil => exact (Nat.zero_add _).symm
  | cons t ts ih => rw [List.cons_append, endsIn, ih, endsIn, Nat.add_assoc]

theorem endsIn_flatMap_congr {f g : α → List String} (h : ∀ a, endsIn (f a) = endsIn (g a))
    (l : List α) : endsIn (l.flatMap f) = endsIn (l.flatMap g) := by
  induction l with
  | nil => rfl
  | cons a l ih =>
    rw [List.flatMap_cons, List.flatMap_cons, endsIn_append, endsIn_append, h, ih]

theorem endsIn_perm (h : ts.Perm us) : endsIn ts = endsIn us := by
  induction h with
  | nil => rfl
  | cons t _ ih => rw [endsIn, endsIn, ih]
  | swap t u ts => simp only [endsIn, Nat.add_left_comm]
  | trans _ _ ih ih' => exact ih.trans ih'

theorem endsIn_eq_zero : endsIn ts = 0 ↔ ∀ t ∈ ts, commentEnds t.toList = 0 := by
  induction ts with
  | nil => exact iff_of_true rfl (List.forall_mem_nil _)
  | cons t ts ih => rw [endsIn, Nat.add_eq_zero_iff, ih, List.forall_mem_cons]

theorem endsIn_flatMap_eq_zero {f : α → List String} {l : List α} :
    endsIn (l.flatMap f) = 0 ↔ ∀ a ∈ l, endsIn (f a) = 0 := by
  induction l with
  | nil => exact iff_of_true rfl (List.forall_mem_nil _)
  | cons a l ih =>
    rw [List.flatMap_cons, endsIn_append, Nat.add_eq_zero_iff, ih, List.forall_mem_cons]

theorem commentEnds_intercalate (h : IsInert sep) (hne : sep ≠ []) (ts : List String) :
    commentEnds (List.intercalate sep (ts.map String.toList)) = endsIn ts := by
  induction ts with
  | nil => rfl
  | cons t ts ih =>
    rw [List.map_cons, endsIn, ← ih]
    by_cases hts : ts.map String.toList = []
    · rw [hts, List.intercalate_singleton]
      rfl
    · rw [List.intercalate_cons_of_ne_nil hts, List.append_assoc, commentEnds_between _ _ h hne]

theorem commentEnds_join {mark : String} (h : IsInert mark.toList) (hne : mark.toList ≠ [])
    (ts : List String) : commentEnds (mark.intercalate ts).toList = endsIn ts := by
  rw [String.toList_intercalate, commentEnds_intercalate h hne]

/-! Texts that are cut -/

theorem commentEnds_dropWhile (hstar : p '*' = false) (s : List Char) :
    commentEnds (s.dropWhile p) = commentEnds s := by
  have hdropped : '*' ∉ s.takeWhile p := by
    intro hmem
    exact Bool.false_ne_true (hstar.symm.trans (List.mem_takeWhile_imp hmem))
  have hsplit := congrArg commentEnds (List.takeWhile_append_dropWhile (p := p) (l := s))
  rwa [commentEnds_append_of_not_mem hdropped] at hsplit

theorem commentEnds_dropEndWhile (hstar : p '*' = false) (hslash : p '/' = false)
    (s : List Char) : commentEnds (dropEndWhile p s) = commentEnds s := by
  have hdropped : IsInert (s.reverse.takeWhile p).reverse := by
    intro c hc
    have hp := List.mem_takeWhile_imp (List.mem_reverse.mp hc)
    constructor
    · rintro rfl
      exact Bool.false_ne_true (hstar.symm.trans hp)
    · rintro rfl
      exact Bool.false_ne_true (hslash.symm.trans hp)
  have hsplit : dropEndWhile p s ++ (s.reverse.takeWhile p).reverse = s := by
    rw [dropEndWhile, ← List.reverse_append, List.takeWhile_append_dropWhile, List.reverse_reverse]
  have hends := congrArg commentEnds hsplit
  rwa [commentEnds_append_of_inert _ hdropped] at hends

/-- Blanks at the two ends of a text do not matter. -/
theorem commentEnds_trim (t : String) : commentEnds (trim t).toList = commentEnds t.toList := by
  rw [trim, String.toList_ofList, trimWhile, commentEnds_dropEndWhile (by decide) (by decide),
    commentEnds_dropWhile (by decide)]

theorem commentEnds_bare (w : List Char) : commentEnds (lines.bare w) = commentEnds w := by
  unfold lines.bare
  split
  · rename_i r hr
    have hw : w = r.reverse ++ ['\r'] := by
      rw [← List.reverse_cons, ← hr, List.reverse_reverse]
    rw [hw, commentEnds_append_of_inert _ (by decide)]
  · rfl

theorem endsIn_close (ws : List (List Char)) :
    endsIn (lines.close ws) = endsIn (ws.map String.ofList) := by
  fun_induction lines.close ws with
  | case1 => rfl
  | case2 last hempty =>
    rw [List.isEmpty_iff.mp hempty]
    rfl
  | case3 last hempty => rfl
  | case4 line rest hrest ih =>
    rw [List.map_cons, endsIn, endsIn, ih, String.toList_ofList, String.toList_ofList,
      commentEnds_bare]

/-- No end goes beyond a line. -/
theorem endsIn_lines (t : String) : endsIn (lines t) = commentEnds t.toList := by
  have hmark : IsInert ['\n'] := by decide
  have hpieces : ((pieces (· == '\n') t.toList).map String.ofList).map String.toList =
      pieces (· == '\n') t.toList := by
    simp [Function.comp_def]
  rw [lines, endsIn_close, ← commentEnds_intercalate hmark (List.cons_ne_nil _ _),
    hpieces, intercalate_pieces]

end Text

namespace Php
open Text (commentEnds commentEnds_append commentEnds_append_of_not_mem)

variable {level : Nat} {line doc : String}

/-! Doc comments -/

/-- A line of a doc comment. -/
def docLine (level : Nat) (line : String) : String :=
  if Text.onlyBlanks line then indent level ++ " *\n" else indent level ++ " * " ++ line ++ "\n"

theorem renderDoc_eq (level : Nat) (doc : String) : renderDoc level doc =
    indent level ++ "/**\n" ++ String.join ((Text.lines doc).map (docLine level)) ++
      indent level ++ " */\n" := rfl

theorem not_mem_indent (level : Nat) : '*' ∉ (indent level).toList := by
  induction level with
  | zero => decide
  | succ level ih =>
    rw [indent, String.toList_append, List.mem_append, not_or]
    exact ⟨by decide, ih⟩

theorem commentEnds_onlyBlanks (h : Text.onlyBlanks line) : commentEnds line.toList = 0 := by
  refine Text.commentEnds_of_not_mem fun hmem => ?_
  have hblank := List.all_eq_true.mp h '*' hmem
  exact absurd hblank (by decide)

theorem commentEnds_docLine (level : Nat) (line : String) (t : List Char) :
    commentEnds ((docLine level line).toList ++ t) =
      commentEnds line.toList + commentEnds t := by
  unfold docLine
  split
  · rename_i hblank
    have hmark : commentEnds " *\n".toList = 0 := by decide
    rw [String.toList_append, List.append_assoc,
      commentEnds_append_of_not_mem (not_mem_indent level), commentEnds_onlyBlanks hblank,
      commentEnds_append fun hlast => absurd hlast (by decide), hmark]
  · have hmark : commentEnds " * ".toList = 0 := by decide
    simp only [String.toList_append, List.append_assoc]
    rw [commentEnds_append_of_not_mem (not_mem_indent level),
      commentEnds_append fun hlast => absurd hlast (by decide), hmark, Nat.zero_add,
      Text.commentEnds_between _ _ (by decide) (by decide)]

theorem commentEnds_docLines (level : Nat) (ls : List String) (t : List Char) :
    commentEnds ((String.join (ls.map (docLine level))).toList ++ t) =
      Text.endsIn ls + commentEnds t := by
  induction ls with
  | nil => exact (Nat.zero_add _).symm
  | cons line ls ih =>
    rw [List.map_cons, String.join_cons, String.toList_append, List.append_assoc,
      commentEnds_docLine, ih, Text.endsIn, Nat.add_assoc]

/-- The block of a doc comment has the ends in its text, and its own. -/
theorem commentEnds_renderDoc (level : Nat) (doc : String) :
    commentEnds (renderDoc level doc).toList = commentEnds doc.toList + 1 := by
  have hbegin : commentEnds "/**\n".toList = 0 := by decide
  have hend : commentEnds " */\n".toList = 1 := by decide
  rw [renderDoc_eq]
  simp only [String.toList_append, List.append_assoc]
  rw [commentEnds_append_of_not_mem (not_mem_indent level),
    commentEnds_append fun hlast => absurd hlast (by decide), hbegin, Nat.zero_add,
    commentEnds_docLines, Text.endsIn_lines, commentEnds_append_of_not_mem (not_mem_indent level),
    hend]

theorem renderDoc_ends (level : Nat) (doc : String) :
    ∃ body, renderDoc level doc = body ++ "*/\n" := by
  have hmark : " */\n" = " " ++ "*/\n" := by decide
  exact ⟨_, by rw [renderDoc_eq, hmark, ← String.append_assoc]⟩

end Php

namespace Client
open Text (endsIn)

/-! Paragraphs -/

theorem endsIn_filter_trim (ps : List String) :
    endsIn ((ps.map Text.trim).filter fun p => !p.isEmpty) = endsIn ps := by
  induction ps with
  | nil => rfl
  | cons p ps ih =>
    rw [List.map_cons, List.filter_cons, Text.endsIn, ← ih, ← Text.commentEnds_trim]
    split
    · rfl
    · rename_i hempty
      have htrim : Text.trim p = "" := by simpa using hempty
      rw [htrim]
      exact (Nat.zero_add _).symm

/-- A doc comment has the ends in its paragraphs. -/
theorem endsIn_docOf (ps : List (Option String)) :
    endsIn (docOf ps).toList = endsIn (ps.flatMap Option.toList) := by
  rw [← List.filterMap_eq_flatMap_toList, ← endsIn_filter_trim (ps.filterMap _)]
  simp only [docOf]
  split
  · rename_i hempty
    exact (congrArg endsIn (List.isEmpty_iff.mp hempty)).symm
  · rw [Option.toList_some, Text.endsIn, Text.commentEnds_join (by decide) (by decide)]
    rfl

theorem endsIn_docOf_singleton (t : Option String) :
    endsIn (docOf [t]).toList = endsIn t.toList := by
  rw [endsIn_docOf]
  exact congrArg endsIn (List.append_nil _)

end Client
end SdkSmith
