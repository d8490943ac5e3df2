import Mathlib.Data.List.Basic
import SdkSmith.Php.Render
import SdkSmith.Proofs.Text.Cutting

/-!
What quoted text means. Between single quotes a backslash escapes only a backslash or a quote;
between double quotes it escapes more, and members of the object stand in braces. Reading by these
rules gives back what was written, whatever the characters of a text are, and stops where it ended.
-/
namespace SdkSmith.Php

/-! Single quotes -/

/-- Reads up to the closing quote: the text, and what follows the quote. -/
def readSingleBody : List Char → Option (List Char × List Char)
  | [] => none
  | '\'' :: rest => some ([], rest)
  | '\\' :: '\\' :: s => (readSingleBody s).map (Prod.map ('\\' :: ·) id)
  | '\\' :: '\'' :: s => (readSingleBody s).map (Prod.map ('\'' :: ·) id)
  | c :: s => (readSingleBody s).map (Prod.map (c :: ·) id)

/-- Reads a text between single quotes: the text, and what follows it. -/
def readSingle : List Char → Option (String × List Char)
  | '\'' :: s => (readSingleBody s).map (Prod.map String.ofList id)
  | _ => none

/-- A character as it stands between single quotes. -/
def singleQuoted (c : Char) : List Char :=
  if c == '\\' || c == '\'' then ['\\', c] else [c]

/-- Replacing one kind of character after the other comes to one replacement of them all. -/
theorem escapeSingle_eq (s : List Char) : escapeSingle s = s.flatMap singleQuoted := by
  rw [escapeSingle, Text.replace, Text.replace, List.flatMap_assoc]
  refine List.flatMap_congr fun c _ => ?_
  by_cases hslash : c = '\\'
  · subst hslash
    rfl
  · by_cases hquote : c = '\''
    · subst hquote
      rfl
    · simp [singleQuoted, hslash, hquote]

theorem readSingleBody_escape (c : Char) (s : List Char) : readSingleBody (singleQuoted c ++ s) =
    (readSingleBody s).map (Prod.map (c :: ·) id) := by
  unfold singleQuoted
  split
  · rename_i hescaped
    rw [Bool.or_eq_true, beq_iff_eq, beq_iff_eq] at hescaped
    rcases hescaped with rfl | rfl
    · rw [List.cons_append, List.singleton_append, readSingleBody]
    · rw [List.cons_append, List.singleton_append, readSingleBody]
  · rename_i hplain
    simp only [Bool.or_eq_true, beq_iff_eq, not_or] at hplain
    rw [List.singleton_append, readSingleBody]
    · exact hplain.2
    · rintro _ rfl
      exact absurd rfl hplain.1
    · rintro _ rfl
      exact absurd rfl hplain.1

theorem readSingleBody_render (t rest : List Char) :
    readSingleBody (escapeSingle t ++ '\'' :: rest) = some (t, rest) := by
  rw [escapeSingle_eq]
  induction t with
  | nil => rw [List.flatMap_nil, List.nil_append, readSingleBody]
  | cons c t ih =>
    rw [List.flatMap_cons, List.append_assoc, readSingleBody_escape, ih]
    rfl

/-- A rendered text reads back, and nothing of what follows is taken for it. -/
theorem readSingle_render (s : String) (rest : List Char) :
    readSingle ((Literal.string s).render.toList ++ rest) = some (s, rest) := by
  rw [Literal.render, String.toList_ofList, List.cons_append, List.cons_append, readSingle,
    List.append_assoc, List.singleton_append, readSingleBody_render]
  exact congrArg (fun t => some (t, rest)) String.ofList_toList

/-! Names of members -/

/-- Whether a name may begin with a character. -/
def isLabelStart (c : Char) : Bool :=
  c.isAlpha || c == '_' || decide (128 ≤ c.toNat)

/-- Whether a character may stand in a name. -/
def isLabelChar (c : Char) : Bool :=
  isLabelStart c || c.isDigit

/-- Whether a text is a name. -/
def isIdentifier (name : String) : Bool :=
  name.toList.head?.any isLabelStart && name.toList.all isLabelChar

/-- What a member of the object is told by. -/
def memberLead : List Char :=
  ['$', 't', 'h', 'i', 's', '-', '>']

/-- Reads `$this->name` up to the brace after it: the name, and what follows the brace. -/
def readMember (s : List Char) : Option (String × List Char) :=
  (Text.dropLead? memberLead s).bind fun s =>
    match s.dropWhile isLabelChar with
    | '\x7d' :: rest =>
      let name := String.ofList (s.takeWhile isLabelChar)
      if isIdentifier name then some (name, rest) else none
    | _ => none

theorem readMember_render {name : String} (h : isIdentifier name) (rest : List Char) :
    readMember (memberLead ++ name.toList ++ '\x7d' :: rest) = some (name, rest) := by
  have hchars : ∀ c ∈ name.toList, isLabelChar c = true := by
    rw [isIdentifier, Bool.and_eq_true] at h
    exact List.all_eq_true.mp h.2
  have hbrace : isLabelChar '\x7d' = false := by decide
  have hlead : Text.dropLead? memberLead (memberLead ++ (name.toList ++ '\x7d' :: rest)) =
      some (name.toList ++ '\x7d' :: rest) := Text.dropLead?_eq_some.mpr rfl
  rw [readMember, List.append_assoc, hlead, Option.bind_some, List.dropWhile_append_of_pos hchars,
    List.takeWhile_append_of_pos hchars, List.dropWhile_cons_of_neg (by simp [hbrace]),
    List.takeWhile_cons_of_neg (by simp [hbrace]), List.append_nil, String.ofList_toList]
  exact if_pos h

/-- What follows a member is shorter than the member with it. -/
theorem length_readMember {s rest : List Char} {name : String}
    (h : readMember s = some (name, rest)) : rest.length < s.length := by
  obtain ⟨t, ht, hrest⟩ := Option.bind_eq_some_iff.mp h
  obtain rfl := Text.dropLead?_eq_some.mp ht
  have hle := (List.dropWhile_sublist isLabelChar (l := t)).length_le
  split at hrest
  · rename_i rest' hdrop
    simp only at hrest
    split at hrest
    · cases hrest
      rw [hdrop, List.length_cons] at hle
      rw [List.length_append]
      omega
    · cases hrest
  · cases hrest

/-! Double quotes -/

/-- What is read between double quotes: characters, and members whose values stand in their
places. -/
inductive Piece
  | text (s : List Char)
  | member (name : String)
deriving DecidableEq, Repr

namespace Piece

/-- Puts characters in front, into the text that stands there. -/
def addChars : List Char → List Piece → List Piece
  | [], ps => ps
  | s, .text t :: ps => .text (s ++ t) :: ps
  | s, ps => .text s :: ps

/-- The pieces that parts come to: texts side by side are one, and empty ones are none. -/
def ofParts : List Part → List Piece
  | [] => []
  | .literal t :: parts => addChars t.toList (ofParts parts)
  | .property _ name :: parts => .member name :: ofParts parts

theorem addChars_append (s t : List Char) (ps : List Piece) :
    addChars (s ++ t) ps = addChars s (addChars t ps) := by
  cases s with
  | nil => rfl
  | cons c s =>
    cases t with
    | nil => rw [List.append_nil, addChars]
    | cons d t =>
      cases ps with
      | nil => rfl
      | cons p ps =>
        cases p with
        | text u => simp [addChars]
        | member name => rfl

end Piece

/-- What a backslash with the character after it stands for. Characters by number are not read. -/
def unescape (c : Char) : Option (List Char) :=
  match c with
  | 'n' => some ['\n']
  | 't' => some ['\t']
  | 'r' => some ['\r']
  | 'v' => some ['\x0b']
  | 'e' => some ['\x1b']
  | 'f' => some ['\x0c']
  | '\\' | '$' | '"' => some [c]
  | '0' | '1' | '2' | '3' | '4' | '5' | '6' | '7' | 'x' | 'u' => none
  | _ => some ['\\', c]

/-- Whether a dollar sign here begins a variable that no brace stands before. -/
def beginsVariable (c : Char) (next : Option Char) : Bool :=
  c == '$' && next.any fun d => isLabelStart d || d == '\x7b'

/-- Reads up to the closing quote: the pieces, and what follows the quote. Variables other than
members in braces are not read. -/
def readDoubleBody (s : List Char) : Option (List Piece × List Char) :=
  match s with
  | [] => none
  | '"' :: rest => some ([], rest)
  | '\\' :: c :: s => (unescape c).bind fun t =>
      (readDoubleBody s).map (Prod.map (Piece.addChars t) id)
  | '\x7b' :: '$' :: s =>
    match _h : readMember ('$' :: s) with
    | some (name, s') => (readDoubleBody s').map (Prod.map (.member name :: ·) id)
    | none => none
  | c :: s =>
    if beginsVariable c s.head? then none
    else (readDoubleBody s).map (Prod.map (Piece.addChars [c]) id)
termination_by s.length
decreasing_by
  · simp only [List.length_cons]
    omega
  · have hlt := length_readMember ‹_›
    simp only [List.length_cons] at hlt ⊢
    omega
  · simp only [List.length_cons]
    omega

/-- Reads a text between double quotes: its pieces, and what follows it. -/
def readDouble : List Char → Option (List Piece × List Char)
  | '"' :: s => readDoubleBody s
  | _ => none

variable {name : String} {s : List Char}

/-- A character as it stands between double quotes. -/
def doubleQuoted (c : Char) : List Char :=
  if c == '\\' || c == '"' || c == '$' then ['\\', c] else [c]

theorem escapeDouble_eq (s : List Char) : escapeDouble s = s.flatMap doubleQuoted := by
  rw [escapeDouble, Text.replace, Text.replace, Text.replace, List.flatMap_assoc,
    List.flatMap_assoc]
  refine List.flatMap_congr fun c _ => ?_
  by_cases hslash : c = '\\'
  · subst hslash
    rfl
  · by_cases hquote : c = '"'
    · subst hquote
      rfl
    · by_cases hdollar : c = '$'
      · subst hdollar
        rfl
      · simp [doubleQuoted, hslash, hquote, hdollar]

theorem render_literal (t : String) :
    (Part.literal t).render = t.toList.flatMap doubleQuoted := by
  rw [← escapeDouble_eq]
  delta Part.render
  with_reducible rfl

theorem render_property (source name : String) : (Part.property source name).render =
    '\x7b' :: (memberLead ++ name.toList ++ ['\x7d']) := by
  have hlead : "\x7b$this->".toList = '\x7b' :: memberLead := by decide +kernel
  have hrender : (Part.property source name).render =
      "\x7b$this->".toList ++ name.toList ++ ['\x7d'] := by
    -- unfolded without its equations, for which the text in it would be evaluated
    delta Part.render
    with_reducible rfl
  rw [hrender, hlead, List.cons_append, List.cons_append]

theorem readDoubleBody_member (h : isIdentifier name) (source : String) (s : List Char) :
    readDoubleBody ((Part.property source name).render ++ s) =
      (readDoubleBody s).map (Prod.map (.member name :: ·) id) := by
  have hmember := readMember_render h s
  have hrender : (Part.property source name).render ++ s =
      '\x7b' :: '$' :: (memberLead.tail ++ name.toList ++ '\x7d' :: s) := by
    rw [render_property, List.cons_append, List.append_assoc]
    rfl
  rw [hrender, readDoubleBody]
  split
  · rename_i hread
    cases hmember.symm.trans hread
    rfl
  · rename_i hread
    cases hmember.symm.trans hread

theorem unescape_of_escaped {c : Char} (h : (c = '\\' ∨ c = '"') ∨ c = '$') :
    unescape c = some [c] := by
  rcases h with (rfl | rfl) | rfl <;> rfl

/-- A character reads back where no dollar sign follows, which a brace would make an opening. -/
theorem readDoubleBody_escape (c : Char) (h : s.head? ≠ some '$') :
    readDoubleBody (doubleQuoted c ++ s) =
      (readDoubleBody s).map (Prod.map (Piece.addChars [c]) id) := by
  unfold doubleQuoted
  split
  · rename_i hescaped
    simp only [Bool.or_eq_true, beq_iff_eq] at hescaped
    rw [List.cons_append, List.singleton_append, readDoubleBody, unescape_of_escaped hescaped,
      Option.bind_some]
  · rename_i hplain
    simp only [Bool.or_eq_true, beq_iff_eq, not_or] at hplain
    have hvariable : beginsVariable c s.head? = false := by
      rw [beginsVariable, beq_eq_false_iff_ne.mpr hplain.2, Bool.false_and]
    rw [List.singleton_append, readDoubleBody, if_neg (by simp [hvariable])]
    · exact hplain.1.2
    · rintro _ _ rfl
      exact absurd rfl hplain.1.1
    · rintro t - rfl
      exact absurd rfl h

/-- Escaped characters never begin with a dollar sign. -/
theorem head?_escaped_ne (t : List Char) (h : s.head? ≠ some '$') :
    (t.flatMap doubleQuoted ++ s).head? ≠ some '$' := by
  cases t with
  | nil => exact h
  | cons c t =>
    rw [List.flatMap_cons, List.append_assoc, doubleQuoted]
    split
    · simp
    · rename_i hplain
      simp only [Bool.or_eq_true, beq_iff_eq, not_or] at hplain
      simpa using hplain.2

theorem readDoubleBody_text (t : List Char) (h : s.head? ≠ some '$') :
    readDoubleBody (t.flatMap doubleQuoted ++ s) =
      (readDoubleBody s).map (Prod.map (Piece.addChars t) id) := by
  induction t with
  | nil => exact Option.map_id'.symm
  | cons c t ih =>
    have hadd : Piece.addChars (c :: t) = Piece.addChars [c] ∘ Piece.addChars t :=
      funext (Piece.addChars_append [c] t)
    rw [List.flatMap_cons, List.append_assoc, readDoubleBody_escape c (head?_escaped_ne t h), ih,
      Option.map_map, Prod.map_comp_map, ← hadd, Function.comp_id]

/-- Nothing that parts begin with is a dollar sign, nor is the closing quote. -/
theorem head?_parts_ne (parts : List Part) (rest : List Char) :
    (parts.flatMap Part.render ++ '"' :: rest).head? ≠ some '$' := by
  induction parts with
  | nil => simp
  | cons part parts ih =>
    rw [List.flatMap_cons, List.append_assoc]
    cases part with
    | literal t =>
      rw [render_literal]
      exact head?_escaped_ne t.toList ih
    | property source name =>
      rw [render_property]
      simp

theorem readDoubleBody_render (parts : List Part) (rest : List Char)
    (h : ∀ source name, .property source name ∈ parts → isIdentifier name) :
    readDoubleBody (parts.flatMap Part.render ++ '"' :: rest) =
      some (Piece.ofParts parts, rest) := by
  induction parts with
  | nil => rw [List.flatMap_nil, List.nil_append, readDoubleBody, Piece.ofParts]
  | cons part parts ih =>
    have hrest := ih fun source name hmem => h source name (List.mem_cons_of_mem part hmem)
    rw [List.flatMap_cons, List.append_assoc]
    cases part with
    | literal t =>
      rw [render_literal, readDoubleBody_text t.toList (head?_parts_ne parts rest), hrest]
      rfl
    | property source name =>
      rw [readDoubleBody_member (h source name List.mem_cons_self), hrest]
      rfl

/-- Rendered parts read back, texts side by side as one, and nothing else is taken for a member. -/
theorem readDouble_render (parts : List Part) (rest : List Char)
    (h : ∀ source name, .property source name ∈ parts → isIdentifier name) :
    readDouble ((Expr.interpolated parts).render.toList ++ rest) =
      some (Piece.ofParts parts, rest) := by
  rw [Expr.render, String.toList_ofList, List.cons_append, List.cons_append, readDouble,
    List.append_assoc, List.singleton_append]
  exact readDoubleBody_render parts rest h

/-- Quoted text reads back. Between single quotes it does whatever its characters are, and between
double quotes wherever its members have names. What follows the closing quote is left. -/
theorem render_readsBack :
    (∀ (s : String) (rest : List Char),
      readSingle ((Literal.string s).render.toList ++ rest) = some (s, rest)) ∧
    ∀ (parts : List Part) (rest : List Char),
      (∀ source name, .property source name ∈ parts → isIdentifier name) →
      readDouble ((Expr.interpolated parts).render.toList ++ rest) =
        some (Piece.ofParts parts, rest) :=
  ⟨readSingle_render, readDouble_render⟩

/-- Texts that end in a backslash before a member, and in a brace before a dollar sign and before a
member. -/
def awkward : List Part :=
  [.literal "a\\", .property "id" "id", .literal "\x7b", .literal "$b\x7b",
    .property "user_id" "userId"]

theorem render_awkward_readsBack :
    (∀ source name, .property source name ∈ awkward → isIdentifier name) ∧
    (Literal.string "\\'").render = "'\\\\\\''" ∧
    readSingle "'\\\\\\''".toList = some ("\\'", []) ∧
    (Expr.interpolated awkward).render =
      "\"a\\\\\x7b$this->id\x7d\x7b\\$b\x7b\x7b$this->userId\x7d\"" ∧
    readDouble (Expr.interpolated awkward).render.toList =
      some ([.text ['a', '\\'], .member "id", .text ['\x7b', '$', 'b', '\x7b'],
        .member "userId"], []) := by
  have hnames : ∀ source name, .property source name ∈ awkward → isIdentifier name := by
    intro source name hmem
    simp only [awkward, List.mem_cons, Part.property.injEq, reduceCtorEq, List.not_mem_nil,
      or_false, false_or] at hmem
    rcases hmem with ⟨-, rfl⟩ | ⟨-, rfl⟩ <;> decide +kernel
  have hsingle := render_readsBack.1 "\\'" []
  have hdouble := render_readsBack.2 awkward [] hnames
  have htext : (Literal.string "\\'").render = "'\\\\\\''" := by decide +kernel
  have hpieces : Piece.ofParts awkward = [.text ['a', '\\'], .member "id",
      .text ['\x7b', '$', 'b', '\x7b'], .member "userId"] := by decide +kernel
  rw [List.append_nil] at hsingle hdouble
  rw [htext] at hsingle
  rw [hpieces] at hdouble
  exact ⟨hnames, htext, hsingle, by decide +kernel, hdouble⟩

end SdkSmith.Php
