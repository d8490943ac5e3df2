import SdkSmith.Notice.Basic

/-!
Which notices are shown. A filter is a list of rules for areas; of the rules whose area leads a
notice's area the longest counts, and of equal ones the last.
-/
namespace SdkSmith.Notice

/-- Shows levels up to a rank in every area that begins with a text. -/
structure Rule where
  lead : String
  limit : Nat
deriving DecidableEq, Repr

/-- Rules in the order in which they were given. -/
abbrev Filter := List Rule

/-- The rank of a level given by its word or its number, or as off. -/
def limitOf? (word : String) : Option Nat :=
  if Text.lower word = "off" then some 0
  else if !word.isEmpty && word.all Char.isDigit then
    word.toNat?.filter (· ≤ Level.trace.rank)
  else (Level.ofName? word).map Level.rank

/-- Whether a rule may begin with a character. -/
def mayLead (c : Char) : Bool :=
  c.isAlphanum || c == '-' || c == ':' || c == '_'

/-- A rule: a level for all areas, an area that is shown in full, or both. One that cannot be
understood says nothing. -/
def Rule.parse? (word : String) : Option Rule :=
  if !word.toList.head?.any mayLead || word.toList.contains '[' then none
  else match Text.split '=' word with
    | [w] => some (match limitOf? w with
      | some n => ⟨"", n⟩
      | none => ⟨w, Level.trace.rank⟩)
    | [lead, ""] => some ⟨lead, Level.trace.rank⟩
    | [lead, l] => (limitOf? l).map (Rule.mk lead)
    | _ => none

/-- The area that holds all others. -/
def rootArea : String := "sdkgen"

namespace Filter

/-- The rules of a list. -/
def parse (words : String) : Filter :=
  (Text.split ',' words).filterMap Rule.parse?

/-- The filter for a setting. A level alone is for the root area; nothing set means the level of
information. -/
def ofSetting (setting : Option String) : Filter :=
  match Text.unlessBlank setting with
  | none => [⟨rootArea, Level.info.rank⟩]
  | some s =>
    match Level.ofName? (Text.trim s) with
    | some l => [⟨rootArea, l.rank⟩]
    | none => parse s

/-- The rule that counts of two. -/
def stronger (best r : Rule) : Rule :=
  if best.lead.length ≤ r.lead.length then r else best

/-- The rank up to which levels are shown in an area. -/
def limit (f : Filter) (area : String) : Nat :=
  ((f.filter fun r => (Text.afterLead? r.lead area).isSome).foldl stronger ⟨"", 0⟩).limit

/-- Whether a notice is shown. -/
def shows (f : Filter) (n : Notice) : Bool :=
  n.level.rank ≤ f.limit n.area

end Filter
end SdkSmith.Notice
