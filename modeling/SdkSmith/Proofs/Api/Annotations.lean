import SdkSmith.Api.Payload
import SdkSmith.Proofs.Naming.LegalNames
import SdkSmith.Proofs.Output.Paths

/-!
Annotations in example payloads. The name of a type in angle brackets is read back as the only
candidate, so a payload shows the same types whether its leaves are values or annotations.
-/
namespace SdkSmith

namespace Text
variable {p : Char → Bool} {s : List Char} {c d : Char} {a : String}

/-! Lower-case letters -/

theorem isBlank_of_isLower (h : c.isLower) : isBlank c = false :=
  of_ascii (P := fun c => c.isLower → isBlank c = false) (by decide +kernel)
    (lt_of_isAlphanum (isAlphanum_of_isAlpha (isAlpha_of_isLower h))) h

theorem toLower_of_isLower (h : c.isLower) : c.toLower = c :=
  toLower_of_not_isUpper (isAlphanum_of_isAlpha (isAlpha_of_isLower h)) (not_isUpper_of_isLower h)

theorem beq_of_isLower (hd : d.isLower = false) (h : c.isLower) : (c == d) = false := by
  rw [beq_eq_false_iff_ne]
  rintro rfl
  rw [h] at hd
  cases hd

theorem lower_eq_self (h : ∀ c ∈ a.toList, c.isLower) : lower a = a := by
  rw [← String.toList_inj, toList_lower]
  refine (List.map_congr_left ?_).trans (List.map_id _)
  intro c hc
  exact toLower_of_isLower (h c hc)

/-! Texts with nothing to trim -/

theorem trimmed_of_forall (h : ∀ c ∈ s, p c = false) : Trimmed p s :=
  ⟨fun c hc => h c (List.mem_of_mem_head? hc), fun c hc => h c (List.mem_of_getLast? hc)⟩

theorem trim_eq_self (h : Trimmed isBlank a.toList) : trim a = a := by
  rw [trim, trimWhile_eq_self h, String.ofList_toList]

theorem dropEndWhile_concat (hc : p c) (h : ∀ d ∈ s.getLast?, p d = false) :
    dropEndWhile p (s ++ [c]) = s := by
  rw [dropEndWhile, List.reverse_append, List.reverse_singleton, List.singleton_append,
    List.dropWhile_cons_of_pos hc, ← dropEndWhile, dropEndWhile_eq_self h]

end Text

namespace Api.Payload
variable {name : String}

/-! Names in angle brackets -/

/-- A name in angle brackets. -/
def bracketed (name : String) : String :=
  "<" ++ name ++ ">"

/-- Whether a name has lower-case letters only, and at least one. -/
def IsTypeName (name : String) : Prop :=
  name ≠ "" ∧ ∀ c ∈ name.toList, c.isLower

theorem IsTypeName.beq_eq_false (h : IsTypeName name) {d : Char} (hd : d.isLower = false) :
    ∀ c ∈ name.toList, (c == d) = false :=
  fun c hc => Text.beq_of_isLower hd (h.2 c hc)

theorem IsTypeName.trim (h : IsTypeName name) : Text.trim name = name :=
  Text.trim_eq_self (Text.trimmed_of_forall fun c hc => Text.isBlank_of_isLower (h.2 c hc))

theorem toList_bracketed (name : String) :
    (bracketed name).toList = '<' :: (name.toList ++ ['>']) := by
  rw [bracketed, String.toList_append, String.toList_append]
  rfl

/-- An annotation begins and ends with a bracket, and neither is blank. -/
theorem trimWhile_bracketed (name : String) :
    Text.trimWhile Text.isBlank (bracketed name).toList = '<' :: (name.toList ++ ['>']) := by
  rw [toList_bracketed]
  apply Text.trimWhile_eq_self
  constructor
  · rintro c ⟨⟩
    rfl
  · rw [← List.cons_append, List.getLast?_concat]
    rintro c ⟨⟩
    rfl

theorem isTypeAnnotation_bracketed (h : name ≠ "") :
    Naming.isTypeAnnotation (bracketed name) = true := by
  have hname : 0 < name.toList.length := List.length_pos_of_ne_nil (by simpa using h)
  have hlength : 2 < ('<' :: (name.toList ++ ['>'])).length := by
    rw [List.length_cons, List.length_append, List.length_singleton]
    omega
  have hlast : ('<' :: (name.toList ++ ['>'])).getLast? = some '>' := by
    rw [← List.cons_append, List.getLast?_concat]
  unfold Naming.isTypeAnnotation
  simp only [trimWhile_bracketed, decide_eq_true hlength, hlast]
  rfl

/-- What is left when the brackets at both ends are dropped, however many there are, is the name. -/
theorem dropBrackets_bracketed (h : IsTypeName name) :
    Text.dropEndWhile (· == '>') (('<' :: (name.toList ++ ['>'])).dropWhile (· == '<')) =
      name.toList := by
  have hopen : ∀ c ∈ name.toList ++ ['>'], (c == '<') = false := by
    rw [List.forall_mem_append, List.forall_mem_singleton]
    exact ⟨h.beq_eq_false rfl, rfl⟩
  have hclose := Text.trimmed_of_forall (h.beq_eq_false (d := '>') rfl)
  rw [List.dropWhile_cons_of_pos rfl, Text.dropWhile_eq_self (Text.trimmed_of_forall hopen).1,
    Text.dropEndWhile_concat rfl hclose.2]

/-- An annotation for a single type has its name as the only candidate. -/
theorem candidates_bracketed (h : IsTypeName name) : candidates (bracketed name) = [name] := by
  have hkept : (!name.isEmpty) = true := by
    rw [Bool.not_eq_true', String.isEmpty_eq_false_iff]
    exact h.1
  rw [candidates, trimWhile_bracketed, dropBrackets_bracketed h,
    Text.pieces_eq_singleton (h.beq_eq_false rfl), List.map_singleton, String.ofList_toList, h.trim,
    Text.lower_eq_self h.2]
  exact List.filter_cons_of_pos hkept

theorem ofJson_bracketed (h : IsTypeName name) :
    ofJson (.string (bracketed name)) = .leaf [name] := by
  rw [ofJson, if_pos (isTypeAnnotation_bracketed h.1), candidates_bracketed h]

end Api.Payload

namespace Json
open Api (Payload)

variable {v leaf : Json} {name : String}

/-! Values and annotations in their place -/

/-- What is right below a value, in order. -/
def children : Json → List Json
  | .array items => items
  | .object members => members.map (·.2)
  | _ => []

/-- The value at a path, which has the number of an item or a member for each level. -/
def valueAt? : Json → List Nat → Option Json
  | v, [] => some v
  | v, i :: p => v.children[i]?.bind (valueAt? · p)

/-- The name of the type of a leaf that is a value; lists, objects and annotations have none. -/
def leafType? : Json → Option String
  | .null => some "null"
  | .bool _ => some "boolean"
  | .number (.int _) => some "integer"
  | .number (.double _) => some "double"
  | .string s => if Naming.isTypeAnnotation s then none else some "string"
  | .array _ | .object _ => none

/-- The annotation for the type of a leaf; what has no type stays as it is. -/
def annotateLeaf (v : Json) : Json :=
  match v.leafType? with
  | some name => .string (Payload.bracketed name)
  | none => v

mutual

/-- A value with annotations in the place of the leaves at the chosen paths. -/
def annotate (chosen : List Nat → Bool) : Json → Json
  | .array items => .array (annotateItems chosen 0 items)
  | .object members => .object (annotateMembers chosen 0 members)
  | v => if chosen [] then v.annotateLeaf else v

/-- Items with numbers from `i` on, with annotations. -/
def annotateItems (chosen : List Nat → Bool) (i : Nat) : List Json → List Json
  | [] => []
  -- the paths below an item are the paths here that begin with its number
  | v :: vs => annotate (fun p => chosen (i :: p)) v :: annotateItems chosen (i + 1) vs

/-- Members with numbers from `i` on, with annotations. -/
def annotateMembers (chosen : List Nat → Bool) (i : Nat) :
    List (String × Json) → List (String × Json)
  | [] => []
  | (k, v) :: ms =>
    (k, annotate (fun p => chosen (i :: p)) v) :: annotateMembers chosen (i + 1) ms

end

/-! The leaves at the chosen paths, and no others, are replaced -/

theorem annotate_of_leafType? (h : leaf.leafType? = some name) (chosen : List Nat → Bool) :
    leaf.annotate chosen = if chosen [] then .string (Payload.bracketed name) else leaf := by
  cases leaf with
  | array _ | object _ => cases h
  | null | bool _ | number _ | string _ => simp only [annotate, annotateLeaf, h]

theorem getElem?_annotateItems (chosen : List Nat → Bool) (i k : Nat) (vs : List Json) :
    (annotateItems chosen i vs)[k]? = vs[k]?.map (annotate fun p => chosen ((i + k) :: p)) := by
  induction vs generalizing i k with
  | nil => rfl
  | cons v vs ih =>
    cases k with
    | zero => rfl
    | succ k =>
      rw [annotateItems, List.getElem?_cons_succ, List.getElem?_cons_succ, ih, Nat.add_right_comm,
        Nat.add_assoc]

theorem map_annotateMembers (chosen : List Nat → Bool) (i : Nat) (ms : List (String × Json)) :
    (annotateMembers chosen i ms).map (·.2) = annotateItems chosen i (ms.map (·.2)) := by
  induction ms generalizing i with
  | nil => rfl
  | cons m ms ih => rw [annotateMembers, List.map_cons, List.map_cons, annotateItems, ih]

theorem children_annotateLeaf (h : v.children = []) : v.annotateLeaf.children = [] := by
  rw [annotateLeaf]
  split
  · rfl
  · exact h

theorem getElem?_children_annotate (chosen : List Nat → Bool) (v : Json) (k : Nat) :
    (v.annotate chosen).children[k]? =
      v.children[k]?.map (annotate fun p => chosen (k :: p)) := by
  cases v with
  | array items =>
    rw [annotate, children, children, getElem?_annotateItems, Nat.zero_add]
  | object members =>
    rw [annotate, children, children, map_annotateMembers, getElem?_annotateItems, Nat.zero_add]
  | null | bool _ | number _ | string _ =>
    simp only [annotate]
    split
    · rw [children_annotateLeaf rfl]
      rfl
    · rfl

/-- What is at a path in an annotated value is what was there, annotated in the same way. -/
theorem valueAt?_annotate (chosen : List Nat → Bool) (v : Json) (p : List Nat) :
    (v.annotate chosen).valueAt? p = (v.valueAt? p).map (annotate fun q => chosen (p ++ q)) := by
  induction p generalizing v chosen with
  | nil => rfl
  | cons k p ih =>
    rw [valueAt?, valueAt?, getElem?_children_annotate]
    cases v.children[k]? with
    | none => rfl
    | some child => exact ih _ child

end Json

namespace Api.Payload
open Json (annotate annotateItems annotateMembers)

variable {v : Json} {name : String}

/-! Types of annotated payloads -/

theorem isTypeName_typeName (v : Json) : IsTypeName (typeName v) := by
  unfold typeName
  split <;> exact ⟨by decide, List.all_eq_true.mp (by decide +kernel)⟩

/-- The type of a leaf is what it shows as a value, and its only candidate. -/
theorem typeName_of_leafType? (h : v.leafType? = some name) :
    typeName v = name ∧ ofJson v = .leaf [name] := by
  cases v with
  | null | bool _ =>
    cases h
    exact ⟨rfl, rfl⟩
  | number n => cases n <;> cases h <;> exact ⟨rfl, rfl⟩
  | string s =>
    rw [Json.leafType?] at h
    split at h
    · cases h
    · rename_i hvalue
      cases h
      refine ⟨rfl, ?_⟩
      rw [ofJson, if_neg hvalue]
  | array _ | object _ => cases h

theorem ofJson_annotateLeaf (v : Json) : ofJson v.annotateLeaf = ofJson v := by
  rw [Json.annotateLeaf]
  split
  · rename_i name htype
    obtain ⟨rfl, hleaf⟩ := typeName_of_leafType? htype
    rw [ofJson_bracketed (isTypeName_typeName v), hleaf]
  · rfl

-- The induction follows the value. It is for all choices at once, since each level has its own.
mutual

/-- A value shows the same shape with annotations as without. -/
theorem ofJson_annotate (chosen : List Nat → Bool) : ∀ v : Json,
    ofJson (v.annotate chosen) = ofJson v
  | .array items => by
    rw [annotate, ofJson, ofJson, ofItems_annotateItems chosen 0 items]
  | .object members => by
    rw [annotate, ofJson, ofJson, ofMembers_annotateMembers chosen 0 members]
  | .null | .bool _ | .number _ | .string _ => by
    simp only [annotate]
    split
    · exact ofJson_annotateLeaf _
    · rfl

/-- Items show the same shapes with annotations as without. -/
theorem ofItems_annotateItems (chosen : List Nat → Bool) : ∀ (i : Nat) (vs : List Json),
    ofItems (annotateItems chosen i vs) = ofItems vs
  | _, [] => rfl
  | i, v :: vs => by
    rw [annotateItems, ofItems, ofItems, ofJson_annotate _ v,
      ofItems_annotateItems chosen (i + 1) vs]

/-- Members show the same shapes with annotations as without. -/
theorem ofMembers_annotateMembers (chosen : List Nat → Bool) :
    ∀ (i : Nat) (ms : List (String × Json)),
      ofMembers (annotateMembers chosen i ms) = ofMembers ms
  | _, [] => rfl
  | i, (k, v) :: ms => by
    rw [annotateMembers, ofMembers, ofMembers, ofJson_annotate _ v,
      ofMembers_annotateMembers chosen (i + 1) ms]

end

/-- An example payload shows the same types, and gives the same parameters of a body, when leaves
are replaced by annotations for their types. Which ones makes no difference: each leaf that is not
an annotation itself, on any level, is replaced if its path is chosen and stays otherwise. -/
theorem annotate_agrees (chosen : List Nat → Bool) (v : Json) :
    ofJson (v.annotate chosen) = ofJson v ∧
    (ofJson (v.annotate chosen)).parameters = (ofJson v).parameters ∧
    ∀ p leaf name, v.valueAt? p = some leaf → leaf.leafType? = some name →
      (v.annotate chosen).valueAt? p =
        some (if chosen p then .string ("<" ++ name ++ ">") else leaf) := by
  have hshape := ofJson_annotate chosen v
  refine ⟨hshape, congrArg parameters hshape, ?_⟩
  intro p leaf name hleaf htype
  rw [Json.valueAt?_annotate, hleaf, Option.map_some, Json.annotate_of_leafType? htype,
    List.append_nil]
  rfl

/-- A payload with leaves of every type on several levels, one of them an annotation. -/
def order : Json := .object [
  ("id", .number (.int 7)),
  ("open", .bool true),
  ("tags", .array [.string "new", .string "<string>", .array []]),
  ("price", .object [("net", .number (.double ⟨false, 6755399441055744, -52⟩)), ("note", .null)])]

/-- Some of its leaves, and two paths where nothing can be replaced. -/
def orderLeaves : List (List Nat) := [[0], [2, 0], [2, 1], [2, 2], [3, 1]]

theorem annotate_order_agrees :
    order.valueAt? [2, 0] = some (.string "new") ∧
    (Json.string "new").leafType? = some "string" ∧
    (order.annotate orderLeaves.contains).valueAt? [2, 0] = some (.string "<string>") ∧
    ofJson (order.annotate orderLeaves.contains) = ofJson order ∧
    (ofJson (order.annotate orderLeaves.contains)).parameters = (ofJson order).parameters := by
  have hat : order.valueAt? [2, 0] = some (.string "new") := rfl
  have htype : (Json.string "new").leafType? = some "string" := by decide +kernel
  obtain ⟨hshape, hparameters, hleaves⟩ := annotate_agrees orderLeaves.contains order
  exact ⟨hat, htype, hleaves _ _ _ hat htype, hshape, hparameters⟩

end Api.Payload
end SdkSmith
