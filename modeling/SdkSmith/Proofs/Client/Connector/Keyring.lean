import SdkSmith.Client.Connector

/-!
The keys that a connector is given. They are the first for each variable of those that clients know
how to send: a key in a cookie is passed over, though it holds its variable for a moment.
-/
namespace SdkSmith.Client

variable {d : Api.Description} {r : Api.SecurityRequirement} {c : Credential} {x : String}

/-! The first of each name -/

theorem mem_names_firstOfName {α : Type} (name : α → String) (taken : List String) (l : List α) :
    x ∈ (firstOfName name taken l).map name ↔ x ∈ l.map name ∧ x ∉ taken := by
  induction l generalizing taken with
  | nil => simp [firstOfName]
  | cons a l ih =>
    rw [firstOfName]
    split
    · rename_i htaken
      rw [List.contains_iff_mem] at htaken
      rw [ih, List.map_cons, List.mem_cons]
      constructor
      · rintro ⟨hx, hfree⟩
        exact ⟨Or.inr hx, hfree⟩
      · rintro ⟨rfl | hx, hfree⟩
        · exact absurd htaken hfree
        · exact ⟨hx, hfree⟩
    · rename_i hfree
      rw [List.contains_iff_mem] at hfree
      rw [List.map_cons, List.mem_cons, ih, List.map_cons, List.mem_cons, List.mem_cons, not_or]
      constructor
      · rintro (rfl | ⟨hx, -, hnot⟩)
        · exact ⟨Or.inl rfl, hfree⟩
        · exact ⟨Or.inr hx, hnot⟩
      · rintro ⟨hx, hnot⟩
        by_cases heq : x = name a
        · exact Or.inl heq
        · exact Or.inr ⟨hx.resolve_left heq, heq, hnot⟩

theorem nodup_firstOfName {α : Type} (name : α → String) (taken : List String) (l : List α) :
    ((firstOfName name taken l).map name).Nodup := by
  induction l generalizing taken with
  | nil => exact List.nodup_nil
  | cons a l ih =>
    rw [firstOfName]
    split
    · exact ih taken
    · rw [List.map_cons, List.nodup_cons]
      refine ⟨fun hmem => ?_, ih _⟩
      exact ((mem_names_firstOfName name _ l).mp hmem).2 List.mem_cons_self

theorem firstOfName_sublist {α : Type} (name : α → String) (taken : List String) (l : List α) :
    (firstOfName name taken l).Sublist l := by
  induction l generalizing taken with
  | nil => exact List.Sublist.slnil
  | cons a l ih =>
    rw [firstOfName]
    split
    · exact (ih taken).cons a
    · exact (ih _).cons_cons a

theorem find?_of_mem_firstOfName {α : Type} {name : α → String} {taken : List String} {l : List α}
    {a : α} (h : a ∈ firstOfName name taken l) :
    l.find? (fun b => name b == name a) = some a := by
  induction l generalizing taken with
  | nil => cases h
  | cons b l ih =>
    have hfree := ((mem_names_firstOfName name taken _).mp (List.mem_map_of_mem h)).2
    rw [firstOfName] at h
    split at h
    · rename_i htaken
      rw [List.contains_iff_mem] at htaken
      rw [List.find?_cons_of_neg, ih h]
      rw [beq_iff_eq]
      intro heq
      exact hfree (heq ▸ htaken)
    · rcases List.mem_cons.mp h with rfl | h
      · exact List.find?_cons_of_pos (beq_self_eq_true _)
      · rw [List.find?_cons_of_neg, ih h]
        -- what is kept after it has another name
        have hnot := ((mem_names_firstOfName name _ l).mp (List.mem_map_of_mem h)).2
        rw [beq_iff_eq]
        intro heq
        exact hnot (heq ▸ List.mem_cons_self)

theorem firstOfName_append {α : Type} (name : α → String) (taken : List String) (as bs : List α) :
    firstOfName name taken (as ++ bs) = firstOfName name taken as ++
      firstOfName name (((firstOfName name taken as).map name).reverse ++ taken) bs := by
  induction as generalizing taken with
  | nil => rfl
  | cons a as ih =>
    rw [List.cons_append, firstOfName, firstOfName]
    split
    · exact ih taken
    · rw [ih, List.cons_append, List.map_cons, List.reverse_cons, List.append_assoc,
        List.singleton_append]

/-! Requirements -/

/-- The location of keys that travel in a part of requests. -/
def Carrier.location : Carrier → Api.KeyLocation
  | .header => .header
  | .query => .query

/-- The credential that a requirement asks for, if clients know how to send it. -/
def credential? (d : Api.Description) (r : Api.SecurityRequirement) : Option Credential :=
  match Table.find? r.scheme d.components.securitySchemes with
  | some (.apiKey key .header about) => some ⟨key, .header, about⟩
  | some (.apiKey key .query about) => some ⟨key, .query, about⟩
  | _ => none

/-- The credentials that are asked for, some perhaps more than once. -/
def asked (d : Api.Description) : List Credential :=
  d.security.filterMap (credential? d)

theorem credential?_eq_some : credential? d r = some c ↔
    Table.find? r.scheme d.components.securitySchemes =
      some (.apiKey c.key c.carrier.location c.description) := by
  obtain ⟨key, carrier, about⟩ := c
  unfold credential?
  split
  · rename_i hfind
    rw [hfind]
    cases carrier <;> simp [Carrier.location]
  · rename_i hfind
    rw [hfind]
    cases carrier <;> simp [Carrier.location]
  · rename_i hheader hquery
    constructor
    · intro hnone
      cases hnone
    · intro hfind
      cases carrier with
      | header => exact absurd hfind (hheader _ _)
      | query => exact absurd hfind (hquery _ _)

theorem mem_asked : c ∈ asked d ↔ ∃ r ∈ d.security,
    Table.find? r.scheme d.components.securitySchemes =
      some (.apiKey c.key c.carrier.location c.description) := by
  simp only [asked, List.mem_filterMap, credential?_eq_some]

namespace Keyring

variable {ring : Keyring}

/-- A keyring with more credentials, each of which takes its variable. -/
def extend (ring : Keyring) (cs : List Credential) : Keyring :=
  ⟨(cs.map (·.name)).reverse ++ ring.taken, ring.credentials ++ cs⟩

theorem extend_nil (ring : Keyring) : ring.extend [] = ring := by
  rw [extend, List.map_nil, List.reverse_nil, List.nil_append, List.append_nil]

theorem extend_append (ring : Keyring) (as bs : List Credential) :
    ring.extend (as ++ bs) = (ring.extend as).extend bs := by
  simp only [extend, List.map_append, List.reverse_append, List.append_assoc]

theorem add_of_none (h : credential? d r = none) :
    ring.add d r = ring := by
  unfold credential? at h
  split at h
  · cases h
  · cases h
  · rename_i hheader hquery
    unfold add
    split
    · rename_i key location about hfind
      cases location with
      | header => exact absurd hfind (hheader key about)
      | query => exact absurd hfind (hquery key about)
      | cookie =>
        -- the variable was not taken before, so giving it back leaves things as they were
        simp only [List.erase_cons_head, ite_self]
    · rfl

theorem add_of_some (h : credential? d r = some c) :
    ring.add d r = ring.extend (firstOfName Credential.name ring.taken [c]) := by
  have hadd : ring.add d r = if ring.taken.contains c.name then ring
      else ⟨c.name :: ring.taken, ring.credentials ++ [c]⟩ := by
    rw [add, credential?_eq_some.mp h]
    obtain ⟨key, carrier, about⟩ := c
    cases carrier with
    | header => rfl
    | query => rfl
  rw [hadd, firstOfName]
  split
  · exact (extend_nil ring).symm
  · rfl

/-- Going through requirements keeps the first credential for each variable that is free. -/
theorem foldl_add (d : Api.Description) (rs : List Api.SecurityRequirement) (ring : Keyring) :
    rs.foldl (add d) ring =
      ring.extend (firstOfName Credential.name ring.taken (rs.filterMap (credential? d))) := by
  induction rs generalizing ring with
  | nil => exact (extend_nil ring).symm
  | cons r rs ih =>
    rw [List.foldl_cons, ih]
    cases hc : credential? d r with
    | none => rw [add_of_none hc, List.filterMap_cons_none hc]
    | some c =>
      have hsplit : c :: rs.filterMap (credential? d) = [c] ++ rs.filterMap (credential? d) := rfl
      rw [add_of_some hc, List.filterMap_cons_some hc, hsplit, firstOfName_append, extend_append]
      rfl

end Keyring

theorem credentials_eq (d : Api.Description) :
    credentials d = firstOfName Credential.name [] (asked d) := by
  rw [credentials, keyring, Keyring.foldl_add]
  rfl

theorem credentials_subset (d : Api.Description) : credentials d ⊆ asked d :=
  credentials_eq d ▸ (firstOfName_sublist _ _ _).subset

theorem nodup_credentials (d : Api.Description) : ((credentials d).map (·.name)).Nodup :=
  credentials_eq d ▸ nodup_firstOfName _ _ _

theorem mem_names_credentials :
    x ∈ (credentials d).map (·.name) ↔ x ∈ (asked d).map (·.name) := by
  rw [credentials_eq, mem_names_firstOfName]
  exact and_iff_left List.not_mem_nil

/-- The variables that are taken in the end are those of the credentials. -/
theorem mem_taken_keyring : x ∈ (keyring d).taken ↔ x ∈ (credentials d).map (·.name) := by
  rw [credentials_eq, keyring, Keyring.foldl_add, Keyring.extend, List.append_nil,
    List.mem_reverse, asked]

end SdkSmith.Client
