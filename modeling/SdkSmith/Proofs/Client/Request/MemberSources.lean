import SdkSmith.Proofs.Client.Plan.ClassNames
import SdkSmith.Proofs.Client.Request.Placeholders

/-!
The names that the members of a request have their variables from: those on the path, and those of
the parameters that are sent besides it. A variable that is no duplicate is given exactly if it is
that of such a name.
-/
namespace SdkSmith

namespace Naming

variable {l : List (String × String)} {taken : List String} {wanted name x : String}

/-- Whether a name is no duplicate of another one. -/
def IsOriginal (name : String) : Prop :=
  ∀ wanted n, name ≠ duplicateOf wanted n

theorem isOriginal_of_endsInDigit (h : endsInDigit name = false) : IsOriginal name := by
  rintro wanted n rfl
  rw [duplicateOf, endsInDigit_append (endsInDigit_toString n)] at h
  cases h

theorem Given.eq_of_isOriginal (h : Given taken wanted name) (hname : IsOriginal name) :
    name = wanted := by
  cases h with
  | wanted => rfl
  | duplicate n => exact absurd rfl (hname wanted n)

/-- A name that is no duplicate is given exactly if it is wanted. -/
theorem GivenInTurn.mem_iff (h : GivenInTurn l) (hx : IsOriginal x) :
    x ∈ l.map (·.2) ↔ x ∈ l.map (·.1) := by
  constructor
  · intro hmem
    obtain ⟨p, hp, rfl⟩ := List.mem_map.mp hmem
    obtain ⟨before, after, rfl⟩ := List.append_of_mem hp
    have hgiven := h (before, p) (mem_withEarlier.mpr ⟨after, rfl⟩)
    rw [hgiven.eq_of_isOriginal hx]
    exact List.mem_map_of_mem hp
  · intro hmem
    obtain ⟨p, hp, rfl⟩ := List.mem_map.mp hmem
    exact h.wanted_mem p hp

end Naming

namespace Client
open Naming (IsOriginal variableName)

variable {s : Settings} {e : Api.Endpoint} {c : Call} {x : String} {l : Lineup}

/-! The path -/

theorem Lineup.names_addNamed (l : Lineup) (place : Place) (p : Api.Parameter) :
    (l.addNamed place p).names =
      l.names ++ [Naming.freshVariable l.names (variableName p.name)] := by
  simp only [addNamed, add, names, List.map_append, List.map_singleton]

theorem Lineup.names_subset_addNamed (l : Lineup) (place : Place) (p : Api.Parameter) :
    l.names ⊆ (l.addNamed place p).names := by
  rw [names_addNamed]
  exact List.subset_append_left _ _

theorem Lineup.variable_mem_addNamed {p : Api.Parameter} (h : variableName p.name ∉ l.names)
    (place : Place) : variableName p.name ∈ (l.addNamed place p).names := by
  rw [names_addNamed, (Naming.freshVariable_given l.names (variableName p.name)).eq_wanted h,
    List.mem_append, List.mem_singleton]
  exact Or.inr rfl

/-- What is on a path stays, and each declared parameter has its variable. -/
theorem mem_names_foldl (ps : List Api.Parameter) (l : Lineup) :
    l.names ⊆ (ps.foldl (fun l p => if l.names.contains (variableName p.name) then l
      else l.addNamed .path p) l).names ∧
    ∀ p ∈ ps, variableName p.name ∈ (ps.foldl (fun l p =>
      if l.names.contains (variableName p.name) then l else l.addNamed .path p) l).names := by
  induction ps generalizing l with
  | nil => exact ⟨List.Subset.refl _, List.forall_mem_nil _⟩
  | cons p ps ih =>
    rw [List.foldl_cons, List.forall_mem_cons]
    split
    · rename_i hp
      obtain ⟨hkept, hall⟩ := ih l
      exact ⟨hkept, hkept (List.mem_of_elem_eq_true hp), hall⟩
    · rename_i hp
      rw [List.contains_iff_mem] at hp
      obtain ⟨hkept, hall⟩ := ih (l.addNamed .path p)
      exact ⟨List.Subset.trans (l.names_subset_addNamed .path p) hkept,
        hkept (Lineup.variable_mem_addNamed hp .path), hall⟩

/-- A member of a path is that of a placeholder or of a declared parameter. -/
theorem origin_pathMembers (e : Api.Endpoint) : ∀ m ∈ (pathMembers e).members,
    (∃ n ∈ e.placeholders, variableName n = variableName m.parameter.name) ∨
      m.parameter ∈ e.pathParameters := by
  have hplaced : ∀ m ∈ (placed e).members,
      (∃ n ∈ e.placeholders, variableName n = variableName m.parameter.name) ∨
        m.parameter ∈ e.pathParameters := by
    intro m hm
    obtain ⟨n, hn, hparameter⟩ := exists_placeholder hm
    exact Or.inl ⟨n, hn, by rw [← hparameter, variableName_placeholderParameter]⟩
  refine List.foldlRecOn (motive := fun l : Lineup => ∀ m ∈ l.members,
    (∃ n ∈ e.placeholders, variableName n = variableName m.parameter.name) ∨
      m.parameter ∈ e.pathParameters) e.pathParameters _ hplaced ?_
  intro l hl p hp
  split
  · exact hl
  · rw [Lineup.addNamed, Lineup.add]
    exact List.forall_mem_append.mpr ⟨hl, List.forall_mem_singleton.mpr (Or.inr hp)⟩

theorem mem_names_iff {ms : List Member} (h : Naming.GivenInTurn (ms.map Member.pair))
    (hx : IsOriginal x) :
    x ∈ ms.map (·.name) ↔ ∃ m ∈ ms, variableName m.parameter.name = x := by
  have hgiven := h.mem_iff hx
  simp only [List.map_map, Function.comp_def, Member.pair] at hgiven
  rw [hgiven, List.mem_map]

/-- The names on a path, of placeholders and of declared parameters. -/
def pathNames (e : Api.Endpoint) : List String :=
  e.placeholders ++ e.pathParameters.map (·.name)

theorem mem_names_pathMembers (hx : IsOriginal x) :
    x ∈ (pathMembers e).members.map (·.name) ↔ ∃ n ∈ pathNames e, variableName n = x := by
  constructor
  · intro hmem
    obtain ⟨m, hm, rfl⟩ := (mem_names_iff (sound_pathMembers e).given hx).mp hmem
    rcases origin_pathMembers e m hm with ⟨n, hn, hvariable⟩ | hp
    · exact ⟨n, List.mem_append_left _ hn, hvariable⟩
    · exact ⟨m.parameter.name, List.mem_append_right _ (List.mem_map_of_mem hp), rfl⟩
  · rintro ⟨n, hn, rfl⟩
    rcases List.mem_append.mp hn with hn | hn
    · exact List.map_subset _ (placed_subset e) (variable_mem_names hn)
    · obtain ⟨p, hp, rfl⟩ := List.mem_map.mp hn
      exact (mem_names_foldl e.pathParameters (placed e)).2 p hp

/-! The members of a request -/

/-- The parameters of an endpoint that are sent besides the path. -/
def sentParameters (s : Settings) (e : Api.Endpoint) : List Api.Parameter :=
  sent s.ignoresBody e.bodyParameters ++ sent s.ignoresQuery e.queryParameters ++
    sent s.ignoresHeader e.headerParameters

/-- The names that the members of a request have their variables from. -/
def memberSources (s : Settings) (e : Api.Endpoint) : List String :=
  pathNames e ++ (sentParameters s e).map (·.name)

theorem Call.Arranged.members_split (h : c.Arranged s) : ∃ ms,
    c.members = (pathMembers c.endpoint).members ++ ms ∧
      ms.map (·.parameter) = sentParameters s c.endpoint := by
  refine ⟨c.membersIn .body ++ c.membersIn .query ++ c.membersIn .header, ?_, ?_⟩
  · rw [← h.path, ← List.append_assoc, ← List.append_assoc]
    exact h.members_eq
  · rw [List.map_append, List.map_append, h.body, h.query, h.header, sentParameters]

/-- A variable that is no duplicate is that of a member exactly if it is that of some name. -/
theorem mem_names_members (h : c.members = (members s c.endpoint).members) (hx : IsOriginal x) :
    x ∈ c.members.map (·.name) ↔ ∃ n ∈ memberSources s c.endpoint, variableName n = x := by
  have hgiven := (sound_members s c.endpoint).given
  rw [← h] at hgiven
  obtain ⟨ms, hsplit, hsent⟩ := (Call.arranged h).members_split
  have hpath : x ∈ (pathMembers c.endpoint).members.map (·.name) → x ∈ c.members.map (·.name) := by
    rw [hsplit, List.map_append]
    exact List.mem_append_left _
  constructor
  · intro hmem
    obtain ⟨m, hm, hvariable⟩ := (mem_names_iff hgiven hx).mp hmem
    rw [hsplit, List.mem_append] at hm
    rcases hm with hm | hm
    · -- a member of the path may stand for a placeholder that has another name and its variable
      have hnamed := (mem_names_iff (sound_pathMembers c.endpoint).given hx).mpr ⟨m, hm, hvariable⟩
      obtain ⟨n, hn, hname⟩ := (mem_names_pathMembers hx).mp hnamed
      exact ⟨n, List.mem_append_left _ hn, hname⟩
    · have hparameter : m.parameter ∈ sentParameters s c.endpoint :=
        hsent ▸ List.mem_map_of_mem hm
      exact ⟨m.parameter.name, List.mem_append_right _ (List.mem_map_of_mem hparameter), hvariable⟩
  · rintro ⟨n, hn, hname⟩
    rcases List.mem_append.mp hn with hn | hn
    · exact hpath ((mem_names_pathMembers hx).mpr ⟨n, hn, hname⟩)
    · obtain ⟨p, hp, rfl⟩ := List.mem_map.mp hn
      rw [← hsent] at hp
      obtain ⟨m, hm, rfl⟩ := List.mem_map.mp hp
      refine (mem_names_iff hgiven hx).mpr ⟨m, ?_, hname⟩
      rw [hsplit]
      exact List.mem_append_right _ hm

end Client
end SdkSmith
