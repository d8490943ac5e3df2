import Mathlib.Data.List.Perm.Subperm
import SdkSmith.Proofs.Client.Request.Methods
import SdkSmith.Proofs.Naming.Identifiers

/-!
Placeholders and what is read for them. Each placeholder has a member of its own, and the members
are given their variables in turn; but a placeholder is replaced by the first member of its
variable, whichever that is.
-/
namespace SdkSmith

namespace Php

/-- The name that a part stands for, with the property that is read for it. -/
def Part.substitution? : Part → Option (String × String)
  | .literal _ => none
  | .property source target => some (source, target)

/-- What an interpolated text replaces: each name with the property that is read for it. -/
def Expr.substitutions : Expr → List (String × String)
  | .interpolated parts => parts.filterMap Part.substitution?
  | _ => []

end Php

namespace Client
open Naming (GivenInTurn camelCase startsWithLetter variableName)
open Php (Expr Method Part)

variable {s : Settings} {d : Api.Description} {r : Resource} {c : Call} {e : Api.Endpoint}
  {ms : List Member} {n : String}

/-! Members for placeholders -/

/-- The members that stand for the placeholders of an endpoint. -/
def placed (e : Api.Endpoint) : Lineup :=
  e.placeholders.foldl
    (fun l name => l.add .path (variableName name) (placeholderParameter e name)) .empty

theorem parameters_foldl_add {α : Type} (place : Place) (wanted : α → String)
    (parameter : α → Api.Parameter) (xs : List α) (l : Lineup) :
    (xs.foldl (fun l x => l.add place (wanted x) (parameter x)) l).members.map (·.parameter) =
      l.members.map (·.parameter) ++ xs.map parameter := by
  induction xs generalizing l with
  | nil => exact (List.append_nil _).symm
  | cons x xs ih =>
    rw [List.foldl_cons, ih, Lineup.add, List.map_append, List.append_assoc]
    rfl

/-- There is a member for each placeholder, with its parameter. -/
theorem parameters_placed (e : Api.Endpoint) :
    (placed e).members.map (·.parameter) = e.placeholders.map (placeholderParameter e) :=
  parameters_foldl_add .path variableName (placeholderParameter e) e.placeholders .empty

theorem exists_placeholder {m : Member} (hm : m ∈ (placed e).members) :
    ∃ k ∈ e.placeholders, placeholderParameter e k = m.parameter := by
  have hmem : m.parameter ∈ (placed e).members.map (·.parameter) := List.mem_map_of_mem hm
  rw [parameters_placed] at hmem
  exact List.mem_map.mp hmem

/-- The members for placeholders come first, and those after them want none of their variables. -/
theorem members_pathMembers (e : Api.Endpoint) : ∃ rest,
    (pathMembers e).members = (placed e).members ++ rest ∧
      ∀ m ∈ rest, variableName m.parameter.name ∉ (placed e).names := by
  refine List.foldlRecOn (motive := fun l : Lineup => ∃ rest,
    l.members = (placed e).members ++ rest ∧
      ∀ m ∈ rest, variableName m.parameter.name ∉ (placed e).names) e.pathParameters _ ?_ ?_
  · exact ⟨[], (List.append_nil _).symm, List.forall_mem_nil _⟩
  · rintro l ⟨rest, hrest, hfree⟩ p -
    split
    · exact ⟨rest, hrest, hfree⟩
    · rename_i hp
      rw [List.contains_iff_mem] at hp
      have hnot : variableName p.name ∉ (placed e).names := by
        intro hmem
        apply hp
        rw [Lineup.names, hrest, List.map_append]
        exact List.mem_append_left _ hmem
      refine ⟨rest ++ [⟨.path, Naming.freshVariable l.names (variableName p.name), p⟩], ?_, ?_⟩
      · rw [Lineup.addNamed, Lineup.add, hrest, List.append_assoc]
      · exact List.forall_mem_append.mpr ⟨hfree, List.forall_mem_singleton.mpr hnot⟩

theorem placed_subset (e : Api.Endpoint) : (placed e).members ⊆ (pathMembers e).members := by
  obtain ⟨rest, hrest, -⟩ := members_pathMembers e
  rw [hrest]
  exact List.subset_append_left _ _

theorem wanted_placed (e : Api.Endpoint) :
    ((placed e).members.map Member.pair).map (·.1) = e.placeholders.map variableName := by
  have hparameters := congrArg (List.map fun p => variableName p.name) (parameters_placed e)
  simp only [List.map_map, Function.comp_def, variableName_placeholderParameter] at hparameters
  simpa only [List.map_map, Function.comp_def, Member.pair] using hparameters

theorem given_placed (e : Api.Endpoint) : GivenInTurn ((placed e).members.map Member.pair) := by
  obtain ⟨rest, hrest, -⟩ := members_pathMembers e
  have hgiven := (sound_pathMembers e).given
  rw [hrest, List.map_append] at hgiven
  exact hgiven.of_append

/-! The member that is read -/

theorem variableName_eq_camelCase (h : camelCase n ≠ "") : variableName n = camelCase n := by
  rw [variableName, if_neg (by rwa [String.isEmpty_iff])]

theorem given_of_append {before after : List Member} {m : Member}
    (h : GivenInTurn ((before ++ m :: after).map Member.pair)) :
    Naming.Given (before.map (·.name)) (variableName m.parameter.name) m.name := by
  have hturn := h (before.map Member.pair, m.pair) (mem_withEarlier.mpr
    ⟨after.map Member.pair, by rw [List.map_append, List.map_cons]⟩)
  simpa only [List.map_map, Function.comp_def, Member.pair] using hturn

/-- Among members that were given their variables in turn, the first that stands for a placeholder
has the placeholder's variable. -/
theorem find?_standsFor (hgiven : GivenInTurn (ms.map Member.pair))
    (hmem : camelCase n ∈ ms.map (·.name)) (hwords : camelCase n ≠ "") :
    (ms.find? fun m => m.standsFor n).map (·.name) = some (camelCase n) := by
  obtain ⟨k, hk, hname⟩ := List.mem_map.mp hmem
  have hsome : (ms.find? fun m => m.standsFor n).isSome := by
    rw [List.find?_isSome]
    exact ⟨k, hk, by rw [Member.standsFor, hname, beq_self_eq_true, Bool.or_true]⟩
  obtain ⟨m, hm⟩ := Option.isSome_iff_exists.mp hsome
  rw [hm, Option.map_some, Option.some_inj]
  obtain ⟨hstands, before, after, rfl, hfirst⟩ := List.find?_eq_some_iff_append.mp hm
  rw [Member.standsFor, Bool.or_eq_true, beq_iff_eq, beq_iff_eq] at hstands
  rcases hstands with hparameter | hvariable
  · -- it is the variable that the member wanted, which no member before it has
    have hwanted : variableName m.parameter.name = camelCase n := by
      rw [hparameter, variableName_eq_camelCase hwords]
    have hturn := given_of_append hgiven
    rw [hwanted] at hturn
    apply hturn.eq_wanted
    intro hbefore
    obtain ⟨q, hq, hqname⟩ := List.mem_map.mp hbefore
    have hqstands : q.standsFor n = true := by
      rw [Member.standsFor, hqname, beq_self_eq_true, Bool.or_true]
    simpa [hqstands] using hfirst q hq
  · exact hvariable

theorem variable_mem_names (hn : n ∈ e.placeholders) : variableName n ∈ (placed e).names := by
  have hwanted : variableName n ∈ ((placed e).members.map Member.pair).map (·.1) := by
    rw [wanted_placed]
    exact List.mem_map_of_mem hn
  obtain ⟨x, hx, hxn⟩ := List.mem_map.mp hwanted
  rw [Lineup.names_eq, ← hxn]
  exact (given_placed e).wanted_mem x hx

/-- A placeholder with words is replaced by its variable. -/
theorem propertyFor_eq_camelCase (h : c.membersIn .path = (pathMembers c.endpoint).members)
    (hn : n ∈ c.endpoint.placeholders) (hwords : camelCase n ≠ "") :
    c.propertyFor n = camelCase n := by
  have hmem : camelCase n ∈ (pathMembers c.endpoint).members.map (·.name) := by
    rw [← variableName_eq_camelCase hwords]
    exact List.map_subset _ (placed_subset _) (variable_mem_names hn)
  have hfind := find?_standsFor (sound_pathMembers c.endpoint).given hmem hwords
  rw [← h] at hfind
  obtain ⟨m, hm, hname⟩ := Option.map_eq_some_iff.mp hfind
  rw [Call.propertyFor, hm]
  exact hname

/-! Placeholders without words -/

theorem startsWithLetter_of_given {taken : List String} {text name : String}
    (h : Naming.Given taken (variableName text) name) : startsWithLetter name := by
  have hletter := Naming.startsWithLetter_variableName text
  cases h with
  | wanted => exact hletter
  | duplicate k =>
    rw [Naming.duplicateOf, String.append_assoc]
    exact Naming.startsWithLetter_append hletter _

/-- The names of members begin with letters. -/
theorem startsWithLetter_name (h : GivenInTurn (ms.map Member.pair)) :
    ∀ m ∈ ms, startsWithLetter m.name := by
  intro m hm
  obtain ⟨before, after, rfl⟩ := List.append_of_mem hm
  exact startsWithLetter_of_given (given_of_append h)

theorem standsFor_iff {m : Member} (hletter : startsWithLetter m.name) (hwords : camelCase n = "") :
    m.standsFor n ↔ m.parameter.name = n := by
  have hname : m.name ≠ "" := by
    intro hempty
    rw [hempty] at hletter
    cases hletter
  rw [Member.standsFor, hwords, Bool.or_eq_true, beq_iff_eq, beq_iff_eq, or_iff_left hname]

/-- The variable of a placeholder is wanted only for placeholders. -/
theorem mem_placed {m : Member} (hm : m ∈ (pathMembers e).members) (hn : n ∈ e.placeholders)
    (hvariable : variableName m.parameter.name = variableName n) : m ∈ (placed e).members := by
  obtain ⟨rest, hrest, hfree⟩ := members_pathMembers e
  rw [hrest, List.mem_append] at hm
  rcases hm with hm | hm
  · exact hm
  · have hnot := hfree m hm
    rw [hvariable] at hnot
    exact absurd (variable_mem_names hn) hnot

theorem placeholderParameter_congr {k : String} (hvariable : variableName k = variableName n)
    (hname : (placeholderParameter e k).name = n) : (placeholderParameter e n).name = n := by
  unfold placeholderParameter at hname ⊢
  rw [hvariable] at hname
  cases h : e.pathParameters.find? fun p => variableName p.name == variableName n with
  | none => rfl
  | some p => rwa [h] at hname

/-- A member stands for a placeholder without words exactly if the placeholder's own parameter has
the placeholder's name. -/
theorem exists_standsFor (hn : n ∈ e.placeholders) (hwords : camelCase n = "") :
    (∃ m ∈ (pathMembers e).members, m.standsFor n) ↔ (placeholderParameter e n).name = n := by
  have hletter := startsWithLetter_name (sound_pathMembers e).given
  constructor
  · rintro ⟨m, hm, hstands⟩
    rw [standsFor_iff (hletter m hm) hwords] at hstands
    obtain ⟨k, -, hk⟩ := exists_placeholder (mem_placed hm hn (by rw [hstands]))
    have hname : (placeholderParameter e k).name = n := by rw [hk, hstands]
    refine placeholderParameter_congr ?_ hname
    rw [← variableName_placeholderParameter e k, hname]
  · intro hname
    have hparameter : placeholderParameter e n ∈ (placed e).members.map (·.parameter) := by
      rw [parameters_placed]
      exact List.mem_map_of_mem hn
    obtain ⟨m, hm, hmn⟩ := List.mem_map.mp hparameter
    have hmem : m ∈ (pathMembers e).members := placed_subset e hm
    exact ⟨m, hmem, (standsFor_iff (hletter m hmem) hwords).mpr (by rw [hmn, hname])⟩

theorem find?_of_wordless (h : c.membersIn .path = (pathMembers c.endpoint).members)
    (hn : n ∈ c.endpoint.placeholders) (hwords : camelCase n = "")
    (hown : (placeholderParameter c.endpoint n).name = n) :
    ∃ m, ((c.membersIn .path).find? fun m => m.standsFor n) = some m ∧ m.parameter.name = n := by
  have hany := (exists_standsFor hn hwords).mpr hown
  rw [← h] at hany
  obtain ⟨m, hm⟩ := Option.isSome_iff_exists.mp (List.find?_isSome.mpr hany)
  have hmem : m ∈ (pathMembers c.endpoint).members := h ▸ List.mem_of_find?_eq_some hm
  have hletter := startsWithLetter_name (sound_pathMembers c.endpoint).given m hmem
  have hstands : m.standsFor n := List.find?_some (p := fun m : Member => m.standsFor n) hm
  exact ⟨m, hm, (standsFor_iff hletter hwords).mp hstands⟩

/-- If no two placeholders have one variable, each is replaced by its variable, as long as the
parameter of one without words has its name. -/
theorem propertyFor_eq_variableName (h : c.membersIn .path = (pathMembers c.endpoint).members)
    (hdistinct : (c.endpoint.placeholders.map variableName).Nodup)
    (hn : n ∈ c.endpoint.placeholders)
    (hspelled : camelCase n = "" → (placeholderParameter c.endpoint n).name = n) :
    c.propertyFor n = variableName n := by
  by_cases hwords : camelCase n = ""
  · obtain ⟨m, hm, hparameter⟩ := find?_of_wordless h hn hwords (hspelled hwords)
    have hmem : m ∈ (pathMembers c.endpoint).members := h ▸ List.mem_of_find?_eq_some hm
    have hplaced := mem_placed hmem hn (by rw [hparameter])
    -- no variable gave way, so the member has the one that it wanted
    have hnames := (given_placed c.endpoint).names_eq_iff.mpr (by rwa [wanted_placed])
    simp only [List.map_map, List.map_inj_left, Function.comp_def, Member.pair] at hnames
    simp only [Call.propertyFor, hm]
    rw [hnames m hplaced, hparameter]
  · rw [propertyFor_eq_camelCase h hn hwords, variableName_eq_camelCase hwords]

/-- A member for a placeholder has the first declared parameter of its variable. -/
theorem parameter_eq {m : Member} {p : Api.Parameter} (hm : m ∈ (placed e).members)
    (hvariable : variableName m.parameter.name = variableName n)
    (hp : e.pathParameters.find? (fun q => variableName q.name == variableName n) = some p) :
    m.parameter = p := by
  obtain ⟨k, -, hparameter⟩ := exists_placeholder hm
  rw [← hparameter, variableName_placeholderParameter] at hvariable
  rw [← hparameter, placeholderParameter, hvariable, hp, Option.getD_some]

/-- The member that is read for a declared placeholder has the declared parameter, as long as its
variable was not given as a duplicate of another one. -/
theorem exists_propertyFor {p : Api.Parameter}
    (h : c.membersIn .path = (pathMembers c.endpoint).members)
    (hn : n ∈ c.endpoint.placeholders) (hname : p.name = n)
    (hp : c.endpoint.pathParameters.find? (fun q => variableName q.name == variableName n) = some p)
    (hfree : ∀ m ∈ c.membersIn .path, m.name = variableName n →
      variableName m.parameter.name = m.name) :
    ∃ m ∈ c.membersIn .path, m.parameter = p ∧ c.propertyFor n = m.name := by
  by_cases hwords : camelCase n = ""
  · have hown : (placeholderParameter c.endpoint n).name = n := by
      rw [placeholderParameter, hp, Option.getD_some, hname]
    obtain ⟨m, hm, hparameter⟩ := find?_of_wordless h hn hwords hown
    have hmem := List.mem_of_find?_eq_some hm
    refine ⟨m, hmem, ?_, by rw [Call.propertyFor, hm]⟩
    rw [h] at hmem
    exact parameter_eq (mem_placed hmem hn (by rw [hparameter])) (by rw [hparameter]) hp
  · obtain ⟨m, hm, hmn⟩ := List.mem_map.mp (variable_mem_names hn)
    have hmem : m ∈ c.membersIn .path := h ▸ placed_subset c.endpoint hm
    have hvariable : variableName m.parameter.name = variableName n := (hfree m hmem hmn).trans hmn
    refine ⟨m, hmem, parameter_eq hm hvariable hp, ?_⟩
    rw [propertyFor_eq_camelCase h hn hwords, ← variableName_eq_camelCase hwords, hmn]

/-! The expression for a path -/

theorem substitutions_endpointParts (property : String → String) (text : String)
    (segments : List Api.PathSegment) :
    (endpointParts property text segments).filterMap Part.substitution? =
      (segments.filterMap Api.PathSegment.name?).map fun name => (name, property name) := by
  induction segments generalizing text with
  | nil =>
    rw [endpointParts]
    split <;> rfl
  | cons segment segments ih =>
    cases segment with
    | literal t => exact ih (text ++ "/" ++ t)
    | placeholder name =>
      simp only [endpointParts, List.filterMap_cons, Part.substitution?, ih, Api.PathSegment.name?,
        List.map_cons]

/-- The expression for a path replaces each placeholder, in order. -/
theorem substitutions_endpointExpr (c : Call) : c.endpointExpr.substitutions =
    c.endpoint.placeholders.map fun name => (name, c.propertyFor name) := by
  have hparts := substitutions_endpointParts c.propertyFor "" c.endpoint.segments
  rw [Call.endpointExpr]
  split
  · rename_i hempty
    rw [Api.Endpoint.placeholders, List.isEmpty_iff.mp hempty]
    rfl
  · rw [Api.Endpoint.placeholders, ← hparts]
    split
    · rename_i text heq
      rw [heq]
      rfl
    · rfl

/-- The method that makes the path. -/
theorem resolveEndpoint_requestFile (d : Api.Description) (s : Settings) (classes : DtoClasses)
    (r : Resource) (c : Call) :
    (requestFile d s classes r c).declaration.method? "resolveEndpoint" =
      some (.returning "resolveEndpoint" [] .string c.endpointExpr) := by
  obtain ⟨response, hmethod⟩ := method?_requestFile d s classes r c "resolveEndpoint"
  rw [hmethod]
  rfl

/-- As many names as there are different ones among them are different themselves. -/
theorem nodup_of_subset {xs ys : List String} (hxs : xs.Nodup) (hsub : xs ⊆ ys)
    (hlength : ys.length = xs.length) : ys.Nodup :=
  ((List.subperm_of_subset hxs hsub).perm_of_length_le (Nat.le_of_eq hlength)).nodup_iff.mp hxs

theorem nodup_names_placed (e : Api.Endpoint) : ((placed e).members.map (·.name)).Nodup := by
  have hdistinct := (given_placed e).nodup
  rwa [← Lineup.names_eq] at hdistinct

/-- Placeholders of different variables are replaced by their own members. -/
theorem map_propertyFor (h : c.membersIn .path = (pathMembers c.endpoint).members)
    (hdistinct : (c.endpoint.placeholders.map variableName).Nodup)
    (hspelled : ∀ n ∈ c.endpoint.placeholders,
      camelCase n = "" → (placeholderParameter c.endpoint n).name = n) :
    c.endpoint.placeholders.map c.propertyFor = (placed c.endpoint).members.map (·.name) := by
  have hnames := (given_placed c.endpoint).names_eq_iff.mpr (by rwa [wanted_placed])
  rw [wanted_placed, ← Lineup.names_eq] at hnames
  rw [← Lineup.names, hnames]
  refine List.map_congr_left fun n hn => ?_
  exact propertyFor_eq_variableName h hdistinct hn (hspelled n hn)

/-- If placeholders with words leave none of their members out, their variables are different. -/
theorem nodup_of_read (h : c.membersIn .path = (pathMembers c.endpoint).members)
    (hwords : ∀ n ∈ c.endpoint.placeholders, camelCase n ≠ "")
    (hall : ∀ q ∈ (placed c.endpoint).members,
      q.name ∈ c.endpoint.placeholders.map c.propertyFor) :
    (c.endpoint.placeholders.map variableName).Nodup := by
  have hvariables : c.endpoint.placeholders.map c.propertyFor =
      c.endpoint.placeholders.map variableName := by
    refine List.map_congr_left fun n hn => ?_
    rw [propertyFor_eq_camelCase h hn (hwords n hn), variableName_eq_camelCase (hwords n hn)]
  rw [hvariables] at hall
  refine nodup_of_subset (nodup_names_placed _) (List.forall_mem_map.mpr hall) ?_
  have hlength := congrArg List.length (wanted_placed c.endpoint)
  simpa only [List.length_map] using hlength.symm

/-- A request has a member for each placeholder, with the parameter of the placeholder, and these
are the first parameters of its constructor. If no two placeholders have one variable, each is
replaced by its own member, as long as the parameter of one without words has its name. If two
placeholders with words have one variable, some of these members is never read. -/
theorem requestFile_substitutes (classes : DtoClasses)
    (hr : r ∈ (Plan.ofDescription d s).resources) (hc : c ∈ r.calls) :
    ∃ m e own rest,
      (requestFile d s classes r c).declaration.method? "resolveEndpoint" = some m ∧
      m.returned? = some e ∧
      c.membersIn .path = own ++ rest ∧
      own.map (·.parameter) = c.endpoint.placeholders.map (placeholderParameter c.endpoint) ∧
      (own.map (·.name)).Nodup ∧
      own.map (·.name) <+: memberNames (requestFile d s classes r c) ∧
      e.substitutions.map (·.1) = c.endpoint.placeholders ∧
      ((c.endpoint.placeholders.map variableName).Nodup →
        (∀ n ∈ c.endpoint.placeholders,
          camelCase n = "" → (placeholderParameter c.endpoint n).name = n) →
        e.substitutions.map (·.2) = own.map (·.name)) ∧
      ((∀ n ∈ c.endpoint.placeholders, camelCase n ≠ "") →
        (∀ q ∈ own, q.name ∈ e.substitutions.map (·.2)) →
          (c.endpoint.placeholders.map variableName).Nodup) := by
  have harranged := Call.arranged (Plan.members_of_mem_calls hr hc)
  obtain ⟨rest, hrest, -⟩ := members_pathMembers c.endpoint
  have hpath : c.membersIn .path = (placed c.endpoint).members ++ rest :=
    harranged.path.trans hrest
  have hfirst : (placed c.endpoint).members.map (·.name) <+:
      memberNames (requestFile d s classes r c) := by
    rw [memberNames_requestFile, harranged.members_eq, hpath, List.append_assoc, List.append_assoc,
      List.append_assoc, List.map_append]
    exact List.prefix_append _ _
  have hsources : c.endpointExpr.substitutions.map (·.1) = c.endpoint.placeholders := by
    rw [substitutions_endpointExpr, List.map_map]
    exact List.map_id _
  have hread : c.endpointExpr.substitutions.map (·.2) =
      c.endpoint.placeholders.map c.propertyFor := by
    rw [substitutions_endpointExpr, List.map_map]
    rfl
  refine ⟨_, c.endpointExpr, (placed c.endpoint).members, rest,
    resolveEndpoint_requestFile d s classes r c, rfl, hpath, parameters_placed _,
    nodup_names_placed _, hfirst, hsources, ?_, ?_⟩
  · rw [hread]
    exact map_propertyFor harranged.path
  · rw [hread]
    exact nodup_of_read harranged.path

/-- A file in a bucket, whose number is declared in another spelling. -/
def buckets : Api.Description :=
  { Api.Description.empty with endpoints := [
    { Api.Endpoint.plain "Get file" .get "/buckets/:bucket/files/:file_id" with
      pathParameters := [.plain "fileId" .int] }] }

theorem requestFile_buckets_substitutes :
    ∃ r ∈ (Plan.ofDescription buckets (.new "Acme" "App")).resources, ∃ c ∈ r.calls, ∃ m e,
      (requestFile buckets (.new "Acme" "App") [] r c).declaration.method? "resolveEndpoint" =
        some m ∧ m.returned? = some e ∧
      memberNames (requestFile buckets (.new "Acme" "App") [] r c) = ["bucket", "fileId"] ∧
      e.substitutions.map (·.1) = ["bucket", "file_id"] ∧
      e.substitutions.map (·.2) = ["bucket", "fileId"] := by
  have hrun : (Plan.ofDescription buckets (.new "Acme" "App")).resources.map (fun r =>
      r.calls.map fun c => (c.endpoint.placeholders, c.members.map (·.name))) =
      [[(["bucket", "file_id"], ["bucket", "fileId"])]] := by decide +kernel
  obtain ⟨r, hr, hcalls⟩ := List.mem_map.mp (hrun ▸ List.mem_singleton_self _)
  obtain ⟨c, hc, hvalues⟩ := List.mem_map.mp (hcalls ▸ List.mem_singleton_self _)
  obtain ⟨hplaceholders, hnames⟩ : _ ∧ _ := by simpa only [Prod.mk.injEq] using hvalues
  rw [← memberNames_requestFile buckets (.new "Acme" "App") [] r c] at hnames
  have hwords : ∀ n ∈ c.endpoint.placeholders, camelCase n ≠ "" := by
    rw [hplaceholders]
    decide +kernel
  obtain ⟨m, e, own, rest, hm, he, -, hparameters, -, hfirst, hsources, hreads, -⟩ :=
    requestFile_substitutes [] hr hc
  have hown : own.map (·.name) = ["bucket", "fileId"] := by
    have hlength := congrArg List.length hparameters
    rw [hnames] at hfirst
    refine hfirst.eq_of_length ?_
    simpa [hplaceholders] using hlength
  refine ⟨r, hr, c, hc, m, e, hm, he, hnames, hsources.trans hplaceholders, ?_⟩
  rw [← hown]
  refine hreads ?_ fun n hn hnone => absurd hnone (hwords n hn)
  rw [hplaceholders]
  decide +kernel

/-- The friend of a user, whose placeholders have one variable. -/
def friends : Api.Description :=
  { Api.Description.empty with endpoints := [
    .plain "Get friend" .get "/users/:user_id/friends/:userId"] }

/-- Both placeholders are replaced by the member of the first, and that of the second is left. -/
theorem requestFile_friends_confuses :
    ∃ r ∈ (Plan.ofDescription friends (.new "Acme" "App")).resources, ∃ c ∈ r.calls, ∃ m e,
      (c.membersIn .path).map (·.name) = ["userId", "userIdDuplicate1"] ∧
      (requestFile friends (.new "Acme" "App") [] r c).declaration.method? "resolveEndpoint" =
        some m ∧ m.returned? = some e ∧
      e.substitutions = [("user_id", "userId"), ("userId", "userId")] := by
  have hrun : (Plan.ofDescription friends (.new "Acme" "App")).resources.map (fun r =>
      r.calls.map fun c => ((c.membersIn .path).map (·.name), c.endpointExpr.substitutions)) =
      [[(["userId", "userIdDuplicate1"], [("user_id", "userId"), ("userId", "userId")])]] := by
    decide +kernel
  obtain ⟨r, hr, hcalls⟩ := List.mem_map.mp (hrun ▸ List.mem_singleton_self _)
  obtain ⟨c, hc, hpath⟩ := List.mem_map.mp (hcalls ▸ List.mem_singleton_self _)
  obtain ⟨hnames, hsubstitutions⟩ : _ ∧ _ := by simpa only [Prod.mk.injEq] using hpath
  exact ⟨r, hr, c, hc, _, _, hnames, resolveEndpoint_requestFile _ _ _ r c, rfl, hsubstitutions⟩

end Client
end SdkSmith
