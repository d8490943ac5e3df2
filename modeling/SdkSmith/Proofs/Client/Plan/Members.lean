import SdkSmith.Proofs.Client.Plan.Growth
import SdkSmith.Proofs.Naming.GivenNames

/-!
The members of a request. They are added one by one, place after place, each under a variable that
is given beside those before it.
-/
namespace SdkSmith.Client
open Naming (GivenInTurn gaveWay)

/-- The variable that a member is to have, with the one that it has. -/
def Member.pair (m : Member) : String × String :=
  (Naming.variableName m.parameter.name, m.name)

namespace Lineup

variable {l : Lineup} {wanted : String} {p : Api.Parameter}

theorem names_eq (l : Lineup) : l.names = (l.members.map Member.pair).map (·.2) := by
  rw [List.map_map]
  rfl

/-- What holds of members after any additions. -/
structure Sound (l : Lineup) : Prop where
  given : GivenInTurn (l.members.map Member.pair)
  renamed : l.renamed = gaveWay (l.members.map Member.pair)

theorem sound_empty : empty.Sound := ⟨Naming.givenInTurn_nil, rfl⟩

theorem pairs_add (l : Lineup) (place : Place) (wanted : String) (p : Api.Parameter) :
    (l.add place wanted p).members.map Member.pair = l.members.map Member.pair ++
      [(Naming.variableName p.name, Naming.freshVariable l.names wanted)] := by
  rw [add, List.map_append, List.map_singleton, Member.pair]

theorem renamed_add (l : Lineup) (place : Place) (wanted : String) (p : Api.Parameter) :
    (l.add place wanted p).renamed = if Naming.freshVariable l.names wanted = wanted then l.renamed
      else l.renamed ++ [(wanted, Naming.freshVariable l.names wanted)] := rfl

theorem Sound.add (h : l.Sound) (place : Place) (hp : Naming.variableName p.name = wanted) :
    (l.add place wanted p).Sound := by
  constructor
  case given =>
    rw [pairs_add, Naming.givenInTurn_append_singleton, ← names_eq, hp]
    exact ⟨h.given, Naming.freshVariable_given _ _⟩
  case renamed =>
    rw [pairs_add, Naming.gaveWay_append_singleton, ← h.renamed, hp, renamed_add]

theorem Sound.foldl_addNamed (place : Place) (ps : List Api.Parameter) (h : l.Sound) :
    (ps.foldl (addNamed place) l).Sound :=
  List.foldlRecOn (motive := Sound) ps (addNamed place) h fun _ h _ _ => h.add place rfl

/-- Parameters that are added stand at the end, in their order and unchanged. -/
theorem members_foldl_addNamed (place : Place) (ps : List Api.Parameter) (l : Lineup) :
    ∃ ms, (ps.foldl (addNamed place) l).members = l.members ++ ms ∧
      (∀ m ∈ ms, m.place = place) ∧ ms.map (·.parameter) = ps := by
  induction ps generalizing l with
  | nil => exact ⟨[], (List.append_nil _).symm, fun _ h => (nomatch h), rfl⟩
  | cons p ps ih =>
    obtain ⟨ms, hms, hplace, hps⟩ := ih (addNamed place l p)
    refine ⟨⟨place, Naming.freshVariable l.names (Naming.variableName p.name), p⟩ :: ms, ?_, ?_, ?_⟩
    · rw [List.foldl_cons, hms, List.append_cons]
      rfl
    · intro m hm
      rcases List.mem_cons.mp hm with rfl | hm
      · rfl
      · exact hplace m hm
    · rw [List.map_cons, hps]

end Lineup

variable {s : Settings} {e : Api.Endpoint} {c : Call} {r : Resource}

/-- The parameter of a placeholder has the placeholder's variable. -/
theorem variableName_placeholderParameter (e : Api.Endpoint) (name : String) :
    Naming.variableName (placeholderParameter e name).name = Naming.variableName name := by
  unfold placeholderParameter
  cases h : e.pathParameters.find? fun p =>
      Naming.variableName p.name == Naming.variableName name with
  | none => rfl
  | some p =>
    have hp := List.find?_some h
    rw [beq_iff_eq] at hp
    rw [Option.getD_some, hp]

theorem sound_pathMembers (e : Api.Endpoint) : (pathMembers e).Sound := by
  have hplaced := List.foldlRecOn (motive := Lineup.Sound) e.placeholders
    (fun l name => l.add .path (Naming.variableName name) (placeholderParameter e name))
    Lineup.sound_empty fun l h name _ => h.add .path (variableName_placeholderParameter e name)
  refine List.foldlRecOn (motive := Lineup.Sound) e.pathParameters _ hplaced fun l h p _ => ?_
  split
  · exact h
  · exact h.add .path rfl

/-- Every member is in the path. -/
def Lineup.OnPath (l : Lineup) : Prop :=
  ∀ m ∈ l.members, m.place = .path

theorem Lineup.OnPath.add {l : Lineup} (h : l.OnPath) (wanted : String) (p : Api.Parameter) :
    (l.add .path wanted p).OnPath := by
  intro m hm
  rcases List.mem_append.mp hm with hm | hm
  · exact h m hm
  · rw [List.mem_singleton.mp hm]

theorem onPath_pathMembers (e : Api.Endpoint) : (pathMembers e).OnPath := by
  have hempty : Lineup.empty.OnPath := fun _ h => nomatch h
  have hplaced := List.foldlRecOn (motive := Lineup.OnPath) e.placeholders
    (fun l name => l.add .path (Naming.variableName name) (placeholderParameter e name)) hempty
    fun l h name _ => h.add (Naming.variableName name) (placeholderParameter e name)
  refine List.foldlRecOn (motive := Lineup.OnPath) e.pathParameters _ hplaced fun l h p _ => ?_
  split
  · exact h
  · exact h.add _ p

theorem sound_members (s : Settings) (e : Api.Endpoint) : (members s e).Sound :=
  (((sound_pathMembers e).foldl_addNamed .body _).foldl_addNamed .query _).foldl_addNamed .header _

theorem filter_place {ms : List Member} {place : Place} (h : ∀ m ∈ ms, m.place = place)
    (q : Place) : ms.filter (fun m => m.place == q) = if place = q then ms else [] := by
  split
  · rename_i hq
    rw [List.filter_eq_self]
    intro m hm
    rw [h m hm, hq, beq_self_eq_true]
  · rename_i hq
    rw [List.filter_eq_nil_iff]
    intro m hm
    rw [h m hm, beq_iff_eq]
    exact hq

/-- A call's members are in the order of their places. In each place besides the path they are the
parameters that are sent. -/
structure Call.Arranged (s : Settings) (c : Call) : Prop where
  members_eq : c.members =
    c.membersIn .path ++ c.membersIn .body ++ c.membersIn .query ++ c.membersIn .header
  path : c.membersIn .path = (pathMembers c.endpoint).members
  body : (c.membersIn .body).map (·.parameter) = sent s.ignoresBody c.endpoint.bodyParameters
  query : (c.membersIn .query).map (·.parameter) = sent s.ignoresQuery c.endpoint.queryParameters
  header : (c.membersIn .header).map (·.parameter) =
    sent s.ignoresHeader c.endpoint.headerParameters

theorem Call.arranged (h : c.members = (Client.members s c.endpoint).members) : c.Arranged s := by
  let afterBody := (sent s.ignoresBody c.endpoint.bodyParameters).foldl
    (Lineup.addNamed .body) (pathMembers c.endpoint)
  let afterQuery := (sent s.ignoresQuery c.endpoint.queryParameters).foldl
    (Lineup.addNamed .query) afterBody
  obtain ⟨body, hbody, hbodyPlace, hbodySent⟩ := Lineup.members_foldl_addNamed .body
    (sent s.ignoresBody c.endpoint.bodyParameters) (pathMembers c.endpoint)
  obtain ⟨query, hquery, hqueryPlace, hquerySent⟩ := Lineup.members_foldl_addNamed .query
    (sent s.ignoresQuery c.endpoint.queryParameters) afterBody
  obtain ⟨header, hheader, hheaderPlace, hheaderSent⟩ := Lineup.members_foldl_addNamed .header
    (sent s.ignoresHeader c.endpoint.headerParameters) afterQuery
  have hall : c.members = (pathMembers c.endpoint).members ++ body ++ query ++ header := by
    rw [← hbody, h]
    change _ = afterBody.members ++ query ++ header
    rw [← hquery]
    exact hheader
  have hin : ∀ q, c.membersIn q = (if .path = q then (pathMembers c.endpoint).members else []) ++
      (if .body = q then body else []) ++ (if .query = q then query else []) ++
      (if .header = q then header else []) := by
    intro q
    rw [membersIn, hall, List.filter_append, List.filter_append, List.filter_append,
      filter_place (onPath_pathMembers _), filter_place hbodyPlace, filter_place hqueryPlace,
      filter_place hheaderPlace]
  constructor
  case members_eq =>
    simp [hin, hall]
  case path => simp [hin]
  case body => simpa [hin] using hbodySent
  case query => simpa [hin] using hquerySent
  case header => simpa [hin] using hheaderSent

/-- A call of a plan is the plan of its endpoint in what the resource was. -/
theorem Resource.exists_plan {es : List Api.Endpoint} {className : String}
    (h : c ∈ (ofEndpoints s className es).calls) : ∃ q : Resource, c = (q.plan s c.endpoint).1 := by
  induction es using List.reverseRecOn with
  | nil => cases h
  | append_singleton es e ih =>
    rw [calls_ofEndpoints_append_singleton, List.mem_append, List.mem_singleton] at h
    rcases h with h | rfl
    · exact ih h
    · exact ⟨_, rfl⟩

/-- The members of a planned call are those of its endpoint. -/
theorem Plan.members_of_mem_calls {d : Api.Description} (hr : r ∈ (ofDescription d s).resources)
    (hc : c ∈ r.calls) : c.members = (members s c.endpoint).members := by
  rw [ofDescription_resources] at hr
  rw [(mem_grouped.mp hr).2] at hc
  obtain ⟨q, hq⟩ := Resource.exists_plan hc
  rw [hq]
  rfl

/-- No two members of a planned call have one name. -/
theorem Plan.nodup_members {d : Api.Description} (hr : r ∈ (ofDescription d s).resources)
    (hc : c ∈ r.calls) : (c.members.map (·.name)).Nodup := by
  have hdistinct := (sound_members s c.endpoint).given.nodup
  rwa [← members_of_mem_calls hr hc, List.map_map] at hdistinct

end SdkSmith.Client
