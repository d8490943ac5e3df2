import SdkSmith.Proofs.Client.Plan.Grouping
import SdkSmith.Proofs.Naming.GivenNames

/-!
Plans of more and more endpoints. What an endpoint is given depends on the endpoints of its class
before it and on nothing else, so later endpoints change no name, nor do those of other classes.
-/
namespace SdkSmith

section
variable {α κ : Type} [DecidableEq κ] {f : α → κ} {k : κ} {l : List α}

theorem withKey_withKey (f : α → κ) (k : κ) (l : List α) :
    withKey f k (withKey f k l) = withKey f k l := by
  rw [withKey, withKey, List.filter_filter]
  simp

theorem keysSeen_withKey (h : k ∈ keysSeen f l) : keysSeen f (withKey f k l) = [k] := by
  have hall : ∀ j ∈ keysSeen f (withKey f k l), j = k := by
    intro j hj
    obtain ⟨a, ha, rfl⟩ := mem_keysSeen.mp hj
    simpa using (List.mem_filter.mp ha).2
  have hk : k ∈ keysSeen f (withKey f k l) := by
    obtain ⟨a, ha, hak⟩ := mem_keysSeen.mp h
    exact mem_keysSeen.mpr ⟨a, List.mem_filter.mpr ⟨ha, by simpa using hak⟩, hak⟩
  have hdistinct := nodup_keysSeen f (withKey f k l)
  generalize keysSeen f (withKey f k l) = ks at *
  cases ks with
  | nil => cases hk
  | cons i ks =>
    obtain rfl := hall i List.mem_cons_self
    have hrest : ks = [] := by
      rw [List.eq_nil_iff_forall_not_mem]
      intro j hj
      obtain rfl := hall j (List.mem_cons_of_mem _ hj)
      exact (List.nodup_cons.mp hdistinct).1 hj
    rw [hrest]

end

/-- The description with these endpoints in the place of its own. -/
def Api.Description.withEndpoints (d : Description) (es : List Endpoint) : Description :=
  { d with endpoints := es }

@[simp] theorem Api.Description.endpoints_withEndpoints (d : Description) (es : List Endpoint) :
    (d.withEndpoints es).endpoints = es := rfl

namespace Client

variable {s : Settings} {e : Api.Endpoint} {es before after : List Api.Endpoint}
  {className : String}

namespace Resource

theorem calls_ofEndpoints_append_singleton (s : Settings) (className : String)
    (es : List Api.Endpoint) (e : Api.Endpoint) :
    (ofEndpoints s className (es ++ [e])).calls =
      (ofEndpoints s className es).calls ++ [((ofEndpoints s className es).plan s e).1] := by
  by_cases h : es = []
  · -- the label of the first endpoint is all that differs, and no name depends on it
    subst h
    rfl
  · rw [ofEndpoints_append h]
    rfl

theorem prefix_calls_ofEndpoints (s : Settings) (className : String) (es fs : List Api.Endpoint) :
    (ofEndpoints s className es).calls <+: (ofEndpoints s className (es ++ fs)).calls := by
  induction fs using List.reverseRecOn with
  | nil => simp
  | append_singleton fs e ih =>
    rw [← List.append_assoc, calls_ofEndpoints_append_singleton]
    exact ih.trans (List.prefix_append _ _)

theorem length_calls_ofEndpoints (s : Settings) (className : String) (es : List Api.Endpoint) :
    (ofEndpoints s className es).calls.length = es.length := by
  rw [← List.length_map (·.endpoint)]
  exact congrArg List.length endpoints_ofEndpoints

/-- An endpoint's own call stands after as many as there were endpoints. -/
theorem getElem?_calls_ofEndpoints (s : Settings) (className : String)
    (before : List Api.Endpoint) (e : Api.Endpoint) (after : List Api.Endpoint) :
    (ofEndpoints s className (before ++ e :: after)).calls[before.length]? =
      some ((ofEndpoints s className before).plan s e).1 := by
  obtain ⟨rest, hrest⟩ := prefix_calls_ofEndpoints s className (before ++ [e]) after
  rw [List.append_cons, ← hrest, calls_ofEndpoints_append_singleton, List.append_assoc,
    ← length_calls_ofEndpoints s className before, List.getElem?_append_right (Nat.le_refl _),
    Nat.sub_self]
  rfl

theorem take_calls_ofEndpoints (s : Settings) (className : String) (before after) :
    (ofEndpoints s className (before ++ after)).calls.take before.length =
      (ofEndpoints s className before).calls := by
  rw [← length_calls_ofEndpoints s className before]
  exact (List.prefix_iff_eq_take.mp (prefix_calls_ofEndpoints s className before after)).symm

end Resource

/-- The resource of an endpoint's class, as earlier endpoints have left it. -/
def resourceBefore (s : Settings) (before : List Api.Endpoint) (e : Api.Endpoint) : Resource :=
  .ofEndpoints s (classOf s e) (withKey (classOf s) (classOf s e) before)

/-- A call with the class of its resource and the calls before it there. -/
structure PlacedCall where
  className : String
  earlier : List Call
  call : Call
deriving Repr

/-- What an endpoint is given after earlier ones. -/
def placeAfter (s : Settings) (before : List Api.Endpoint) (e : Api.Endpoint) : PlacedCall :=
  ⟨classOf s e, (resourceBefore s before e).calls, ((resourceBefore s before e).plan s e).1⟩

namespace Plan

variable {p : Plan}

/-- The call of an endpoint: in the resource of its class, after as many calls as there were
endpoints of that class before. -/
def callAt? (p : Plan) (s : Settings) (before : List Api.Endpoint) (e : Api.Endpoint) :
    Option PlacedCall :=
  let n := (withKey (classOf s) (classOf s e) before).length
  (p.find? (classOf s e)).bind fun r =>
    r.calls[n]?.map fun c => ⟨r.className, r.calls.take n, c⟩

/-- The calls of a plan, in the order of the endpoints. -/
def placedCalls (p : Plan) (s : Settings) (es : List Api.Endpoint) : List PlacedCall :=
  (withEarlier es).filterMap fun x => p.callAt? s x.1 x.2

theorem callAt?_grouped (h : p.resources = grouped s (before ++ e :: after)) :
    p.callAt? s before e = some (placeAfter s before e) := by
  have hseen : classOf s e ∈ keysSeen (classOf s) (before ++ e :: after) :=
    mem_keysSeen.mpr ⟨e, by simp, rfl⟩
  have hsplit : withKey (classOf s) (classOf s e) (before ++ e :: after) =
      withKey (classOf s) (classOf s e) before ++
        e :: withKey (classOf s) (classOf s e) after := by
    simp [withKey]
  have hfind : p.find? (classOf s e) = some (.ofEndpoints s (classOf s e)
      (withKey (classOf s) (classOf s e) (before ++ e :: after))) := by
    rw [find?, h, grouped, find?_classes fun _ => Resource.className_ofEndpoints, if_pos hseen]
  rw [callAt?, hfind, Option.bind_some, hsplit, Resource.getElem?_calls_ofEndpoints,
    Resource.take_calls_ofEndpoints, Resource.className_ofEndpoints]
  rfl

theorem placedCalls_grouped (h : p.resources = grouped s es) :
    p.placedCalls s es = (withEarlier es).map fun x => placeAfter s x.1 x.2 := by
  rw [placedCalls, ← List.filterMap_eq_map]
  refine List.filterMap_congr fun x hx => ?_
  obtain ⟨after, rfl⟩ := mem_withEarlier.mp hx
  exact callAt?_grouped h

/-- The names that give way for one more endpoint. -/
theorem collisions_add (h : p.resources = grouped s es) (e : Api.Endpoint) :
    (p.add s e).collisions = p.collisions ++ ((resourceBefore s es e).plan s e).2 := by
  have hadd : (p.add s e).collisions = p.collisions ++ (((p.find? (classOf s e)).getD
      (.empty (classOf s e) (labelOf s e))).plan s e).2 := rfl
  rw [hadd, find?, h, grouped, find?_classes fun _ => Resource.className_ofEndpoints]
  by_cases hc : classOf s e ∈ keysSeen (classOf s) es
  · rw [if_pos hc]
    rfl
  · rw [if_neg hc, resourceBefore, withKey_eq_nil hc]
    rfl

theorem collisions_foldl_add (h : p.resources = grouped s es) (new : List Api.Endpoint) :
    (new.foldl (add s) p).collisions = p.collisions ++
      (earlierFrom es new).flatMap fun x => ((resourceBefore s x.1 x.2).plan s x.2).2 := by
  induction new generalizing p es with
  | nil => exact (List.append_nil _).symm
  | cons e new ih =>
    rw [List.foldl_cons, ih (add_grouped h e), collisions_add h, earlierFrom, List.flatMap_cons,
      List.append_assoc]

theorem ofDescription_collisions (d : Api.Description) (s : Settings) :
    (ofDescription d s).collisions =
      (withEarlier d.endpoints).flatMap fun x => ((resourceBefore s x.1 x.2).plan s x.2).2 := by
  have hempty : Plan.empty.resources = grouped s [] := rfl
  exact collisions_foldl_add hempty d.endpoints

theorem ofDescription_placedCalls (d : Api.Description) (s : Settings) :
    (ofDescription d s).placedCalls s d.endpoints =
      (withEarlier d.endpoints).map fun x => placeAfter s x.1 x.2 :=
  placedCalls_grouped (ofDescription_resources d s)

theorem endpoint_placedCalls (d : Api.Description) (s : Settings) :
    ((ofDescription d s).placedCalls s d.endpoints).map (·.call.endpoint) = d.endpoints := by
  rw [ofDescription_placedCalls, List.map_map]
  exact map_snd_withEarlier d.endpoints

/-- The calls of a class are those placed in it. -/
theorem calls_ofEndpoints_withKey (s : Settings) (className : String) (es : List Api.Endpoint) :
    (Resource.ofEndpoints s className (withKey (classOf s) className es)).calls =
      (((withEarlier es).map fun x => placeAfter s x.1 x.2).filter
        fun p => p.className = className).map (·.call) := by
  induction es using List.reverseRecOn with
  | nil => rfl
  | append_singleton es e ih =>
    rw [withKey_append_singleton, withEarlier_append_singleton, List.map_append,
      List.filter_append, List.map_append, ← ih]
    split
    · rename_i hclass
      subst hclass
      rw [Resource.calls_ofEndpoints_append_singleton]
      simp [placeAfter, resourceBefore]
    · rename_i hclass
      simp [placeAfter, hclass]

theorem calls_placedCalls {d : Api.Description} {r : Resource}
    (h : r ∈ (ofDescription d s).resources) : r.calls =
      (((ofDescription d s).placedCalls s d.endpoints).filter
        fun p => p.className = r.className).map (·.call) := by
  rw [ofDescription_resources] at h
  rw [ofDescription_placedCalls, ← calls_ofEndpoints_withKey, ← (mem_grouped.mp h).2]

/-- Without the endpoints of other classes, a resource is the same. -/
theorem grouped_withKey {r : Resource} (h : r ∈ grouped s es) :
    grouped s (withKey (classOf s) r.className es) = [r] := by
  obtain ⟨hseen, hr⟩ := mem_grouped.mp h
  rw [grouped, keysSeen_withKey hseen, List.map_singleton, withKey_withKey, ← hr]

/-- With more endpoints in a description, all its endpoints are given what they were given, in the
same resources, and the names that gave way do so as before. A resource is what the endpoints of
its class alone make of it. -/
theorem ofDescription_append (d : Api.Description) (s : Settings) (new : List Api.Endpoint) :
    ((ofDescription d s).placedCalls s d.endpoints).map (·.call.endpoint) = d.endpoints ∧
    (ofDescription d s).placedCalls s d.endpoints <+:
      (ofDescription (d.withEndpoints (d.endpoints ++ new)) s).placedCalls s
        (d.endpoints ++ new) ∧
    (ofDescription d s).collisions <+:
      (ofDescription (d.withEndpoints (d.endpoints ++ new)) s).collisions ∧
    ∀ r ∈ (ofDescription d s).resources,
      (ofDescription (d.withEndpoints (d.endpoints.filter fun e =>
        resourceClassOf s (labelOf s e) = r.className)) s).resources = [r] := by
  have hcalls := ofDescription_placedCalls (d.withEndpoints (d.endpoints ++ new)) s
  have hcollisions := ofDescription_collisions (d.withEndpoints (d.endpoints ++ new)) s
  rw [Api.Description.endpoints_withEndpoints, withEarlier_append] at hcalls hcollisions
  refine ⟨endpoint_placedCalls d s, ?_, ?_, ?_⟩
  · rw [hcalls, ofDescription_placedCalls, List.map_append]
    exact List.prefix_append _ _
  · rw [hcollisions, ofDescription_collisions, List.flatMap_append]
    exact List.prefix_append _ _
  · intro r hr
    rw [ofDescription_resources] at hr ⊢
    exact grouped_withKey hr

end Plan
end Client
end SdkSmith
