import Mathlib.Data.List.Basic
import Mathlib.Data.List.Induction
import Mathlib.Logic.Function.Basic
import SdkSmith.Client.Plan

/-!
The plan of a client groups its endpoints. After any number of endpoints, each class that has been
seen has one resource, which is what the endpoints of that class alone make of it.
-/
namespace SdkSmith

section
variable {α κ : Type} [DecidableEq κ] {f : α → κ} {k : κ} {ks : List κ} {l : List α}

/-- The elements with a key. -/
def withKey (f : α → κ) (k : κ) (l : List α) : List α :=
  l.filter fun a => f a = k

/-- Keys in the order in which they are first seen. -/
def keysSeen (f : α → κ) (l : List α) : List κ :=
  (l.map f).eraseDups

theorem mem_keysSeen : k ∈ keysSeen f l ↔ ∃ a ∈ l, f a = k := by
  rw [keysSeen, List.mem_eraseDups, List.mem_map]

theorem keysSeen_append_singleton (l : List α) (a : α) : keysSeen f (l ++ [a]) =
    if f a ∈ keysSeen f l then keysSeen f l else keysSeen f l ++ [f a] := by
  have hmem : f a ∈ keysSeen f l ↔ f a ∈ l.map f := List.mem_eraseDups
  have hnew : [f a].removeAll (l.map f) = if f a ∈ l.map f then [] else [f a] := by
    by_cases h : f a ∈ l.map f <;> simp [List.removeAll, h, -List.mem_map]
  rw [if_congr hmem rfl rfl, keysSeen, List.map_append, List.eraseDups_append, List.map_singleton,
    hnew]
  split
  · exact List.append_nil _
  · rfl

theorem nodup_keysSeen (f : α → κ) (l : List α) : (keysSeen f l).Nodup := by
  induction l using List.reverseRecOn with
  | nil => exact List.nodup_nil
  | append_singleton l a ih =>
    rw [keysSeen_append_singleton]
    split
    · exact ih
    · rename_i h
      rw [List.nodup_append]
      refine ⟨ih, by simp, ?_⟩
      rintro _ hk _ (_ | ⟨_, ⟨⟩⟩) rfl
      exact h hk

theorem withKey_append_singleton (l : List α) (a : α) :
    withKey f k (l ++ [a]) = if f a = k then withKey f k l ++ [a] else withKey f k l := by
  rw [withKey, List.filter_append]
  split <;> rename_i h <;> simp [withKey, h]

theorem withKey_eq_nil (h : k ∉ keysSeen f l) : withKey f k l = [] := by
  rw [withKey, List.filter_eq_nil_iff]
  intro a ha hk
  exact h (mem_keysSeen.mpr ⟨a, ha, by simpa using hk⟩)

theorem withKey_ne_nil (h : k ∈ keysSeen f l) : withKey f k l ≠ [] := by
  obtain ⟨a, ha, hk⟩ := mem_keysSeen.mp h
  exact List.ne_nil_of_mem (List.mem_filter.mpr ⟨ha, by simpa using hk⟩)

/-- One group after another is everything, each element as often as it was there. -/
theorem flatMap_withKey_perm (hks : ks.Nodup) (h : ∀ a ∈ l, f a ∈ ks) :
    (ks.flatMap fun k => withKey f k l).Perm l := by
  induction ks generalizing l with
  | nil =>
    cases l with
    | nil => exact .refl []
    | cons a l => simpa using h a List.mem_cons_self
  | cons k ks ih =>
    rw [List.nodup_cons] at hks
    have hrest : (ks.flatMap fun j => withKey f j l) =
        ks.flatMap fun j => withKey f j (l.filter fun a => !decide (f a = k)) := by
      refine List.flatMap_congr fun j hj => ?_
      rw [withKey, withKey, List.filter_filter]
      refine List.filter_congr fun a _ => ?_
      by_cases hja : f a = j
      · have hne : j ≠ k := by
          rintro rfl
          exact hks.1 hj
        simp [hja, hne]
      · simp [hja]
    have hperm := ih (l := l.filter fun a => !decide (f a = k)) hks.2 fun a ha => by
      obtain ⟨ha, hne⟩ := List.mem_filter.mp ha
      exact (List.mem_cons.mp (h a ha)).resolve_left (by simpa using hne)
    rw [List.flatMap_cons, hrest]
    exact (hperm.append_left _).trans (List.filter_append_perm _ l)

end

namespace Client

/-- The class of the resource that an endpoint belongs to. -/
def classOf (s : Settings) (e : Api.Endpoint) : String :=
  resourceClassOf s (labelOf s e)

/-- Whether a class is that of the resource for a label: it has the label's class name, and a suffix
if all clients have a class of that name. -/
structure IsResourceClass (s : Settings) (label c : String) : Prop where
  free : s.resourceNamespace ++ "\\" ++ Naming.className label "Resource" ∉ fixedClasses s →
    c = Naming.className label "Resource"
  fixed : s.resourceNamespace ++ "\\" ++ Naming.className label "Resource" ∈ fixedClasses s →
    c = Naming.className label "Resource" ++ "Resource"

/-- Whether an endpoint belongs to the resource of a class: the one for its collection if this is
more than blanks, and otherwise the one for the fallback. -/
inductive BelongsTo (s : Settings) (e : Api.Endpoint) (c : String) : Prop
  | collection {label : String} (hlabel : e.collection = some label)
      (hword : ∃ x ∈ label.toList, ¬ Text.isBlank x) (hclass : IsResourceClass s label c)
  | fallback (hblank : ∀ label, e.collection = some label → ∀ x ∈ label.toList, Text.isBlank x)
      (hclass : IsResourceClass s s.fallbackResource c)

theorem isResourceClass_resourceClassOf (s : Settings) (label : String) :
    IsResourceClass s label (resourceClassOf s label) := by
  simp only [resourceClassOf, List.contains_iff_mem]
  exact ⟨fun hfree => if_neg hfree, fun hfixed => if_pos hfixed⟩

theorem belongsTo_classOf (s : Settings) (e : Api.Endpoint) : BelongsTo s e (classOf s e) := by
  have hclass := isResourceClass_resourceClassOf s (labelOf s e)
  rw [← classOf, labelOf] at hclass
  cases hcollection : e.collection with
  | none =>
    rw [hcollection] at hclass
    exact .fallback (fun label hlabel => by cases hcollection.symm.trans hlabel) hclass
  | some label =>
    rw [hcollection, Text.unlessBlank] at hclass
    by_cases hblank : Text.onlyBlanks label
    · rw [if_pos hblank] at hclass
      refine .fallback (fun label' hlabel => ?_) hclass
      cases hcollection.symm.trans hlabel
      exact List.all_eq_true.mp hblank
    · rw [if_neg hblank] at hclass
      refine .collection hcollection ?_ hclass
      rw [Text.onlyBlanks, List.all_eq_true] at hblank
      push Not at hblank
      exact hblank

namespace Resource

/-- The endpoints of a resource. -/
def endpoints (r : Resource) : List Api.Endpoint :=
  r.calls.map (·.endpoint)

/-- A resource with one more endpoint. -/
def enter (s : Settings) (r : Resource) (e : Api.Endpoint) : Resource :=
  r.add (r.plan s e).1

/-- The resource of a class that endpoints make on their own; it has the label of the first. -/
def ofEndpoints (s : Settings) (className : String) (es : List Api.Endpoint) : Resource :=
  es.foldl (enter s) (.empty className ((es.head?.map (labelOf s)).getD ""))

variable {s : Settings} {r : Resource} {e : Api.Endpoint} {es : List Api.Endpoint}
  {className : String}

theorem endpoints_enter : (r.enter s e).endpoints = r.endpoints ++ [e] := by
  simp [endpoints, enter, add, plan]

theorem ofEndpoints_append (h : es ≠ []) (e : Api.Endpoint) :
    ofEndpoints s className (es ++ [e]) = (ofEndpoints s className es).enter s e := by
  have hhead : (es ++ [e]).head? = es.head? := by
    cases es with
    | nil => exact absurd rfl h
    | cons => rfl
  rw [ofEndpoints, List.foldl_append, hhead]
  rfl

@[simp] theorem className_ofEndpoints : (ofEndpoints s className es).className = className := by
  have h : ∀ r : Resource, (es.foldl (enter s) r).className = r.className := by
    induction es with
    | nil => exact fun _ => rfl
    | cons e es ih => exact fun r => ih (r.enter s e)
  exact h _

@[simp] theorem endpoints_ofEndpoints : (ofEndpoints s className es).endpoints = es := by
  have h : ∀ r : Resource, (es.foldl (enter s) r).endpoints = r.endpoints ++ es := by
    induction es with
    | nil => exact fun r => (List.append_nil _).symm
    | cons e es ih =>
      intro r
      rw [List.foldl_cons, ih, endpoints_enter, List.append_assoc, List.singleton_append]
  exact h _

end Resource

namespace Plan

variable {s : Settings} {r : Resource} {e : Api.Endpoint} {es : List Api.Endpoint} {p : Plan}
  {g : String → Resource} {c : String} {cs : List String}

theorem find?_classes (hg : ∀ c, (g c).className = c) (cs : List String) (c : String) :
    (cs.map g).find? (fun r => r.className == c) = if c ∈ cs then some (g c) else none := by
  induction cs with
  | nil => rfl
  | cons b cs ih =>
    rw [List.map_cons, List.find?_cons, hg, ih]
    by_cases hb : b = c
    · simp [hb]
    · simp [beq_false_of_ne hb, Ne.symm hb]

theorem putResource_classes (hg : ∀ c, (g c).className = c) (hcs : cs.Nodup) :
    putResource r (cs.map g) =
      if r.className ∈ cs then cs.map (Function.update g r.className r) else cs.map g ++ [r] := by
  induction cs with
  | nil => rfl
  | cons b cs ih =>
    rw [List.nodup_cons] at hcs
    rw [List.map_cons, putResource, hg, ih hcs.2]
    by_cases hb : b = r.className
    · have hrest : cs.map (Function.update g b r) = cs.map g :=
        List.map_congr_left fun c hc => Function.update_of_ne (ne_of_mem_of_not_mem hc hcs.1) _ _
      rw [← hb, if_pos rfl, if_pos List.mem_cons_self, List.map_cons, Function.update_self, hrest]
    · have hmem : r.className ∈ b :: cs ↔ r.className ∈ cs :=
        List.mem_cons.trans (or_iff_right (Ne.symm hb))
      rw [if_neg hb, if_congr hmem rfl rfl]
      split
      · rw [List.map_cons, Function.update_of_ne hb]
      · rfl

/-- The resources after some endpoints. -/
def grouped (s : Settings) (es : List Api.Endpoint) : List Resource :=
  (keysSeen (classOf s) es).map fun c => .ofEndpoints s c (withKey (classOf s) c es)

/-- One more endpoint goes to the resource of its class, and no other resource changes. -/
theorem add_grouped (h : p.resources = grouped s es) (e : Api.Endpoint) :
    (p.add s e).resources = grouped s (es ++ [e]) := by
  have hadd : (p.add s e).resources = putResource (((p.find? (classOf s e)).getD
      (.empty (classOf s e) (labelOf s e))).enter s e) p.resources := rfl
  have hother : ∀ c, c ≠ classOf s e →
      withKey (classOf s) c (es ++ [e]) = withKey (classOf s) c es := fun c hc => by
    rw [withKey_append_singleton, if_neg (Ne.symm hc)]
  have hsame : withKey (classOf s) (classOf s e) (es ++ [e]) =
      withKey (classOf s) (classOf s e) es ++ [e] := by
    rw [withKey_append_singleton, if_pos rfl]
  rw [hadd, find?, h, grouped, find?_classes fun _ => Resource.className_ofEndpoints, grouped,
    keysSeen_append_singleton]
  by_cases hc : classOf s e ∈ keysSeen (classOf s) es
  · rw [if_pos hc, if_pos hc, Option.getD_some, ← Resource.ofEndpoints_append (withKey_ne_nil hc),
      ← hsame, putResource_classes (fun _ => Resource.className_ofEndpoints) (nodup_keysSeen _ _),
      Resource.className_ofEndpoints, if_pos hc]
    refine List.map_congr_left fun c _ => ?_
    by_cases hce : c = classOf s e
    · rw [hce, Function.update_self]
    · rw [Function.update_of_ne hce, hother c hce]
  · have hfirst : (Resource.empty (classOf s e) (labelOf s e)).enter s e =
        .ofEndpoints s (classOf s e) (withKey (classOf s) (classOf s e) (es ++ [e])) := by
      rw [hsame, withKey_eq_nil hc]
      rfl
    rw [if_neg hc, if_neg hc, Option.getD_none, hfirst,
      putResource_classes (fun _ => Resource.className_ofEndpoints) (nodup_keysSeen _ _),
      Resource.className_ofEndpoints, if_neg hc, List.map_append]
    refine congrArg (· ++ _) (List.map_congr_left fun c hcs => ?_)
    rw [hother c (ne_of_mem_of_not_mem hcs hc)]

theorem foldl_add_grouped (h : p.resources = grouped s es) (new : List Api.Endpoint) :
    (new.foldl (add s) p).resources = grouped s (es ++ new) := by
  induction new generalizing p es with
  | nil => rwa [List.append_nil]
  | cons e new ih =>
    rw [List.append_cons]
    exact ih (add_grouped h e)

/-- The plan of a client is its endpoints, grouped. -/
theorem ofDescription_resources (d : Api.Description) (s : Settings) :
    (ofDescription d s).resources = grouped s d.endpoints := by
  have hempty : Plan.empty.resources = grouped s [] := rfl
  exact foldl_add_grouped hempty d.endpoints

theorem classes_grouped (s : Settings) (es : List Api.Endpoint) :
    (grouped s es).map (·.className) = keysSeen (classOf s) es := by
  simp [grouped, Function.comp_def]

theorem mem_grouped : r ∈ grouped s es ↔ r.className ∈ keysSeen (classOf s) es ∧
    r = .ofEndpoints s r.className (withKey (classOf s) r.className es) := by
  rw [grouped, List.mem_map]
  constructor
  · rintro ⟨c, hc, rfl⟩
    simpa using hc
  · rintro ⟨hc, hr⟩
    exact ⟨_, hc, hr.symm⟩

theorem endpoints_grouped (h : r ∈ grouped s es) :
    r.endpoints = withKey (classOf s) r.className es := by
  rw [(mem_grouped.mp h).2, Resource.endpoints_ofEndpoints, Resource.className_ofEndpoints]

/-- An endpoint is in one resource only, that of its class. -/
theorem exists_grouped (h : e ∈ es) :
    ∃ r ∈ grouped s es, ∀ q ∈ grouped s es, e ∈ q.endpoints ↔ q = r := by
  have hc : classOf s e ∈ keysSeen (classOf s) es := mem_keysSeen.mpr ⟨e, h, rfl⟩
  refine ⟨_, List.mem_map_of_mem hc, fun q hq => ?_⟩
  have hclass : e ∈ q.endpoints ↔ classOf s e = q.className := by
    simp [endpoints_grouped hq, withKey, h]
  rw [hclass]
  constructor
  · intro heq
    rw [heq]
    exact (mem_grouped.mp hq).2
  · rintro rfl
    exact Resource.className_ofEndpoints.symm

theorem endpoint_of_mem_calls {d : Api.Description} {c : Call}
    (hr : r ∈ (ofDescription d s).resources) (hc : c ∈ r.calls) : c.endpoint ∈ d.endpoints := by
  rw [ofDescription_resources] at hr
  have hmem : c.endpoint ∈ r.endpoints := List.mem_map_of_mem hc
  rw [endpoints_grouped hr] at hmem
  exact (List.mem_filter.mp hmem).1

theorem exists_call {d : Api.Description} (h : e ∈ d.endpoints) :
    ∃ r ∈ (ofDescription d s).resources, ∃ c ∈ r.calls, c.endpoint = e := by
  rw [ofDescription_resources]
  obtain ⟨r, hr, hmem⟩ := exists_grouped (s := s) h
  exact ⟨r, hr, List.mem_map.mp ((hmem r hr).mpr rfl)⟩

/-- A resource is there for an endpoint of its class. -/
theorem exists_classOf {d : Api.Description} (h : r ∈ (ofDescription d s).resources) :
    ∃ e ∈ d.endpoints, classOf s e = r.className := by
  rw [ofDescription_resources] at h
  exact mem_keysSeen.mp (mem_grouped.mp h).1

/-- The plan of a client is the stable grouping of its endpoints by class, which follows from the
collection of an endpoint: a resource for each class, in the order in which classes are first seen;
in each the endpoints of its class, in their order; every endpoint in one resource only, and as
often as it was there. -/
theorem ofDescription_groups (d : Api.Description) (s : Settings) :
    (∀ e ∈ d.endpoints, BelongsTo s e (resourceClassOf s (labelOf s e))) ∧
    (ofDescription d s).resources.map (·.className) =
      (d.endpoints.map fun e => resourceClassOf s (labelOf s e)).eraseDups ∧
    ((ofDescription d s).resources.map (·.className)).Nodup ∧
    (∀ r ∈ (ofDescription d s).resources, r.calls.map (·.endpoint) =
      d.endpoints.filter fun e => resourceClassOf s (labelOf s e) = r.className) ∧
    (∀ e ∈ d.endpoints, ∃ r ∈ (ofDescription d s).resources,
      ∀ q ∈ (ofDescription d s).resources, e ∈ q.calls.map (·.endpoint) ↔ q = r) ∧
    ((ofDescription d s).resources.flatMap fun r => r.calls.map (·.endpoint)).Perm
      d.endpoints := by
  rw [ofDescription_resources]
  have hflat : ((grouped s d.endpoints).flatMap fun r => r.endpoints) =
      (keysSeen (classOf s) d.endpoints).flatMap fun c => withKey (classOf s) c d.endpoints := by
    simp [grouped, List.flatMap_map]
  refine ⟨fun e _ => belongsTo_classOf s e, classes_grouped s _, ?_,
    fun r hr => endpoints_grouped hr, fun e he => exists_grouped he, ?_⟩
  · rw [classes_grouped]
    exact nodup_keysSeen _ _
  · change ((grouped s d.endpoints).flatMap fun r => r.endpoints).Perm d.endpoints
    rw [hflat]
    exact flatMap_withKey_perm (nodup_keysSeen _ _) fun e he => mem_keysSeen.mpr ⟨e, he, rfl⟩

end Plan

end Client
end SdkSmith
