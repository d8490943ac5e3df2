import Mathlib.Data.List.Infix
import SdkSmith.Output.Disk

/-!
Laws of file trees. A path leads to a place as long as the directories on its way are there, and
then the place follows from the text of the path. Making directories leaves every file as it is, but
it may change where a path leads: one that turns back from a directory which is not there leads
nowhere before, and perhaps to a file after.
-/
namespace SdkSmith.Output.FileTree

variable {t t' : FileTree} {p q here : Place} {name path : String} {names front back : List String}
  {c : Contents}

/-- Whether no place is both a file's and a directory's, and every file lies in directories. -/
structure Sound (t : FileTree) : Prop where
  apart : ∀ p, t.hasFile p → t.isDirectory p = false
  inside : ∀ p q, t.hasFile p → q <+: p → q ≠ p → t.isDirectory q

/-- What stays when directories and files are added. -/
structure Grows (t t' : FileTree) : Prop where
  directories : ∀ p, t.isDirectory p → t'.isDirectory p
  files : ∀ p c, t.find? p = some c → t'.find? p = some c

theorem Grows.refl (t : FileTree) : Grows t t :=
  ⟨fun _ h => h, fun _ _ h => h⟩

theorem Grows.trans {u : FileTree} (h : Grows t t') (h' : Grows t' u) : Grows t u := by
  constructor
  · intro p hp
    exact h'.directories p (h.directories p hp)
  · intro p c hp
    exact h'.files p c (h.files p c hp)

theorem Grows.hasFile (h : Grows t t') (hp : t.hasFile p) : t'.hasFile p := by
  obtain ⟨c, hc⟩ := Option.isSome_iff_exists.mp hp
  exact Option.isSome_iff_exists.mpr ⟨c, h.files p c hc⟩

theorem sound_empty : empty.Sound := by
  constructor
  · intro p hp
    cases hp
  · intro p q hp
    cases hp

/-! Steps -/

/-- The place that a step leads to. -/
def stepFrom (here : Place) (name : String) : Place :=
  if name.isEmpty || name = "." then here
  else if name = ".." then here.dropLast
  else here ++ [name]

/-- The place that the text of a path tells. -/
def placeOf (path : String) : Place :=
  (steps path).foldl stepFrom []

theorem isNameable_of_length (h : name.utf8ByteSize ≤ 2) : isNameable name = true := by
  rw [isNameable, decide_eq_true_eq, nameLimit]
  omega

/-- A step goes from a directory, by a name that is short enough. -/
theorem follow_cons : t.follow here (name :: names) = some p ↔
    t.isDirectory here ∧ isNameable name ∧ t.follow (stepFrom here name) names = some p := by
  rw [follow, stepFrom]
  cases hdirectory : t.isDirectory here with
  | false => simp
  | true =>
    by_cases hstay : (name.isEmpty || name = ".") = true
    · have hname : isNameable name = true := by
        rw [Bool.or_eq_true, String.isEmpty_iff, decide_eq_true_eq] at hstay
        rcases hstay with rfl | rfl <;> exact isNameable_of_length (by decide)
      simp [hstay, hname]
    · by_cases hup : name = ".."
      · have hname : isNameable ".." = true := isNameable_of_length (by decide)
        subst hup
        simp [hname]
      · cases isNameable name <;> simp [hstay, hup]

theorem follow_nil : t.follow here [] = some p ↔ here = p := by
  rw [follow, Option.some_inj]

theorem follow_append : t.follow here (front ++ back) = some p ↔
    ∃ mid, t.follow here front = some mid ∧ t.follow mid back = some p := by
  induction front generalizing here with
  | nil => simp [follow_nil]
  | cons name front ih =>
    rw [List.cons_append, follow_cons, ih]
    simp only [follow_cons]
    constructor
    · rintro ⟨hhere, hname, mid, hmid, hback⟩
      exact ⟨mid, ⟨hhere, hname, hmid⟩, hback⟩
    · rintro ⟨mid, ⟨hhere, hname, hmid⟩, hback⟩
      exact ⟨hhere, hname, mid, hmid, hback⟩

/-- Where steps lead does not depend on the tree, if they lead anywhere. -/
theorem eq_of_follow (h : t.follow here names = some p) : p = names.foldl stepFrom here := by
  induction names generalizing here with
  | nil => exact (follow_nil.mp h).symm
  | cons name names ih =>
    obtain ⟨-, -, h⟩ := follow_cons.mp h
    exact ih h

theorem Grows.follow (h : Grows t t') (hp : t.follow here names = some p) :
    t'.follow here names = some p := by
  induction names generalizing here with
  | nil => exact hp
  | cons name names ih =>
    obtain ⟨hhere, hname, hp⟩ := follow_cons.mp hp
    exact follow_cons.mpr ⟨h.directories here hhere, hname, ih hp⟩

/-- Steps that do not turn back stay below the place where they start. -/
theorem prefix_foldl_stepFrom (h : ".." ∉ names) (here : Place) :
    here <+: names.foldl stepFrom here := by
  induction names generalizing here with
  | nil => exact List.prefix_refl here
  | cons name names ih =>
    rw [List.mem_cons, not_or] at h
    have hstep : here <+: stepFrom here name := by
      rw [stepFrom, if_neg (Ne.symm h.1)]
      split
      · exact List.prefix_refl here
      · exact List.prefix_append here [name]
    exact hstep.trans (ih h.2 (stepFrom here name))

/-- The directories of a place to which steps lead are there. -/
theorem isDirectory_of_follow (h : t.follow here names = some p)
    (hhere : ∀ q, q <+: here → q ≠ here → t.isDirectory q) :
    ∀ q, q <+: p → q ≠ p → t.isDirectory q := by
  induction names generalizing here with
  | nil =>
    obtain rfl := follow_nil.mp h
    exact hhere
  | cons name names ih =>
    obtain ⟨hdirectory, -, h⟩ := follow_cons.mp h
    apply ih h
    intro q hq hne
    have hbelow : q <+: here := by
      rw [stepFrom] at hq hne
      split at hq
      · exact hq
      · split at hq
        · exact hq.trans (List.dropLast_prefix here)
        · rw [if_neg ‹_›, if_neg ‹_›] at hne
          exact (List.prefix_concat_iff.mp hq).resolve_left hne
    by_cases heq : q = here
    · rw [heq]
      exact hdirectory
    · exact hhere q hbelow heq

/-! Paths -/

/-- Whether there is something at a path. -/
def there (t : FileTree) (path : String) : Bool :=
  (t.place? path).any t.has

/-- Whether a path turns back only from directories that are there. -/
def Straight (t : FileTree) (path : String) : Prop :=
  ∃ front back, steps path = front ++ back ∧ (t.follow [] front).isSome ∧ ".." ∉ back

theorem Straight.grows (hpath : t.Straight path) (h : Grows t t') : t'.Straight path := by
  obtain ⟨front, back, hsteps, hfront, hback⟩ := hpath
  obtain ⟨mid, hmid⟩ := Option.isSome_iff_exists.mp hfront
  exact ⟨front, back, hsteps, Option.isSome_iff_exists.mpr ⟨mid, h.follow hmid⟩, hback⟩

theorem Grows.place? (h : Grows t t') (hp : t.place? path = some p) : t'.place? path = some p :=
  h.follow hp

theorem eq_placeOf (h : t.place? path = some p) : p = placeOf path :=
  eq_of_follow h

/-- Steps to a file that do not turn back need no directories but those the file lies in. -/
theorem follow_of_grows (ht : t.Sound) (ht' : t'.Sound) (h : Grows t t') (hfile : t.hasFile p)
    (hback : ".." ∉ names) (hp : t'.follow here names = some p) : t.follow here names = some p := by
  induction names generalizing here with
  | nil => exact hp
  | cons name names ih =>
    have hbelow : here <+: p := by
      rw [eq_of_follow hp]
      exact prefix_foldl_stepFrom hback here
    obtain ⟨hhere, hname, hp⟩ := follow_cons.mp hp
    -- a file is not gone through, so `here` is above the file and the file lies in it
    have hne : here ≠ p := by
      rintro rfl
      have hnone := ht'.apart here (h.hasFile hfile)
      rw [hhere] at hnone
      cases hnone
    exact follow_cons.mpr ⟨ht.inside p here hfile hbelow hne, hname,
      ih (fun hmem => hback (List.mem_cons_of_mem name hmem)) hp⟩

/-- A straight path that leads to a file once there are more directories led to it before. -/
theorem place?_of_grows (ht : t.Sound) (ht' : t'.Sound) (h : Grows t t') (hpath : t.Straight path)
    (hfile : t.hasFile p) (hp : t'.place? path = some p) : t.place? path = some p := by
  obtain ⟨front, back, hsteps, hfront, hback⟩ := hpath
  obtain ⟨mid, hmid⟩ := Option.isSome_iff_exists.mp hfront
  rw [FileTree.place?, hsteps] at hp ⊢
  obtain ⟨mid', hmid', hp⟩ := follow_append.mp hp
  obtain rfl : mid' = mid := Option.some_inj.mp (hmid'.symm.trans (h.follow hmid))
  exact follow_append.mpr ⟨mid', hmid, follow_of_grows ht ht' h hfile hback hp⟩

theorem read?_eq_some {text : String} : t.read? path = some text ↔
    ∃ p, t.place? path = some p ∧ t.find? p = some (.text text) := by
  rw [read?]
  constructor
  · intro h
    obtain ⟨contents, hfind, htext⟩ := Option.bind_eq_some_iff.mp h
    obtain ⟨p, hplace, hfind⟩ := Option.bind_eq_some_iff.mp hfind
    cases contents with
    | text s =>
      obtain rfl : s = text := Option.some_inj.mp htext
      exact ⟨p, hplace, hfind⟩
    | binary size => cases htext
  · rintro ⟨p, hplace, hfind⟩
    simp [hplace, hfind, Contents.text?]

theorem Grows.read? {text : String} (h : Grows t t') (hread : t.read? path = some text) :
    t'.read? path = some text := by
  obtain ⟨p, hplace, hfind⟩ := read?_eq_some.mp hread
  exact read?_eq_some.mpr ⟨p, h.place? hplace, h.files p (.text text) hfind⟩

theorem hasFile_of_read? (h : (t.read? path).isSome) : t.hasFile (placeOf path) := by
  obtain ⟨text, hread⟩ := Option.isSome_iff_exists.mp h
  obtain ⟨p, hplace, hfind⟩ := read?_eq_some.mp hread
  rw [← eq_placeOf hplace]
  exact Option.isSome_of_eq_some hfind

theorem there_of_place? (hplace : t.place? path = some p) (hfile : t.hasFile p) : t.there path := by
  rw [there, hplace, Option.any_some, has, hfile, Bool.or_true]

theorem there_of_read? (h : (t.read? path).isSome) : t.there path := by
  obtain ⟨text, hread⟩ := Option.isSome_iff_exists.mp h
  obtain ⟨p, hplace, hfind⟩ := read?_eq_some.mp hread
  exact there_of_place? hplace (Option.isSome_of_eq_some hfind)

/-- There is something at a path that can be read later if and only if a file is at its place. -/
theorem there_iff_hasFile (ht : t.Sound) (ht' : t'.Sound) (h : Grows t t')
    (hpath : t.Straight path) (hread : (t'.read? path).isSome) :
    t.there path ↔ t.hasFile (placeOf path) := by
  constructor
  · intro hthere
    obtain ⟨p, hplace, hhas⟩ := (Option.any_eq_true t.has (t.place? path)).mp hthere
    obtain rfl := eq_placeOf hplace
    rw [has, Bool.or_eq_true] at hhas
    rcases hhas with hdirectory | hfile
    · have hnone := ht'.apart (placeOf path) (hasFile_of_read? hread)
      rw [h.directories (placeOf path) hdirectory] at hnone
      cases hnone
    · exact hfile
  · intro hfile
    obtain ⟨text, hread⟩ := Option.isSome_iff_exists.mp hread
    obtain ⟨p, hplace, -⟩ := read?_eq_some.mp hread
    obtain rfl := eq_placeOf hplace
    exact there_of_place? (place?_of_grows ht ht' h hpath hfile hplace) hfile

/-! Directories -/

theorem isDirectory_addDirectory :
    (t.addDirectory p).isDirectory q = (t.isDirectory q || q == p) := by
  simp [isDirectory, addDirectory, Bool.or_assoc, Bool.beq_eq_decide_eq]

theorem grows_addDirectory (t : FileTree) (p : Place) : Grows t (t.addDirectory p) := by
  constructor
  · intro q hq
    rw [isDirectory_addDirectory, hq]
    rfl
  · intro q c hq
    exact hq

theorem Sound.addDirectory (ht : t.Sound) (hp : t.hasFile p = false) :
    (t.addDirectory p).Sound := by
  constructor
  · intro q hq
    have hne : q ≠ p := by
      rintro rfl
      rw [show t.hasFile q = true from hq] at hp
      cases hp
    rw [isDirectory_addDirectory, ht.apart q hq]
    simpa using hne
  · intro q r hq hbelow hne
    exact (grows_addDirectory t p).directories r (ht.inside q r hq hbelow hne)

/-- What making directories comes to: there are more of them, and the files are as they were. -/
theorem makeWay_grows (ht : t.Sound) (here : Place) (names : List String) :
    (t.makeWay here names).2.Sound ∧ Grows t (t.makeWay here names).2 ∧
      ∀ p, (t.makeWay here names).2.find? p = t.find? p := by
  induction names generalizing t here with
  | nil => exact ⟨ht, Grows.refl t, fun _ => rfl⟩
  | cons name names ih =>
    have hstay : t.Sound ∧ Grows t t ∧ ∀ p, t.find? p = t.find? p :=
      ⟨ht, Grows.refl t, fun _ => rfl⟩
    rw [makeWay]
    split
    · exact hstay
    split
    · exact ih ht here
    split
    · exact ih ht here.dropLast
    split
    · exact ih ht (here ++ [name])
    split
    · exact hstay
    next hfree =>
      have hnone : t.hasFile (here ++ [name]) = false := by
        cases hfile : t.hasFile (here ++ [name]) with
        | false => rfl
        | true => simp [hfile] at hfree
      obtain ⟨hsound, hgrows, hfind⟩ := ih (ht.addDirectory hnone) (here ++ [name])
      exact ⟨hsound, (grows_addDirectory t (here ++ [name])).trans hgrows, hfind⟩

theorem makeDirectories_grows {made : Bool} (ht : t.Sound)
    (hmake : t.makeDirectories path = (made, t')) :
    t'.Sound ∧ Grows t t' ∧ ∀ p, t'.find? p = t.find? p := by
  have h := makeWay_grows ht [] (steps path)
  rw [makeDirectories] at hmake
  rw [hmake] at h
  exact h

/-! Files -/

theorem lookup_filter_ne {l : List (Place × Contents)} (h : q ≠ p) :
    (l.filter fun f => f.1 != p).lookup q = l.lookup q := by
  induction l with
  | nil => rfl
  | cons f l ih =>
    by_cases hf : f.1 = p
    · rw [List.filter_cons_of_neg (by simp [hf]), ih, List.lookup_cons, hf, beq_false_of_ne h]
    · rw [List.filter_cons_of_pos (by simp [hf]), List.lookup_cons, List.lookup_cons, ih]

theorem find?_put : (t.put p c).find? q = if q = p then some c else t.find? q := by
  rw [find?, put, List.lookup_cons]
  by_cases h : q = p
  · rw [if_pos h, h, beq_self_eq_true]
  · rw [if_neg h, beq_false_of_ne h, lookup_filter_ne h, find?]

theorem isDirectory_put : (t.put p c).isDirectory q = t.isDirectory q :=
  rfl

theorem follow_put : (t.put p c).follow here names = t.follow here names := by
  induction names generalizing here with
  | nil => rfl
  | cons name names ih => simp only [follow, isDirectory_put, ih]

theorem place?_put : (t.put p c).place? path = t.place? path :=
  follow_put

theorem hasFile_put : (t.put p c).hasFile q ↔ t.hasFile q ∨ q = p := by
  rw [hasFile, find?_put]
  by_cases h : q = p
  · simp [h]
  · simp [h, hasFile]

theorem Sound.put (ht : t.Sound) (hp : t.place? path = some p) (hplace : t.isDirectory p = false) :
    (t.put p c).Sound := by
  constructor
  · intro q hq
    rcases hasFile_put.mp hq with hq | rfl
    · exact ht.apart q hq
    · exact hplace
  · intro q r hq hbelow hne
    rcases hasFile_put.mp hq with hq | rfl
    · exact ht.inside q r hq hbelow hne
    · refine isDirectory_of_follow hp ?_ r hbelow hne
      intro s hs hne
      exact absurd (List.prefix_nil.mp hs) hne

theorem grows_put (hp : t.find? p = none) : Grows t (t.put p c) := by
  constructor
  · intro q hq
    exact hq
  · intro q d hq
    have hne : q ≠ p := by
      rintro rfl
      rw [hp] at hq
      cases hq
    rw [find?_put, if_neg hne, hq]

end SdkSmith.Output.FileTree
