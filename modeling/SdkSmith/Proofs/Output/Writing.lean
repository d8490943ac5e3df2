import SdkSmith.Output.Report
import SdkSmith.Proofs.Naming.GivenNames
import SdkSmith.Proofs.Output.FileTrees

/-!
Writing files without force. One file is read and left alone, or a place for it is made and it is
put there; in a run this is done for one file after another, until one fails. No file that was there
is touched.
-/
namespace SdkSmith.Output
open FileTree

variable {t u v : FileTree} {path text : String} {result : Except Failure Outcome} {o : Outcome}
  {x : String × String} {xs : List (String × String)}

/-- What writing one file without force comes to. -/
inductive Wrote (t : FileTree) (path text : String) : Except Failure Outcome → FileTree → Prop
  | unreadable (hthere : t.there path) (hread : t.read? path = none) :
      Wrote t path text (.error (.io path)) t
  | unchanged (hthere : t.there path) (hread : t.read? path = some text) :
      Wrote t path text (.ok .unchanged) t
  | skipped {old : String} (hthere : t.there path) (hread : t.read? path = some old)
      (hne : old ≠ text) : Wrote t path text (.ok .skipped) t
  | unmade {u : FileTree} (hfree : t.there path = false)
      (hmake : t.makeDirectories (parent path) = (false, u)) :
      Wrote t path text (.error (.io (parent path))) u
  | unwritten {u : FileTree} (hfree : t.there path = false)
      (hmake : t.makeDirectories (parent path) = (true, u))
      (hwrite : u.write path (.text text) = (false, u)) : Wrote t path text (.error (.io path)) u
  | written {u : FileTree} {p : Place} (hfree : t.there path = false)
      (hmake : t.makeDirectories (parent path) = (true, u)) (hplace : u.place? path = some p)
      (hp : u.isDirectory p = false) : Wrote t path text (.ok .written) (u.put p (.text text))

theorem write_eq_true {c : Contents} (h : t.write path c = (true, u)) :
    ∃ p, t.place? path = some p ∧ t.isDirectory p = false ∧ u = t.put p c := by
  rw [FileTree.write] at h
  split at h
  next p hplace =>
    split at h
    · cases h
    next hp =>
      cases h
      exact ⟨p, hplace, eq_false_of_ne_true hp, rfl⟩
  · cases h

theorem write_eq_false {c : Contents} (h : t.write path c = (false, u)) : u = t := by
  rw [FileTree.write] at h
  split at h
  · split at h
    · cases h
      rfl
    · cases h
  · cases h
    rfl

theorem pure_apply {α : Type} (a : α) (t : FileTree) : (pure a : StateM FileTree α) t = (a, t) :=
  rfl

theorem bind_apply {α β : Type} (a : StateM FileTree α) (f : α → StateM FileTree β)
    (t : FileTree) : (a >>= f) t = f (a t).1 (a t).2 :=
  rfl

theorem create_disk : create FileTree.disk path text t =
    match t.makeDirectories (parent path) with
    | (false, u) => (.error (.io (parent path)), u)
    | (true, u) =>
      match u.write path (.text text) with
      | (false, v) => (.error (.io path), v)
      | (true, v) => (.ok .written, v) := by
  rcases hmake : t.makeDirectories (parent path) with ⟨_ | _, u⟩
  · simp [create, FileTree.disk, bind_apply, pure_apply, hmake]
  · rcases hwrite : u.write path (.text text) with ⟨_ | _, v⟩ <;>
      simp [create, FileTree.disk, bind_apply, pure_apply, hmake, hwrite]

theorem writeFile_disk : writeFile FileTree.disk false path text t =
    if t.there path then
      match t.read? path with
      | none => (.error (.io path), t)
      | some old => if old = text then (.ok .unchanged, t) else (.ok .skipped, t)
    else create FileTree.disk path text t := by
  cases hthere : t.there path with
  | false =>
    rw [there] at hthere
    simp [writeFile, FileTree.disk, bind_apply, hthere]
  | true =>
    rw [there] at hthere
    cases hread : t.read? path with
    | none => simp [writeFile, FileTree.disk, bind_apply, pure_apply, hthere, hread]
    | some old =>
      by_cases heq : old = text <;>
        simp [writeFile, FileTree.disk, bind_apply, pure_apply, hthere, hread, heq]

theorem writeFile_wrote (t : FileTree) (path text : String) :
    Wrote t path text (writeFile FileTree.disk false path text t).1
      (writeFile FileTree.disk false path text t).2 := by
  rw [writeFile_disk]
  cases hthere : t.there path with
  | true =>
    rw [if_pos rfl]
    cases hread : t.read? path with
    | none => exact .unreadable hthere hread
    | some old =>
      dsimp only
      split
      next heq =>
        subst heq
        exact .unchanged hthere hread
      next hne => exact .skipped hthere hread hne
  | false =>
    rw [if_neg Bool.false_ne_true, create_disk]
    rcases hmake : t.makeDirectories (parent path) with ⟨_ | _, u⟩
    · exact .unmade hthere hmake
    · dsimp only
      rcases hwrite : u.write path (.text text) with ⟨_ | _, v⟩
      · obtain rfl := write_eq_false hwrite
        exact .unwritten hthere hmake hwrite
      · obtain ⟨p, hplace, hp, rfl⟩ := write_eq_true hwrite
        exact .written hthere hmake hplace hp

theorem Wrote.sound (h : Wrote t path text result v) (ht : t.Sound) : v.Sound := by
  cases h with
  | unreadable | unchanged | skipped => exact ht
  | unmade _ hmake => exact (makeDirectories_grows ht hmake).1
  | unwritten _ hmake => exact (makeDirectories_grows ht hmake).1
  | written _ hmake hplace hp => exact (makeDirectories_grows ht hmake).1.put hplace hp

/-- A straight path at which there is nothing leads to no file, also once directories are made. -/
theorem find?_eq_none (ht : t.Sound) (hu : u.Sound) (hgrows : Grows t u) (hpath : t.Straight path)
    (hfree : t.there path = false) {p : Place} (hplace : u.place? path = some p) :
    t.find? p = none := by
  cases hfile : t.find? p with
  | none => rfl
  | some c =>
    have hp : t.hasFile p := Option.isSome_of_eq_some hfile
    have hthere := there_of_place? (place?_of_grows ht hu hgrows hpath hp hplace) hp
    rw [hfree] at hthere
    cases hthere

theorem Wrote.grows (h : Wrote t path text result v) (ht : t.Sound) (hpath : t.Straight path) :
    Grows t v := by
  cases h with
  | unreadable | unchanged | skipped => exact Grows.refl t
  | unmade _ hmake => exact (makeDirectories_grows ht hmake).2.1
  | unwritten _ hmake => exact (makeDirectories_grows ht hmake).2.1
  | written hfree hmake hplace =>
    obtain ⟨hu, hgrows, hfind⟩ := makeDirectories_grows ht hmake
    apply hgrows.trans
    -- the only step that sets contents, so it must not meet a file
    apply grows_put
    rw [hfind]
    exact find?_eq_none ht hu hgrows hpath hfree hplace

theorem Wrote.readable (h : Wrote t path text (.ok o) v) : (v.read? path).isSome := by
  cases h with
  | unchanged _ hread => exact Option.isSome_of_eq_some hread
  | skipped _ hread => exact Option.isSome_of_eq_some hread
  | written _ _ hplace =>
    apply Option.isSome_of_eq_some
    apply read?_eq_some.mpr
    exact ⟨_, place?_put.trans hplace, find?_put.trans (if_pos rfl)⟩

theorem Wrote.hasFile (h : Wrote t path text (.ok o) v) (ht : t.Sound) {q : Place} :
    v.hasFile q ↔ t.hasFile q ∨ q = placeOf path := by
  have hsame (hread : (t.read? path).isSome) : t.hasFile q ↔ t.hasFile q ∨ q = placeOf path := by
    constructor
    · exact Or.inl
    · rintro (hq | rfl)
      · exact hq
      · exact hasFile_of_read? hread
  cases h with
  | unchanged _ hread => exact hsame (Option.isSome_of_eq_some hread)
  | skipped _ hread => exact hsame (Option.isSome_of_eq_some hread)
  | written _ hmake hplace =>
    have hfind := (makeDirectories_grows ht hmake).2.2 q
    rw [hasFile_put, eq_placeOf hplace, FileTree.hasFile, hfind, FileTree.hasFile]

/-- A file is written if and only if no file is at its place. -/
theorem Wrote.written_iff (h : Wrote t path text (.ok o) v) (ht : t.Sound)
    (hpath : t.Straight path) : o = .written ↔ t.hasFile (placeOf path) = false := by
  cases h with
  | unchanged _ hread => simp [hasFile_of_read? (Option.isSome_of_eq_some hread)]
  | skipped _ hread => simp [hasFile_of_read? (Option.isSome_of_eq_some hread)]
  | written hfree hmake hplace =>
    obtain ⟨hu, hgrows, -⟩ := makeDirectories_grows ht hmake
    have hnone := find?_eq_none ht hu hgrows hpath hfree hplace
    rw [eq_placeOf hplace] at hnone
    simp [FileTree.hasFile, hnone]

/-- A file is skipped if and only if another text is there. -/
theorem Wrote.skipped_iff (h : Wrote t path text (.ok o) v) :
    o = .skipped ↔ (t.read? path).any (· != text) := by
  cases h with
  | unchanged _ hread => simp [hread]
  | skipped _ hread hne => simp [hread, hne]
  | written hfree =>
    cases hread : t.read? path with
    | none => simp
    | some old =>
      have hthere := there_of_read? (Option.isSome_of_eq_some hread)
      rw [hfree] at hthere
      cases hthere

/-! Runs -/

/-- What writing texts one after another without force comes to. -/
def writing (t : FileTree) (xs : List (String × String)) : Report × FileTree :=
  writeTexts FileTree.disk false xs t

/-- The files that writing texts leaves. -/
def reached (t : FileTree) (xs : List (String × String)) : FileTree :=
  (writing t xs).2

/-- What writing one more file comes to, which no failure has kept from being written. -/
def writeNext (s : Report × FileTree) (x : String × String) : Report × FileTree :=
  match s.1.failure with
  | some _ => s
  | none =>
    match writeFile FileTree.disk false x.1 x.2 s.2 with
    | (.error f, u) => (⟨s.1.outcomes, some f⟩, u)
    | (.ok o, u) => (⟨s.1.outcomes ++ [(x.1, o)], none⟩, u)

/-! A run adds the files in front, and so does not lend itself to facts on what was there when a
file was reached; as a fold it adds them at the end. -/

theorem foldl_writeNext_of_failure {f : Failure} {s : Report × FileTree} (h : s.1.failure = some f)
    (xs : List (String × String)) : xs.foldl writeNext s = s := by
  induction xs with
  | nil => rfl
  | cons x xs ih =>
    have hsame : writeNext s x = s := by
      rw [writeNext, h]
    rw [List.foldl_cons, hsame, ih]

theorem foldl_writeNext (t : FileTree) (os : List (String × Outcome))
    (xs : List (String × String)) :
    xs.foldl writeNext (⟨os, none⟩, t) =
      (⟨os ++ (writing t xs).1.outcomes, (writing t xs).1.failure⟩, (writing t xs).2) := by
  induction xs generalizing t os with
  | nil => simp [writing, writeTexts, pure_apply]
  | cons x xs ih =>
    rw [List.foldl_cons]
    rcases hfirst : writeFile FileTree.disk false x.1 x.2 t with ⟨f | o, u⟩
    · have hnext : writeNext (⟨os, none⟩, t) x = (⟨os, some f⟩, u) := by rw [writeNext, hfirst]
      have hwriting : writing t (x :: xs) = (⟨[], some f⟩, u) := by
        rw [writing, writeTexts, bind_apply, hfirst]
        rfl
      rw [hnext, foldl_writeNext_of_failure rfl, hwriting, List.append_nil]
    · have hnext : writeNext (⟨os, none⟩, t) x = (⟨os ++ [(x.1, o)], none⟩, u) := by
        rw [writeNext, hfirst]
      have hwriting : writing t (x :: xs) =
          (⟨(x.1, o) :: (writing u xs).1.outcomes, (writing u xs).1.failure⟩,
            (writing u xs).2) := by
        rw [writing, writeTexts, bind_apply, hfirst]
        rfl
      rw [hnext, ih, hwriting, List.append_assoc, List.singleton_append]

theorem writing_append_singleton : writing t (xs ++ [x]) = writeNext (writing t xs) x := by
  have hfold (ys : List (String × String)) : writing t ys = ys.foldl writeNext (⟨[], none⟩, t) :=
    (foldl_writeNext t [] ys).symm
  rw [hfold, hfold, List.foldl_append, List.foldl_cons, List.foldl_nil]

theorem writeNext_cases (s : Report × FileTree) (x : String × String) :
    (∃ f, s.1.failure = some f ∧ writeNext s x = s) ∨
    (∃ f u, s.1.failure = none ∧ Wrote s.2 x.1 x.2 (.error f) u ∧
      writeNext s x = (⟨s.1.outcomes, some f⟩, u)) ∨
    (∃ o u, s.1.failure = none ∧ Wrote s.2 x.1 x.2 (.ok o) u ∧
      writeNext s x = (⟨s.1.outcomes ++ [(x.1, o)], none⟩, u)) := by
  have hwrote := writeFile_wrote s.2 x.1 x.2
  cases hfailure : s.1.failure with
  | some f => exact Or.inl ⟨f, rfl, by rw [writeNext, hfailure]⟩
  | none =>
    right
    rcases hrun : writeFile FileTree.disk false x.1 x.2 s.2 with ⟨f | o, u⟩ <;> rw [hrun] at hwrote
    · exact Or.inl ⟨f, u, rfl, hwrote, by rw [writeNext, hfailure, hrun]⟩
    · exact Or.inr ⟨o, u, rfl, hwrote, by rw [writeNext, hfailure, hrun]⟩

/-- The last file is written after the others, or not at all if one of them has failed. -/
theorem reached_append_singleton : reached t (xs ++ [x]) = reached t xs ∨
    ∃ result, Wrote (reached t xs) x.1 x.2 result (reached t (xs ++ [x])) := by
  rw [reached, reached, writing_append_singleton]
  obtain ⟨_, -, hnext⟩ | ⟨f, u, -, hlast, hnext⟩ | ⟨o, u, -, hlast, hnext⟩ :=
    writeNext_cases (writing t xs) x <;> rw [hnext]
  · exact Or.inl rfl
  · exact Or.inr ⟨.error f, hlast⟩
  · exact Or.inr ⟨.ok o, hlast⟩

/-- In a run that succeeds each file is written after the others. -/
theorem writing_succeeds (h : (writing t (xs ++ [x])).1.failure = none) :
    (writing t xs).1.failure = none ∧
      ∃ o, Wrote (reached t xs) x.1 x.2 (.ok o) (reached t (xs ++ [x])) ∧
        (writing t (xs ++ [x])).1.outcomes = (writing t xs).1.outcomes ++ [(x.1, o)] := by
  rw [writing_append_singleton] at h
  rw [reached, reached, writing_append_singleton]
  obtain ⟨f, hfailure, hnext⟩ | ⟨f, u, -, -, hnext⟩ | ⟨o, u, hbefore, hlast, hnext⟩ :=
    writeNext_cases (writing t xs) x <;> rw [hnext] at h
  · rw [hfailure] at h
    cases h
  · cases h
  · rw [hnext]
    exact ⟨hbefore, o, hlast, rfl⟩

theorem reached_grows (ht : t.Sound) (hpaths : ∀ x ∈ xs, t.Straight x.1) :
    (reached t xs).Sound ∧ Grows t (reached t xs) := by
  induction xs using List.reverseRecOn with
  | nil => exact ⟨ht, Grows.refl t⟩
  | append_singleton xs x ih =>
    rw [List.forall_mem_append, List.forall_mem_singleton] at hpaths
    obtain ⟨hsound, hgrows⟩ := ih hpaths.1
    rcases reached_append_singleton with hsame | ⟨result, hlast⟩
    · rw [hsame]
      exact ⟨hsound, hgrows⟩
    · have hpath := hpaths.2.grows hgrows
      exact ⟨hlast.sound hsound, hgrows.trans (hlast.grows hsound hpath)⟩

theorem reached_readable (ht : t.Sound) (hpaths : ∀ x ∈ xs, t.Straight x.1)
    (h : (writing t xs).1.failure = none) : ∀ x ∈ xs, ((reached t xs).read? x.1).isSome := by
  induction xs using List.reverseRecOn with
  | nil => exact List.forall_mem_nil _
  | append_singleton xs x ih =>
    rw [List.forall_mem_append, List.forall_mem_singleton] at hpaths ⊢
    obtain ⟨hbefore, o, hlast, -⟩ := writing_succeeds h
    obtain ⟨hsound, hgrows⟩ := reached_grows ht hpaths.1
    constructor
    · intro y hy
      obtain ⟨text, hread⟩ := Option.isSome_iff_exists.mp (ih hpaths.1 hbefore y hy)
      have hstep := hlast.grows hsound (hpaths.2.grows hgrows)
      exact Option.isSome_of_eq_some (hstep.read? hread)
    · exact hlast.readable

/-- After a run that succeeds there are the files that were there and those of the texts. -/
theorem reached_hasFile (ht : t.Sound) (hpaths : ∀ x ∈ xs, t.Straight x.1)
    (h : (writing t xs).1.failure = none) (q : Place) :
    (reached t xs).hasFile q ↔ t.hasFile q ∨ ∃ x ∈ xs, placeOf x.1 = q := by
  induction xs using List.reverseRecOn with
  | nil => simp [reached, writing, writeTexts, pure_apply]
  | append_singleton xs x ih =>
    rw [List.forall_mem_append, List.forall_mem_singleton] at hpaths
    obtain ⟨hbefore, o, hlast, -⟩ := writing_succeeds h
    rw [hlast.hasFile (reached_grows ht hpaths.1).1, ih hpaths.1 hbefore, or_assoc]
    simp only [List.mem_append, List.mem_singleton, or_and_right, exists_or, exists_eq_left,
      eq_comm (a := q)]

theorem paths_append_singleton {r r' : Report} (h : r'.outcomes = r.outcomes ++ [(path, o)])
    (k : Outcome) : r'.paths k = r.paths k ++ if o = k then [path] else [] := by
  rw [Report.paths, h, List.filter_append, List.map_append, ← Report.paths]
  by_cases hk : o = k <;> simp [hk]

/-- The paths of one outcome are those of the texts that have it when they are reached. -/
theorem paths_eq (k : Outcome) (p : List (String × String) × (String × String) → Bool)
    (hpaths : ∀ x ∈ xs, t.Straight x.1) (h : (writing t xs).1.failure = none)
    (hp : ∀ ys x o, (∀ y ∈ ys ++ [x], t.Straight y.1) →
      (writing t (ys ++ [x])).1.failure = none →
      Wrote (reached t ys) x.1 x.2 (.ok o) (reached t (ys ++ [x])) → (o = k ↔ p (ys, x))) :
    (writing t xs).1.paths k = ((withEarlier xs).filter p).map (·.2.1) := by
  induction xs using List.reverseRecOn with
  | nil => rfl
  | append_singleton xs x ih =>
    obtain ⟨hbefore, o, hlast, houtcomes⟩ := writing_succeeds h
    have hk := hp xs x o hpaths h hlast
    rw [List.forall_mem_append] at hpaths
    rw [paths_append_singleton houtcomes, ih hpaths.1 hbefore, withEarlier_append_singleton,
      List.filter_append, List.map_append]
    by_cases hx : o = k
    · simp [hx, hk.mp hx]
    · have hfalse : p (xs, x) = false := eq_false_of_ne_true (fun hx' => hx (hk.mpr hx'))
      simp [hx, hfalse]

/-- What it is to write files without force: whatever becomes of the run, each file that was there
has its contents. If it succeeds, there is a file at each path, those that were not there are
reported as written, once for each, and a text is reported as skipped if another text was there when
it was reached. -/
structure Spares (t : FileTree) (xs : List (String × String)) (r : Report) (v : FileTree) :
    Prop where
  kept : ∀ p c, t.find? p = some c → v.find? p = some c
  present : r.failure = none → ∀ x ∈ xs, v.there x.1 ∧ (v.read? x.1).isSome
  written : r.failure = none → r.paths .written = ((withEarlier xs).filter fun y =>
    !t.there y.2.1 && !y.1.any fun x => placeOf x.1 == placeOf y.2.1).map (·.2.1)
  skipped : r.failure = none → r.paths .skipped = ((withEarlier xs).filter fun y =>
    ((reached t y.1).read? y.2.1).any (· != y.2.2)).map (·.2.1)

/-- Writing classes without force spares what is there, as long as the paths turn back only from
directories that are there. -/
theorem writeFiles_spares {directory root : String} {files : List Php.File} (ht : t.Sound)
    (hpaths : ∀ x ∈ texts directory root files, t.Straight x.1) :
    Spares t (texts directory root files)
      (writeFiles FileTree.disk false directory root files t).1
      (writeFiles FileTree.disk false directory root files t).2 := by
  have hrun : writeFiles FileTree.disk false directory root files t =
      writing t (texts directory root files) := rfl
  rw [hrun]
  constructor
  case kept => exact (reached_grows ht hpaths).2.files
  case present =>
    intro h x hx
    have hread := reached_readable ht hpaths h x hx
    exact ⟨there_of_read? hread, hread⟩
  case written =>
    intro h
    apply paths_eq .written _ hpaths h
    intro ys x o hpaths h hlast
    have hpath := List.forall_mem_append.mp hpaths
    obtain ⟨hsound, hgrows⟩ := reached_grows ht hpaths
    obtain ⟨hbefore, hgrows'⟩ := reached_grows ht hpath.1
    have hx := List.forall_mem_singleton.mp hpath.2
    have hthere := there_iff_hasFile ht hsound hgrows hx hlast.readable
    have hfile := reached_hasFile ht hpath.1 (writing_succeeds h).1 (placeOf x.1)
    -- a file at the place was there before the run or is that of an earlier text
    rw [hlast.written_iff hbefore (hx.grows hgrows'), ← Bool.not_eq_true, hfile, ← hthere, not_or]
    simp
  case skipped =>
    intro h
    apply paths_eq .skipped _ hpaths h
    intro ys x o _ _ hlast
    exact hlast.skipped_iff

/-- A file system with one file in one directory. -/
def oneFile : FileTree :=
  (FileTree.empty.addDirectory ["out"]).put ["out", "A.php"] (.text "mine")

theorem sound_oneFile : oneFile.Sound := by
  have hout : (FileTree.empty.addDirectory ["out"]).Sound := sound_empty.addDirectory rfl
  have hplace : (FileTree.empty.addDirectory ["out"]).place? "out/A.php" = some ["out", "A.php"] :=
    by decide
  exact hout.put hplace rfl

/-- Files of which the last two go to one place. -/
def plainFiles : List Php.File :=
  [.plain "App" (.empty .plain "A"), .plain "App" (.empty .plain "B"),
    .plain "App" (.empty .abstract "B")]

theorem writeFiles_plainFiles_spares : oneFile.Sound ∧
    (∀ x ∈ texts "out/../out" "App" plainFiles, oneFile.Straight x.1) ∧
    Spares oneFile (texts "out/../out" "App" plainFiles)
      (writeFiles FileTree.disk false "out/../out" "App" plainFiles oneFile).1
      (writeFiles FileTree.disk false "out/../out" "App" plainFiles oneFile).2 ∧
    (writeFiles FileTree.disk false "out/../out" "App" plainFiles oneFile).1 =
      ⟨[("out/../out/A.php", .skipped), ("out/../out/B.php", .written),
        ("out/../out/B.php", .skipped)], none⟩ := by
  have hpaths : ∀ x ∈ texts "out/../out" "App" plainFiles, oneFile.Straight x.1 := by
    intro x hx
    simp only [texts, plainFiles, List.map_cons, List.map_nil, List.mem_cons, List.not_mem_nil,
      or_false] at hx
    rcases hx with rfl | rfl | rfl
    · exact ⟨["out", ".."], ["out", "A.php"], by decide, by decide, by decide⟩
    · exact ⟨["out", ".."], ["out", "B.php"], by decide, by decide, by decide⟩
    · exact ⟨["out", ".."], ["out", "B.php"], by decide, by decide, by decide⟩
  exact ⟨sound_oneFile, hpaths, writeFiles_spares sound_oneFile hpaths, by decide +kernel⟩

/-- A path that turns back from a directory that is not there leads to a file only once the
directory is made, and then that file is lost. -/
theorem writeFiles_turning_loses :
    (FileTree.empty.put ["Resource.php"] (.text "mine")).Sound ∧
    (FileTree.empty.put ["Resource.php"] (.text "mine")).find? ["Resource.php"] =
      some (.text "mine") ∧
    (writeFiles FileTree.disk false "new/.." "App" [.plain "App" (.empty .plain "Resource")]
        (FileTree.empty.put ["Resource.php"] (.text "mine"))).2.find? ["Resource.php"] ≠
      some (.text "mine") := by
  have hplace : FileTree.empty.place? "Resource.php" = some ["Resource.php"] := by decide
  exact ⟨sound_empty.put hplace rfl, rfl, by decide +kernel⟩

end SdkSmith.Output
