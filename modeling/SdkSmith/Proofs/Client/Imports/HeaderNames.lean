import SdkSmith.Proofs.Client.Imports.KnownNames

/-!
The names that a file knows from the start, and those that it knows in the end. As each class that
it refers to keeps to what is known, the imports of the file are unambiguous exactly if no name is
known twice.
-/
namespace SdkSmith.Client
open Php (File Import)

variable {x : Header} {cs : List ClassRef}

/-! Classes at fixed names -/

theorem namespaceName_foldl_addImport (is : List Import) (f : File) :
    (is.foldl File.addImport f).namespaceName = f.namespaceName := by
  induction is generalizing f with
  | nil => rfl
  | cons i is ih => rw [List.foldl_cons, ih, Php.File.namespaceName_addImport]

/-- Of imports that are seen by different names, those that are needed are added. -/
theorem imports_foldl_addImport {is : List Import} (h : (is.map (·.visible)).Nodup)
    (own : ClassRef) : (is.foldl File.addImport (Usage.empty own).file).imports =
      is.filter fun i => !File.sees own.namespaceName i := by
  induction is using List.reverseRecOn with
  | nil => rfl
  | append_singleton is i ih =>
    rw [List.map_append, List.map_singleton, List.nodup_append'] at h
    have himports := ih h.1
    have hnamespace := namespaceName_foldl_addImport is (Usage.empty own).file
    rw [List.foldl_append, List.foldl_cons, List.foldl_nil, List.filter_append, File.addImport,
      hnamespace]
    by_cases hsees : File.sees own.namespaceName i = true
    · have hseen : File.sees (Usage.empty own).file.namespaceName i = true := hsees
      rw [hseen, Bool.true_or, if_pos rfl, himports, List.filter_cons_of_neg (by simp [hsees]),
        List.filter_nil, List.append_nil]
    · have hneeded : File.sees (Usage.empty own).file.namespaceName i = false :=
        Bool.eq_false_iff.mpr hsees
      have hmem : i ∉ (is.foldl File.addImport (Usage.empty own).file).imports := by
        rw [himports]
        intro hi
        exact h.2.2 (List.mem_map_of_mem (List.mem_filter.mp hi).1) List.mem_cons_self
      rw [hneeded, Bool.false_or, if_neg (by rwa [List.contains_iff_mem]), himports,
        List.filter_cons_of_pos (by simp [hsees]), List.filter_nil]

theorem uses_after_nil (x : Header) : (x.after []).uses = x.fixed.map (·.pair) :=
  (foldl_fix_file x.fixed (.empty x.own)).2

theorem imports_after_nil (hfixed : (x.fixed.map (·.visible)).Nodup) :
    (x.after []).file.imports = x.shown := by
  have hfile := (foldl_fix_file x.fixed (.empty x.own)).1
  rw [Header.after, List.foldl_nil, hfile, imports_foldl_addImport hfixed, Header.shown]

theorem name_after_nil (x : Header) : (x.after []).file.namespaceName = x.own.namespaceName ∧
    (x.after []).file.declaration.name = x.own.name := by
  have hfile := (foldl_fix_file x.fixed (.empty x.own)).1
  rw [Header.after, List.foldl_nil, hfile, namespaceName_foldl_addImport,
    Php.File.declaration_foldl_addImport]
  exact ⟨rfl, rfl⟩

/-- What a file refers to at first is its own class, hidden, or shown. -/
theorem pair_mem_start {i : Import} (hown : '\\' ∉ x.own.name.toList) (hi : i ∈ x.fixed) :
    i.pair ∈ x.hidden.map (·.pair) ++ x.start := by
  by_cases hsees : File.sees x.own.namespaceName i = true ∧ i.path = x.own.qualifiedName
  · have hpair : i.pair = x.ownPair := (pair_of_sees hown hsees.1 hsees.2).2
    rw [hpair]
    exact List.mem_append_right _ List.mem_cons_self
  · cases hseen : File.sees x.own.namespaceName i with
    | true =>
      have hne : i.path ≠ x.own.qualifiedName := fun hpath => hsees ⟨hseen, hpath⟩
      exact List.mem_append_left _ (List.mem_map_of_mem (Header.mem_hidden.mpr ⟨hi, hseen, hne⟩))
    | false =>
      refine List.mem_append_right _ (List.mem_cons_of_mem _ (List.mem_map_of_mem ?_))
      exact Header.mem_shown.mpr ⟨hi, hseen⟩

theorem agrees_start (hfixed : (x.fixed.map (·.visible)).Nodup) (hown : '\\' ∉ x.own.name.toList) :
    Agrees x [] x.start (x.after []) := by
  have hstart : x.ownPair :: (x.after []).file.imports.map (·.pair) = x.start := by
    rw [imports_after_nil hfixed, Header.start]
  constructor
  case namespaceName => exact (name_after_nil x).1
  case name => exact (name_after_nil x).2
  case start => exact List.Subset.refl _
  case imports => rw [hstart]
  case origin =>
    intro y hy
    rw [hstart]
    exact Or.inl hy
  case uses =>
    rw [uses_after_nil]
    exact List.forall_mem_map.mpr fun i hi => pair_mem_start hown hi
  case used =>
    rw [uses_after_nil]
    refine List.forall_mem_append.mpr ⟨?_, List.forall_mem_cons.mpr ⟨Or.inr rfl, ?_⟩⟩
    · exact List.forall_mem_map.mpr fun i hi =>
        Or.inl (List.mem_map_of_mem (Header.mem_hidden.mp hi).1)
    · exact List.forall_mem_map.mpr fun i hi =>
        Or.inl (List.mem_map_of_mem (Header.mem_shown.mp hi).1)

theorem nodup_start (hfixed : (x.fixed.map (·.visible)).Nodup)
    (hgood : Unambiguous (x.after []).file (x.after []).uses) :
    ((x.hidden.map (·.pair) ++ x.start).map (·.1)).Nodup := by
  have hdistinct := hgood.distinct
  rw [imports_after_nil hfixed, (name_after_nil x).2] at hdistinct
  rw [List.map_append, List.map_map, Header.start, List.map_cons, List.map_map, List.nodup_append']
  refine ⟨(List.filter_sublist.map _).nodup hfixed, hdistinct, ?_⟩
  intro name hhidden hstart
  obtain ⟨i, hi, rfl⟩ := List.mem_map.mp hhidden
  obtain ⟨hfix, hseen, hpath⟩ := Header.mem_hidden.mp hi
  rcases List.mem_cons.mp hstart with hname | hshown
  · -- a hidden class of the file's own name would be the file's own class
    refine hpath ((Php.Import.path_of_sees hseen).symm.trans ?_)
    rw [ClassRef.qualifiedName]
    exact congrArg _ hname
  · obtain ⟨j, hj, hvisible⟩ := List.mem_map.mp hshown
    obtain ⟨hjfix, hjseen⟩ := Header.mem_shown.mp hj
    obtain rfl := List.inj_on_of_nodup_map hfixed hjfix hfix hvisible
    rw [hseen] at hjseen
    cases hjseen

/-! Headers -/

theorem Header.pairsAfter_append_singleton (x : Header) (cs : List ClassRef) (c : ClassRef) :
    x.pairsAfter (cs ++ [c]) =
      x.hidden.map (·.pair) ++ x.know (cs.foldl x.know x.start) c := by
  rw [pairsAfter, List.foldl_append, List.foldl_cons, List.foldl_nil]

theorem Header.sublist_know (x : Header) (known : List (String × String)) (c : ClassRef) :
    known.Sublist (x.know known c) := by
  unfold know
  split
  · exact List.Sublist.refl _
  · exact List.sublist_append_left _ _

theorem Header.after_append_singleton (x : Header) (cs : List ClassRef) (c : ClassRef) :
    x.after (cs ++ [c]) = (x.after cs).add x.suffix c := by
  rw [after, List.foldl_append, List.foldl_cons, List.foldl_nil, ← after]

namespace Header.Sound

variable (h : x.Sound)

include h

theorem agrees_after (hcs : ∀ c ∈ cs, c ∈ x.classes)
    (hnodup : ((x.pairsAfter cs).map (·.1)).Nodup) :
    Agrees x cs (cs.foldl x.know x.start) (x.after cs) := by
  induction cs using List.reverseRecOn with
  | nil => exact agrees_start h.fixed h.own
  | append_singleton cs c ih =>
    rw [List.forall_mem_append, List.forall_mem_singleton] at hcs
    rw [x.pairsAfter_append_singleton] at hnodup
    have hbefore : ((x.pairsAfter cs).map (·.1)).Nodup :=
      (((List.Sublist.refl _).append (x.sublist_know _ c)).map _).nodup hnodup
    rw [x.after_append_singleton, List.foldl_append, List.foldl_cons, List.foldl_nil]
    exact (ih hcs.1 hbefore).add hnodup (fun c' hc' => h.clear c' (hcs.1 c' hc'))
      (fun c' hc' => h.named c' (hcs.1 c' hc') c hcs.2) (h.clear c hcs.2) h.own

/-- The names in a file are unambiguous exactly if no name is known twice. -/
theorem unambiguous_after (hcs : ∀ c ∈ cs, c ∈ x.classes) :
    Unambiguous (x.after cs).file (x.after cs).uses ↔ ((x.pairsAfter cs).map (·.1)).Nodup := by
  refine ⟨fun hgood => ?_, fun hnodup => (h.agrees_after hcs hnodup).unambiguous hnodup⟩
  induction cs using List.reverseRecOn with
  | nil => exact nodup_start h.fixed hgood
  | append_singleton cs c ih =>
    rw [List.forall_mem_append, List.forall_mem_singleton] at hcs
    rw [x.after_append_singleton] at hgood
    have hbefore := ih hcs.1 hgood.of_add
    rw [x.pairsAfter_append_singleton]
    exact (h.agrees_after hcs.1 hbefore).nodup_add hbefore
      (fun c' hc' => h.named c' (hcs.1 c' hc') c hcs.2) (h.clear c hcs.2) hgood

theorem unambiguous_usage : Unambiguous x.usage.file x.usage.uses ↔ x.names.Nodup :=
  h.unambiguous_after fun _ => id

end Header.Sound

end SdkSmith.Client
