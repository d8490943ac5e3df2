import Mathlib.Data.List.Nodup
import SdkSmith.Proofs.Client.Imports.Usage

/-!
The names by which a file comes to know classes. Its own class and those at fixed names are known
from the start; each other class is known by its name, or with a suffix where a class that is known
has that name. That the names are all different is what makes the imports of the file unambiguous.
-/
namespace SdkSmith

/-- The name by which an import is seen, and the class that is meant. -/
def Php.Import.pair (i : Import) : String × String := (i.visible, i.path)

namespace Client
open Php (File Import)

variable {x : Header} {u : Usage} {f : File} {c : ClassRef} {cs : List ClassRef} {suffix : String}
  {known : List (String × String)}

theorem ClassRef.qualifiedName_inj {c c' : ClassRef} (hc : '\\' ∉ c.name.toList)
    (hc' : '\\' ∉ c'.name.toList) (h : c.qualifiedName = c'.qualifiedName) : c = c' := by
  have hname := congrArg Php.Import.shortName h
  have hnamespace := congrArg Php.Import.namespace? h
  rw [qualifiedName, qualifiedName, Php.Import.shortName_path hc, Php.Import.shortName_path hc']
    at hname
  rw [qualifiedName, qualifiedName, Php.Import.namespace?_path hc, Php.Import.namespace?_path hc']
    at hnamespace
  cases c
  cases c'
  exact congrArg₂ ClassRef.mk (Option.some.inj hnamespace) hname

/-- Whether the names in a file are unambiguous: its own class and its imports are seen by different
names, and no import is seen by the name of another class that the file refers to. -/
structure Unambiguous (f : File) (uses : List (String × String)) : Prop where
  distinct : (f.declaration.name :: f.imports.map (·.visible)).Nodup
  apart : ∀ y ∈ uses, ∀ i ∈ f.imports, i.visible = y.1 → i.path = y.2

namespace Header
variable (x : Header)

/-- The file's own class, by its name. -/
def ownPair : String × String := (x.own.name, x.own.qualifiedName)

/-- The other classes at fixed names that are seen without an import. -/
def hidden : List Import :=
  x.fixed.filter fun i => File.sees x.own.namespaceName i && i.path != x.own.qualifiedName

/-- The classes at fixed names that are imported. -/
def shown : List Import :=
  x.fixed.filter fun i => !File.sees x.own.namespaceName i

/-- The names that are known, and can be seen to be taken, before any class of the client. -/
def start : List (String × String) :=
  x.ownPair :: x.shown.map (·.pair)

/-- Comes to know a class, by its name or the one with the suffix. -/
def know (known : List (String × String)) (c : ClassRef) : List (String × String) :=
  if c.qualifiedName ∈ x.fixed.map (·.path) ++ known.map (·.2) then known
  else known ++
    [(if c.name ∈ known.map (·.1) then c.name ++ x.suffix else c.name, c.qualifiedName)]

/-- The classes that are known after some of those that the file refers to. -/
def pairsAfter (cs : List ClassRef) : List (String × String) :=
  x.hidden.map (·.pair) ++ cs.foldl x.know x.start

/-- The names by which a file of this header knows its own class and those that it refers to. -/
def names : List String := (x.pairsAfter x.classes).map (·.1)

/-- The names by which a file refers to classes after some of them. -/
def after (cs : List ClassRef) : Usage :=
  cs.foldl (Usage.add x.suffix) (x.fixed.foldl Usage.fix (.empty x.own))

/-- Whether the classes at fixed names have different ones, and no name stands for two of the other
classes. -/
structure Sound (x : Header) : Prop where
  own : '\\' ∉ x.own.name.toList
  fixed : (x.fixed.map (·.visible)).Nodup
  clear : ∀ c ∈ x.classes, '\\' ∉ c.name.toList
  named : ∀ c ∈ x.classes, ∀ c' ∈ x.classes, c.name = c'.name → c = c'

variable {x}

theorem mem_hidden {i : Import} : i ∈ x.hidden ↔ i ∈ x.fixed ∧
    File.sees x.own.namespaceName i = true ∧ i.path ≠ x.own.qualifiedName := by
  rw [hidden, List.mem_filter, Bool.and_eq_true, bne_iff_ne]

theorem mem_shown {i : Import} :
    i ∈ x.shown ↔ i ∈ x.fixed ∧ File.sees x.own.namespaceName i = false := by
  rw [shown, List.mem_filter, Bool.not_eq_true']

/-- A class at a fixed name is hidden or shown, unless it is the file's own. -/
theorem mem_hidden_or_shown {i : Import} (h : i ∈ x.fixed) (hne : i.path ≠ x.own.qualifiedName) :
    i ∈ x.hidden ∨ i ∈ x.shown := by
  cases hsees : File.sees x.own.namespaceName i with
  | true => exact Or.inl (mem_hidden.mpr ⟨h, hsees, hne⟩)
  | false => exact Or.inr (mem_shown.mpr ⟨h, hsees⟩)

end Header

/-! One import -/

/-- An import that is not needed is of the namespace, and seen by the name of its class. -/
theorem pair_of_sees {i : Import} {namespaceName : String} (hclear : '\\' ∉ c.name.toList)
    (hsees : File.sees namespaceName i = true) (hpath : i.path = c.qualifiedName) :
    c.namespaceName = namespaceName ∧ i.pair = (c.name, c.qualifiedName) := by
  obtain ⟨hnamespace, hvisible⟩ := Php.Import.namespace?_of_sees hsees
  rw [hpath, ClassRef.qualifiedName] at hnamespace hvisible
  rw [Php.Import.namespace?_path hclear] at hnamespace
  rw [Php.Import.shortName_path hclear] at hvisible
  exact ⟨Option.some.inj hnamespace, Prod.ext hvisible hpath⟩

theorem isTaken_iff {name : String} :
    isTaken f name = true ↔ name ∈ f.declaration.name :: f.imports.map (·.visible) := by
  rw [isTaken, Bool.or_eq_true, beq_iff_eq, List.any_eq_true, List.mem_cons, List.mem_map]
  simp only [beq_iff_eq]

/-- What importing a class does that is neither the file's own nor imported. -/
theorem importClass_new
    (hown : ¬ (c.namespaceName = f.namespaceName ∧ c.name = f.declaration.name))
    (hnew : ∀ i ∈ f.imports, i.path ≠ c.qualifiedName) : importClass f c suffix =
      if isTaken f c.name then
        (c.name ++ suffix, f.addImport ⟨c.qualifiedName, some (c.name ++ suffix)⟩)
      else (c.name, f.addImport ⟨c.qualifiedName, none⟩) := by
  have hfind : f.imports.find? (fun i => i.path == c.qualifiedName) = none :=
    List.find?_eq_none.mpr fun i hi hpath => hnew i hi (beq_iff_eq.mp hpath)
  rw [importClass, if_neg (by simpa using hown), hfind]

theorem importClass_own (h : c.namespaceName = f.namespaceName ∧ c.name = f.declaration.name) :
    importClass f c suffix = (c.name, f) := by
  rw [importClass, if_pos (by simpa using h)]

theorem importClass_found {i : Import} (suffix : String)
    (hown : ¬ (c.namespaceName = f.namespaceName ∧ c.name = f.declaration.name))
    (hclear : '\\' ∉ c.name.toList)
    (hfind : f.imports.find? (fun i => i.path == c.qualifiedName) = some i) :
    importClass f c suffix = (i.visible, f) ∧ i.pair = (i.visible, c.qualifiedName) := by
  have hpath : i.path = c.qualifiedName := by simpa using List.find?_some hfind
  rw [importClass, if_neg (by simpa using hown), hfind, Php.Import.pair, hpath, Php.Import.visible,
    hpath, ClassRef.qualifiedName, Php.Import.shortName_path hclear]
  exact ⟨rfl, rfl⟩

/-- A class in the file's own namespace is seen without an import. -/
theorem addImport_seen (hclear : '\\' ∉ c.name.toList) (h : c.namespaceName = f.namespaceName) :
    f.addImport ⟨c.qualifiedName, none⟩ = f := by
  have hsees : File.sees f.namespaceName ⟨c.qualifiedName, none⟩ = true := by
    rw [File.sees, ClassRef.qualifiedName, Php.Import.namespace?_path hclear, h]
    simp
  rw [File.addImport, if_pos (by rw [hsees, Bool.true_or])]

/-- An import that is needed and is not there is added at the end. -/
theorem imports_addImport {i : Import} (hsees : File.sees f.namespaceName i = false)
    (hnew : ∀ j ∈ f.imports, j.path ≠ i.path) :
    (f.addImport i).imports = f.imports ++ [i] := by
  have hmem : i ∉ f.imports := fun hi => hnew i hi rfl
  rw [File.addImport, if_neg]
  simp [hsees, hmem]

theorem not_sees_of_ne (hclear : '\\' ∉ c.name.toList) (h : c.namespaceName ≠ f.namespaceName) :
    File.sees f.namespaceName ⟨c.qualifiedName, none⟩ = false := by
  rw [File.sees, ClassRef.qualifiedName, Php.Import.namespace?_path hclear, Bool.and_eq_false_iff]
  exact Or.inl (by simpa using h)

theorem sublist_imports_importClass (f : File) (c : ClassRef) (suffix : String) :
    f.imports.Sublist (importClass f c suffix).2.imports := by
  rcases importClass_snd f c suffix with heq | ⟨rename, heq⟩
  · rw [heq]
  · rw [heq, File.addImport]
    split
    · exact List.Sublist.refl _
    · exact List.sublist_append_left _ _

/-! Runs -/

/-- What holds of a file after some of the classes that it refers to, where no name is known twice:
what is known is the file's own class, its imports and classes of its own namespace, and it refers
to what it knows. -/
structure Agrees (x : Header) (cs : List ClassRef) (known : List (String × String)) (u : Usage) :
    Prop where
  namespaceName : u.file.namespaceName = x.own.namespaceName
  name : u.file.declaration.name = x.own.name
  start : x.start ⊆ known
  imports : (x.ownPair :: u.file.imports.map (·.pair)).Sublist known
  origin : ∀ y ∈ known, y ∈ x.ownPair :: u.file.imports.map (·.pair) ∨
    ∃ c ∈ cs, c.namespaceName = x.own.namespaceName ∧ y = (c.name, c.qualifiedName)
  uses : u.uses ⊆ x.hidden.map (·.pair) ++ known
  used : ∀ y ∈ x.hidden.map (·.pair) ++ known, y ∈ u.uses ∨ y = x.ownPair

namespace Agrees

variable (h : Agrees x cs known u)

include h

theorem pair_mem {i : Import} (hi : i ∈ u.file.imports) : i.pair ∈ known :=
  h.imports.subset (List.mem_cons_of_mem _ (List.mem_map_of_mem hi))

theorem ownPair_mem : x.ownPair ∈ known :=
  h.imports.subset List.mem_cons_self

/-- Where no name is known twice, the names in the file are unambiguous. -/
theorem unambiguous (hnodup : ((x.hidden.map (·.pair) ++ known).map (·.1)).Nodup) :
    Unambiguous u.file u.uses := by
  constructor
  case distinct =>
    have hknown := (List.nodup_append'.mp (List.map_append ▸ hnodup)).2.1
    have hsublist := (h.imports.map (·.1)).nodup hknown
    rw [List.map_cons, List.map_map] at hsublist
    rw [h.name]
    exact hsublist
  case apart =>
    intro y hy i hi hvisible
    have hpair := List.inj_on_of_nodup_map hnodup
      (List.mem_append_right _ (h.pair_mem hi)) (h.uses hy) hvisible
    exact congrArg (·.2) hpair

theorem ownPair_eq (hown : c.namespaceName = u.file.namespaceName ∧
    c.name = u.file.declaration.name) : x.ownPair = (c.name, c.qualifiedName) := by
  rw [Header.ownPair, ClassRef.qualifiedName, ClassRef.qualifiedName, hown.1, hown.2,
    h.namespaceName, h.name]

/-- What is known of a class that is neither the file's own nor imported is that it is of the file's
namespace, by its name. -/
theorem implicit_of_mem {y : String × String} (hcs : ∀ c' ∈ cs, '\\' ∉ c'.name.toList)
    (hclear : '\\' ∉ c.name.toList) (hown : c.qualifiedName ≠ x.own.qualifiedName)
    (hnew : ∀ i ∈ u.file.imports, i.path ≠ c.qualifiedName) (hy : y ∈ known)
    (heq : y.2 = c.qualifiedName) :
    c.namespaceName = x.own.namespaceName ∧ (c.name, c.qualifiedName) ∈ known := by
  rcases h.origin y hy with himported | ⟨c', hc', hnamespace, rfl⟩
  · rcases List.mem_cons.mp himported with rfl | himported
    · exact absurd heq.symm hown
    · obtain ⟨i, hi, rfl⟩ := List.mem_map.mp himported
      exact absurd heq (hnew i hi)
  · obtain rfl := ClassRef.qualifiedName_inj (hcs c' hc') hclear heq
    exact ⟨hnamespace, hy⟩

/-- A class that is known, but is neither the file's own nor imported, is of the file's namespace
and known by its name. -/
theorem implicit (hcs : ∀ c' ∈ cs, '\\' ∉ c'.name.toList) (hclear : '\\' ∉ c.name.toList)
    (hown : c.qualifiedName ≠ x.own.qualifiedName)
    (hnew : ∀ i ∈ u.file.imports, i.path ≠ c.qualifiedName)
    (hseen : c.qualifiedName ∈ x.fixed.map (·.path) ++ known.map (·.2)) :
    c.namespaceName = x.own.namespaceName ∧
      (c.name, c.qualifiedName) ∈ x.hidden.map (·.pair) ++ known := by
  have hknown : ∀ y ∈ known, y.2 = c.qualifiedName → c.namespaceName = x.own.namespaceName ∧
      (c.name, c.qualifiedName) ∈ x.hidden.map (·.pair) ++ known := fun y hy heq =>
    (h.implicit_of_mem hcs hclear hown hnew hy heq).imp_right (List.mem_append_right _)
  rcases List.mem_append.mp hseen with hfixed | hseen
  · obtain ⟨i, hi, heq⟩ := List.mem_map.mp hfixed
    rcases Header.mem_hidden_or_shown hi (heq ▸ hown) with hhidden | hshown
    · obtain ⟨hnamespace, hpair⟩ := pair_of_sees hclear (Header.mem_hidden.mp hhidden).2.1 heq
      refine ⟨hnamespace, List.mem_append_left _ ?_⟩
      rw [← hpair]
      exact List.mem_map_of_mem hhidden
    · exact hknown i.pair (h.start (List.mem_cons_of_mem _ (List.mem_map_of_mem hshown))) heq
  · obtain ⟨y, hy, heq⟩ := List.mem_map.mp hseen
    exact hknown y hy heq

/-- A class that is known leaves the imports as they are, and is referred to by the name that it is
known by. -/
theorem seen (hnodup : ((x.hidden.map (·.pair) ++ known).map (·.1)).Nodup)
    (hcs : ∀ c' ∈ cs, '\\' ∉ c'.name.toList) (hclear : '\\' ∉ c.name.toList)
    (hsound : '\\' ∉ x.own.name.toList)
    (hseen : c.qualifiedName ∈ x.fixed.map (·.path) ++ known.map (·.2)) (suffix : String) :
    ∃ n, importClass u.file c suffix = (n, u.file) ∧
      (n, c.qualifiedName) ∈ x.hidden.map (·.pair) ++ known := by
  by_cases hown : c.namespaceName = u.file.namespaceName ∧ c.name = u.file.declaration.name
  · have hmem := h.ownPair_eq hown ▸ h.ownPair_mem
    exact ⟨c.name, importClass_own hown, List.mem_append_right _ hmem⟩
  · cases hfind : u.file.imports.find? (fun i => i.path == c.qualifiedName) with
    | some i =>
      obtain ⟨heq, hpair⟩ := importClass_found suffix hown hclear hfind
      refine ⟨i.visible, heq, List.mem_append_right _ ?_⟩
      rw [← hpair]
      exact h.pair_mem (List.mem_of_find?_eq_some hfind)
    | none =>
      have hnew : ∀ i ∈ u.file.imports, i.path ≠ c.qualifiedName := fun i hi heq =>
        List.find?_eq_none.mp hfind i hi (beq_iff_eq.mpr heq)
      have hne : c.qualifiedName ≠ x.own.qualifiedName := by
        intro heq
        obtain rfl := ClassRef.qualifiedName_inj hclear hsound heq
        exact hown ⟨h.namespaceName.symm, h.name.symm⟩
      obtain ⟨hnamespace, hmem⟩ := h.implicit hcs hclear hne hnew hseen
      -- a name that is taken would be known for two classes
      have hfree : ¬ isTaken u.file c.name = true := by
        rw [isTaken_iff, h.name, List.mem_cons, List.mem_map]
        rintro (heq | ⟨i, hi, heq⟩)
        · exact hown ⟨hnamespace.trans h.namespaceName.symm, heq.trans h.name.symm⟩
        · have hpair := List.inj_on_of_nodup_map hnodup
            (List.mem_append_right _ (h.pair_mem hi)) hmem heq
          exact hnew i hi (congrArg (·.2) hpair)
      refine ⟨c.name, ?_, hmem⟩
      rw [importClass_new hown hnew, if_neg hfree,
        addImport_seen hclear (hnamespace.trans h.namespaceName.symm)]

/-- For a class that is not known, the names that are taken are those that are known. -/
theorem isTaken_iff_known (hnamed : ∀ c' ∈ cs, c'.name = c.name → c' = c)
    (hnew : ∀ y ∈ known, y.2 ≠ c.qualifiedName) :
    isTaken u.file c.name = true ↔ c.name ∈ known.map (·.1) := by
  rw [isTaken_iff, h.name]
  constructor
  · intro hmem
    have hsubset := (h.imports.map (·.1)).subset
    rw [List.map_cons, List.map_map] at hsubset
    exact hsubset hmem
  · intro hmem
    obtain ⟨y, hy, heq⟩ := List.mem_map.mp hmem
    rcases h.origin y hy with himported | ⟨c', hc', -, rfl⟩
    · have hmap := List.mem_map_of_mem (f := (·.1)) himported
      rw [List.map_cons, List.map_map, heq] at hmap
      exact hmap
    · exact absurd (congrArg ClassRef.qualifiedName (hnamed c' hc' heq)) (hnew _ hy)

/-- A class that is not known comes to be known by the name that it is referred to by: for an
import, or because it is of the file's namespace, by its own name. -/
theorem unseen (hnamed : ∀ c' ∈ cs, c'.name = c.name → c' = c) (hclear : '\\' ∉ c.name.toList)
    (hnew : c.qualifiedName ∉ x.fixed.map (·.path) ++ known.map (·.2)) :
    x.know known c = known ++ [((importClass u.file c x.suffix).1, c.qualifiedName)] ∧
      ((c.namespaceName = x.own.namespaceName ∧ c.name ∉ known.map (·.1) ∧
          importClass u.file c x.suffix = (c.name, u.file)) ∨
        ∃ i : Import, i.pair = ((importClass u.file c x.suffix).1, c.qualifiedName) ∧
          (importClass u.file c x.suffix).2.imports = u.file.imports ++ [i]) := by
  have hknow : x.know known c = known ++ [(if c.name ∈ known.map (·.1) then c.name ++ x.suffix
    else c.name, c.qualifiedName)] := if_neg hnew
  rw [List.mem_append, not_or] at hnew
  have hunknown : ∀ y ∈ known, y.2 ≠ c.qualifiedName := fun y hy heq =>
    hnew.2 (heq ▸ List.mem_map_of_mem hy)
  have himports : ∀ i ∈ u.file.imports, i.path ≠ c.qualifiedName := fun i hi =>
    hunknown i.pair (h.pair_mem hi)
  have hown : ¬ (c.namespaceName = u.file.namespaceName ∧ c.name = u.file.declaration.name) :=
    fun hown => hunknown _ h.ownPair_mem (congrArg (·.2) (h.ownPair_eq hown))
  rw [hknow, importClass_new hown himports,
    ← if_congr (h.isTaken_iff_known hnamed hunknown) rfl rfl]
  split
  · refine ⟨rfl, Or.inr ⟨_, rfl, imports_addImport ?_ himports⟩⟩
    rw [File.sees, Option.isNone_some, Bool.and_false]
  · rename_i hfree
    refine ⟨rfl, ?_⟩
    by_cases hnamespace : c.namespaceName = u.file.namespaceName
    · rw [h.isTaken_iff_known hnamed hunknown] at hfree
      refine Or.inl ⟨hnamespace.trans h.namespaceName, hfree, ?_⟩
      rw [addImport_seen hclear hnamespace]
    · refine Or.inr ⟨⟨c.qualifiedName, none⟩, ?_,
        imports_addImport (not_sees_of_ne hclear hnamespace) himports⟩
      rw [Php.Import.pair, Php.Import.visible, Option.getD_none, ClassRef.qualifiedName,
        Php.Import.shortName_path hclear]

theorem origin_append (c : ClassRef) : ∀ y ∈ known,
    y ∈ x.ownPair :: u.file.imports.map (·.pair) ∨ ∃ c' ∈ cs ++ [c],
      c'.namespaceName = x.own.namespaceName ∧ y = (c'.name, c'.qualifiedName) :=
  fun y hy => (h.origin y hy).imp_right fun ⟨c', hc', hy⟩ => ⟨c', List.mem_append_left _ hc', hy⟩

/-- One class more that is known. -/
theorem add_seen (hnodup : ((x.hidden.map (·.pair) ++ known).map (·.1)).Nodup)
    (hcs : ∀ c' ∈ cs, '\\' ∉ c'.name.toList) (hclear : '\\' ∉ c.name.toList)
    (hsound : '\\' ∉ x.own.name.toList)
    (hseen : c.qualifiedName ∈ x.fixed.map (·.path) ++ known.map (·.2)) :
    Agrees x (cs ++ [c]) known (u.add x.suffix c) := by
  obtain ⟨n, hn, hmem⟩ := h.seen hnodup hcs hclear hsound hseen x.suffix
  rw [Usage.add, hn]
  constructor
  case namespaceName => exact h.namespaceName
  case name => exact h.name
  case start => exact h.start
  case imports => exact h.imports
  case origin => exact h.origin_append c
  case uses => exact List.append_subset.mpr ⟨h.uses, List.cons_subset.mpr ⟨hmem, List.nil_subset _⟩⟩
  case used => exact fun y hy => (h.used y hy).imp_left (List.mem_append_left _)

/-- One class more that is not known. -/
theorem add_unseen (himport : (c.namespaceName = x.own.namespaceName ∧
      c.name ∉ known.map (·.1) ∧ importClass u.file c x.suffix = (c.name, u.file)) ∨
    ∃ i : Import, i.pair = ((importClass u.file c x.suffix).1, c.qualifiedName) ∧
      (importClass u.file c x.suffix).2.imports = u.file.imports ++ [i]) :
    Agrees x (cs ++ [c]) (known ++ [((importClass u.file c x.suffix).1, c.qualifiedName)])
      (u.add x.suffix c) := by
  rw [Usage.add]
  constructor
  case namespaceName => exact (namespaceName_importClass _ _ _).trans h.namespaceName
  case name => rw [declaration_importClass, h.name]
  case start => exact List.Subset.trans h.start (List.subset_append_left _ _)
  case imports =>
    rcases himport with ⟨-, -, himport⟩ | ⟨i, hi, himports⟩
    · rw [himport]
      exact h.imports.trans (List.sublist_append_left _ _)
    · rw [himports, List.map_append, List.map_singleton, hi]
      exact h.imports.append (List.Sublist.refl _)
  case origin =>
    refine List.forall_mem_append.mpr ⟨fun y hy => ?_, List.forall_mem_singleton.mpr ?_⟩
    · refine (h.origin_append c y hy).imp_left fun hmem => ?_
      have hkept := (sublist_imports_importClass u.file c x.suffix).map (·.pair)
      exact (hkept.cons_cons x.ownPair).subset hmem
    · rcases himport with ⟨hnamespace, -, himport⟩ | ⟨i, hi, himports⟩
      · rw [himport]
        exact Or.inr ⟨c, List.mem_append_right _ List.mem_cons_self, hnamespace, rfl⟩
      · rw [himports, List.map_append, List.map_singleton, hi]
        exact Or.inl (List.mem_cons_of_mem _ (List.mem_append_right _ List.mem_cons_self))
  case uses =>
    rw [← List.append_assoc]
    exact List.append_subset.mpr ⟨List.Subset.trans h.uses (List.subset_append_left _ _),
      List.subset_append_right _ _⟩
  case used =>
    intro y hy
    rw [← List.append_assoc, List.mem_append] at hy
    rcases hy with hy | hy
    · exact (h.used y hy).imp_left (List.mem_append_left _)
    · exact Or.inl (List.mem_append_right _ hy)

/-- One class more. -/
theorem add (hnodup : ((x.hidden.map (·.pair) ++ x.know known c).map (·.1)).Nodup)
    (hcs : ∀ c' ∈ cs, '\\' ∉ c'.name.toList) (hnamed : ∀ c' ∈ cs, c'.name = c.name → c' = c)
    (hclear : '\\' ∉ c.name.toList) (hsound : '\\' ∉ x.own.name.toList) :
    Agrees x (cs ++ [c]) (x.know known c) (u.add x.suffix c) := by
  by_cases hseen : c.qualifiedName ∈ x.fixed.map (·.path) ++ known.map (·.2)
  · have hknow : x.know known c = known := if_pos hseen
    rw [hknow] at hnodup ⊢
    exact h.add_seen hnodup hcs hclear hsound hseen
  · obtain ⟨hknow, himport⟩ := h.unseen hnamed hclear hseen
    rw [hknow]
    exact h.add_unseen himport

/-- A name by which a class is imported is known for no other class, where the names are
unambiguous. -/
theorem not_known_of_import {y : String × String} {i : Import}
    (hgood : Unambiguous (u.add x.suffix c).file (u.add x.suffix c).uses)
    (hi : i ∈ (u.add x.suffix c).file.imports)
    (hy : y ∈ x.hidden.map (·.pair) ++ known) (hother : y.2 ≠ i.path) : i.visible ≠ y.1 := by
  intro hvisible
  rcases h.used y hy with hused | rfl
  · exact hother (hgood.apart y (List.mem_append_left _ hused) i hi hvisible).symm
  · refine (List.nodup_cons.mp hgood.distinct).1 (List.mem_map.mpr ⟨i, hi, ?_⟩)
    rw [Usage.add, declaration_importClass, h.name]
    exact hvisible

/-- A class that comes to be known by a name that is known makes the names ambiguous. -/
theorem nodup_add (hnodup : ((x.hidden.map (·.pair) ++ known).map (·.1)).Nodup)
    (hnamed : ∀ c' ∈ cs, c'.name = c.name → c' = c) (hclear : '\\' ∉ c.name.toList)
    (hgood : Unambiguous (u.add x.suffix c).file (u.add x.suffix c).uses) :
    ((x.hidden.map (·.pair) ++ x.know known c).map (·.1)).Nodup := by
  by_cases hseen : c.qualifiedName ∈ x.fixed.map (·.path) ++ known.map (·.2)
  · have hknow : x.know known c = known := if_pos hseen
    rwa [hknow]
  · obtain ⟨hknow, himport⟩ := h.unseen hnamed hclear hseen
    rw [hknow, ← List.append_assoc, List.map_append, List.map_singleton, ← List.concat_eq_append]
    refine hnodup.concat fun hmem => ?_
    obtain ⟨y, hy, hname⟩ := List.mem_map.mp hmem
    have hother : y.2 ≠ c.qualifiedName := by
      intro heq
      rw [← heq] at hseen
      rcases List.mem_append.mp hy with hy | hy
      · obtain ⟨i, hi, rfl⟩ := List.mem_map.mp hy
        exact hseen (List.mem_append_left _ (List.mem_map_of_mem (Header.mem_hidden.mp hi).1))
      · exact hseen (List.mem_append_right _ (List.mem_map_of_mem hy))
    rcases himport with ⟨hnamespace, hfree, himport⟩ | ⟨i, hi, himports⟩
    · -- of the classes of the namespace only hidden ones have a name that is not seen to be taken
      rw [himport] at hname
      rcases List.mem_append.mp hy with hy | hy
      · obtain ⟨i, hi, rfl⟩ := List.mem_map.mp hy
        refine hother ((Php.Import.path_of_sees (Header.mem_hidden.mp hi).2.1).symm.trans ?_)
        rw [ClassRef.qualifiedName, hnamespace]
        exact congrArg _ hname
      · exact hfree (List.mem_map.mpr ⟨y, hy, hname⟩)
    · obtain ⟨hvisible, hpath⟩ := Prod.mk.inj hi
      have hmem : i ∈ (u.add x.suffix c).file.imports := by
        rw [Usage.add, himports]
        exact List.mem_append_right _ List.mem_cons_self
      exact h.not_known_of_import hgood hmem hy (hpath ▸ hother) (hvisible.trans hname.symm)

end Agrees

/-- Where the names are unambiguous, they were so before the last class. -/
theorem Unambiguous.of_add (h : Unambiguous (u.add suffix c).file (u.add suffix c).uses) :
    Unambiguous u.file u.uses := by
  have hkept := sublist_imports_importClass u.file c suffix
  have hdistinct := h.distinct
  rw [Usage.add, declaration_importClass] at hdistinct
  constructor
  case distinct => exact ((hkept.map (·.visible)).cons_cons _).nodup hdistinct
  case apart =>
    exact fun y hy i hi => h.apart y (List.mem_append_left _ hy) i (hkept.subset hi)

end Client
end SdkSmith
