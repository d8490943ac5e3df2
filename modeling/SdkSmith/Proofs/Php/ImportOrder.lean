import Mathlib.Data.Prod.Lex
import Mathlib.Data.String.Basic
import Mathlib.Order.WithBot
import SdkSmith.Php.Render
import SdkSmith.Proofs.Client.Imports.HeaderNames

/-!
The order of imports. A file keeps each import once, and none that its namespace stands for. Its
text has the imports sorted, so it is the same in whatever order they were added.
-/
namespace SdkSmith.Php

namespace Import
variable {i j k : Import}

/-- What imports are sorted by; an import under no other name is the least of its path. -/
def key (i : Import) : String ×ₗ WithBot String :=
  toLex (i.path, i.rename)

theorem key_injective : Function.Injective key := by
  intro i j h
  obtain ⟨hpath, hrename⟩ := Prod.mk.inj (toLex.injective h)
  cases i
  cases j
  exact congrArg₂ Import.mk hpath hrename

theorem le_iff : i.le j ↔ i.key ≤ j.key := by
  obtain ⟨path, rename⟩ := i
  obtain ⟨path', rename'⟩ := j
  simp only [key, Prod.Lex.toLex_le_toLex, le]
  by_cases hpath : path = path'
  · subst hpath
    rw [if_pos rfl, or_iff_right (lt_irrefl path), and_iff_right rfl]
    cases rename with
    | none => exact iff_of_true rfl bot_le
    | some a =>
      cases rename' with
      | none => exact iff_of_false Bool.false_ne_true (WithBot.not_coe_le_bot a)
      | some b =>
        have hnames : (!decide (b < a)) = true ↔ a ≤ b := by
          rw [Bool.not_eq_true', decide_eq_false_iff_not, not_lt]
        exact hnames.trans WithBot.coe_le_coe.symm
  · rw [if_neg hpath, decide_eq_true_eq, or_iff_left (fun h => hpath h.1)]

theorem le_trans (h : i.le j) (h' : j.le k) : i.le k := by
  rw [le_iff] at *
  exact h.trans h'

theorem le_total (i j : Import) : i.le j || j.le i := by
  rw [Bool.or_eq_true, le_iff, le_iff]
  exact LinearOrder.le_total i.key j.key

theorem le_antisymm (h : i.le j) (h' : j.le i) : i = j := by
  rw [le_iff] at *
  exact key_injective (h.antisymm h')

/-- There is only one order in which imports are sorted. -/
theorem mergeSort_perm_eq {is js : List Import} (h : is.Perm js) :
    is.mergeSort le = js.mergeSort le := by
  have hsorted : ∀ ks : List Import, (ks.mergeSort le).Pairwise fun i j => i.le j := by
    intro ks
    exact @List.pairwise_mergeSort Import le (fun _ _ _ => le_trans) le_total ks
  apply List.Perm.eq_of_pairwise _ (hsorted is) (hsorted js)
  · exact (List.mergeSort_perm is le).trans (h.trans (List.mergeSort_perm js le).symm)
  · intro i j _ _ hij hji
    exact le_antisymm hij hji

end Import

namespace File
variable {f g : File} {i j : Import} {is js : List Import}

/-! What imports there are -/

/-- One import more is there, unless the namespace stands for it. -/
theorem mem_addImport : j ∈ (f.addImport i).imports ↔
    j ∈ f.imports ∨ j = i ∧ sees f.namespaceName i = false := by
  rw [addImport]
  split
  · rename_i hskip
    rw [Bool.or_eq_true, List.contains_iff_mem] at hskip
    constructor
    · exact Or.inl
    · rintro (hj | ⟨rfl, hneeded⟩)
      · exact hj
      · rcases hskip with hsees | hmem
        · rw [hneeded] at hsees
          cases hsees
        · exact hmem
  · rename_i hskip
    rw [Bool.or_eq_true, not_or, Bool.not_eq_true] at hskip
    rw [List.mem_append, List.mem_singleton, and_iff_left hskip.1]

theorem nodup_addImport (h : f.imports.Nodup) (i : Import) : (f.addImport i).imports.Nodup := by
  rw [addImport]
  split
  · exact h
  · rename_i hskip
    rw [Bool.or_eq_true, not_or, List.contains_iff_mem] at hskip
    apply h.append (List.nodup_singleton i)
    rw [List.disjoint_singleton]
    exact hskip.2

theorem mem_foldl_addImport : j ∈ (is.foldl addImport f).imports ↔
    j ∈ f.imports ∨ j ∈ is ∧ sees f.namespaceName j = false := by
  induction is generalizing f with
  | nil => simp
  | cons i is ih =>
    rw [List.foldl_cons, ih, mem_addImport, namespaceName_addImport, List.mem_cons]
    constructor
    · rintro ((hj | ⟨rfl, hneeded⟩) | ⟨hj, hneeded⟩)
      · exact Or.inl hj
      · exact Or.inr ⟨Or.inl rfl, hneeded⟩
      · exact Or.inr ⟨Or.inr hj, hneeded⟩
    · rintro (hj | ⟨rfl | hj, hneeded⟩)
      · exact Or.inl (Or.inl hj)
      · exact Or.inl (Or.inr ⟨rfl, hneeded⟩)
      · exact Or.inr ⟨hj, hneeded⟩

theorem nodup_foldl_addImport (h : f.imports.Nodup) (is : List Import) :
    (is.foldl addImport f).imports.Nodup := by
  induction is generalizing f with
  | nil => exact h
  | cons i is ih => exact ih (nodup_addImport h i)

/-- The order in which imports are added makes no difference to what imports there are. -/
theorem perm_foldl_addImport (hf : f.imports.Nodup) (h : is.Perm js) :
    (is.foldl addImport f).imports.Perm (js.foldl addImport f).imports := by
  rw [List.perm_ext_iff_of_nodup (nodup_foldl_addImport hf is) (nodup_foldl_addImport hf js)]
  intro i
  rw [mem_foldl_addImport, mem_foldl_addImport, h.mem_iff]

/-! The text -/

theorem render_congr (hnamespace : f.namespaceName = g.namespaceName)
    (himports : f.imports.Perm g.imports) (hdeclaration : f.declaration = g.declaration) :
    f.render = g.render := by
  simp only [render, hnamespace, himports.isEmpty_eq, Import.mergeSort_perm_eq himports,
    hdeclaration]

/-- A file has the same text in whatever order its imports are added, has no import twice, and has
none of a class of its own namespace under the name of the class. -/
theorem render_addImports_perm (namespaceName : String) (c : Class) (h : is.Perm js) :
    (is.foldl addImport (plain namespaceName c)).render =
        (js.foldl addImport (plain namespaceName c)).render ∧
      (is.foldl addImport (plain namespaceName c)).imports.Nodup ∧
      ∀ name, '\\' ∉ name.toList →
        ⟨namespaceName ++ "\\" ++ name, none⟩ ∉
          (is.foldl addImport (plain namespaceName c)).imports := by
  have hplain : (plain namespaceName c).imports.Nodup := List.nodup_nil
  refine ⟨?_, nodup_foldl_addImport hplain is, ?_⟩
  · apply render_congr
    · rw [Client.namespaceName_foldl_addImport, Client.namespaceName_foldl_addImport]
    · exact perm_foldl_addImport hplain h
    · rw [declaration_foldl_addImport, declaration_foldl_addImport]
  · intro name hname hmem
    rcases mem_foldl_addImport.mp hmem with hmem | ⟨-, hneeded⟩
    · cases hmem
    · have hseen : sees namespaceName ⟨namespaceName ++ "\\" ++ name, none⟩ = true := by
        rw [sees, Import.namespace?_path hname, beq_self_eq_true]
        rfl
      rw [plain, hseen] at hneeded
      cases hneeded

/-- Imports with one class under three names, another one twice, and one of the file's own
namespace. -/
def manyImports : List Import :=
  [⟨"Zoo\\Cat", some "Tom"⟩, ⟨"App\\Own", none⟩, ⟨"Zoo\\Cat", none⟩, ⟨"App\\Sub\\Dog", none⟩,
    ⟨"Zoo\\Cat", some "Kit"⟩, ⟨"App\\Sub\\Dog", none⟩, ⟨"App\\Own", some "Other"⟩]

theorem render_manyImports_perm : manyImports.Perm manyImports.reverse ∧
    (manyImports.foldl addImport (plain "App" (.empty .plain "Thing"))).imports ≠
        (manyImports.reverse.foldl addImport (plain "App" (.empty .plain "Thing"))).imports ∧
      (manyImports.foldl addImport (plain "App" (.empty .plain "Thing"))).render =
        (manyImports.reverse.foldl addImport (plain "App" (.empty .plain "Thing"))).render := by
  have hperm : manyImports.Perm manyImports.reverse := manyImports.reverse_perm.symm
  exact ⟨hperm, by decide, (render_addImports_perm "App" (.empty .plain "Thing") hperm).1⟩

end File
end SdkSmith.Php
