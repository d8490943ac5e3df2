import SdkSmith.Proofs.Client.Request.Sending
import SdkSmith.Proofs.Php.NamedClasses

/-!
The classes that a file refers to, each by the name that its import got. A file is built by imports
and by members that use the names of these; what it refers to is told by a header, from which the
imports follow alone.
-/
namespace SdkSmith

namespace Php

namespace Import
variable {path namespaceName : String}

/-- A path is its namespace and its last part. -/
theorem path_of_namespace? (h : Import.namespace? path = some namespaceName) :
    namespaceName ++ "\\" ++ shortName path = path := by
  have hsplit := List.takeWhile_append_dropWhile (p := (· != '\\')) (l := path.toList.reverse)
  have hhead := List.head?_dropWhile_not (· != '\\') path.toList.reverse
  rw [Import.namespace?] at h
  split at h
  · cases h
  · rename_i c r hrest
    obtain rfl := Option.some.inj h
    rw [hrest] at hsplit hhead
    obtain rfl : c = '\\' := by simpa using hhead
    rw [shortName, ← String.toList_inj]
    apply List.reverse_injective
    simp only [String.toList_append, String.toList_ofList, List.reverse_append,
      List.reverse_reverse]
    exact hsplit

/-- An import that is not needed has the namespace, and is seen by the last part of its path. -/
theorem namespace?_of_sees {i : Import} (h : File.sees namespaceName i = true) :
    Import.namespace? i.path = some namespaceName ∧ i.visible = shortName i.path := by
  rw [File.sees, Bool.and_eq_true, beq_iff_eq, Option.isNone_iff_eq_none] at h
  refine ⟨h.1, ?_⟩
  rw [visible, h.2, Option.getD_none]

theorem path_of_sees {i : Import} (h : File.sees namespaceName i = true) :
    namespaceName ++ "\\" ++ i.visible = i.path := by
  obtain ⟨hnamespace, hvisible⟩ := namespace?_of_sees h
  rw [hvisible]
  exact path_of_namespace? hnamespace

end Import

namespace File
variable {f : File} {i : Import}

theorem addImport_declare (f : File) (c : Class) (i : Import) :
    ({ f with declaration := c }).addImport i = { f.addImport i with declaration := c } := by
  unfold addImport
  simp only
  split <;> rfl

theorem foldl_addImport_declare (is : List Import) (f : File) (c : Class) :
    is.foldl addImport { f with declaration := c } =
      { is.foldl addImport f with declaration := c } := by
  induction is generalizing f with
  | nil => rfl
  | cons i is ih => rw [List.foldl_cons, addImport_declare, ih, List.foldl_cons]

theorem declaration_foldl_addImport (is : List Import) (f : File) :
    (is.foldl addImport f).declaration = f.declaration := by
  induction is generalizing f with
  | nil => rfl
  | cons i is ih => rw [List.foldl_cons, ih, declaration_addImport]

theorem introduces_visible (f : File) (i : Import) :
    (f.addImport i).Introduces i.visible i.path := by
  by_cases hsees : sees f.namespaceName i = true
  · -- the import is left out, and the namespace stands for it
    right
    rw [namespaceName_addImport, Import.path_of_sees hsees]
  · exact Or.inl ⟨i, mem_imports_addImport (Bool.eq_false_iff.mpr hsees), rfl, rfl⟩

theorem mem_of_mem_addImport {j : Import} (h : j ∈ (f.addImport i).imports) :
    j ∈ f.imports ∨ j = i := by
  unfold addImport at h
  split at h
  · exact Or.inl h
  · exact (List.mem_append.mp h).imp_right List.mem_singleton.mp

end File
end Php

namespace Client
open Php (File Import Method)

/-- The classes that a file refers to so far, each by a name, and the file with its imports. -/
structure Usage where
  /-- The names, each with the path of the class that is meant by it. -/
  uses : List (String × String)
  file : File

namespace Usage

/-- A file that refers to nothing. -/
def empty (own : ClassRef) : Usage :=
  ⟨[], File.plain own.namespaceName (Php.Class.empty .plain own.name)⟩

/-- Refers to a class by the name of an import. -/
def fix (u : Usage) (i : Import) : Usage :=
  ⟨u.uses ++ [(i.visible, i.path)], u.file.addImport i⟩

/-- Refers to a class of the client, by its name or the one with the suffix. -/
def add (suffix : String) (u : Usage) (c : ClassRef) : Usage :=
  ⟨u.uses ++ [((importClass u.file c suffix).1, c.qualifiedName)],
    (importClass u.file c suffix).2⟩

/-- The names by which classes are referred to. -/
def names (u : Usage) : List String := u.uses.map (·.1)

end Usage

/-- What the imports of a file follow from: its class, the imports of classes at fixed names, and
then the classes of the client that it refers to, with the suffix for those whose name is taken. -/
structure Header where
  own : ClassRef
  fixed : List Import
  classes : List ClassRef
  suffix : String

/-- The names by which a file of this header refers to classes. -/
def Header.usage (x : Header) : Usage :=
  x.classes.foldl (Usage.add x.suffix) (x.fixed.foldl Usage.fix (.empty x.own))

variable {u : Usage} {f : File} {x : Header} {suffix : String} {c : ClassRef}

/-! Building files -/

/-- Whether a file has the imports of these uses, and names no other classes. -/
structure Traces (u : Usage) (f : File) : Prop where
  namespaceName : f.namespaceName = u.file.namespaceName
  name : f.declaration.name = u.file.declaration.name
  imports : f.imports = u.file.imports
  refers : f.declaration.classNames ⊆ u.names

theorem names_fix (u : Usage) (i : Import) : (u.fix i).names = u.names ++ [i.visible] :=
  List.map_append

theorem names_add (u : Usage) (suffix : String) (c : ClassRef) :
    (u.add suffix c).names = u.names ++ [(importClass u.file c suffix).1] :=
  List.map_append

theorem names_subset_fix (u : Usage) (i : Import) : u.names ⊆ (u.fix i).names := by
  rw [names_fix]
  exact List.subset_append_left _ _

theorem names_subset_add (u : Usage) (suffix : String) (c : ClassRef) :
    u.names ⊆ (u.add suffix c).names := by
  rw [names_add]
  exact List.subset_append_left _ _

theorem foldl_fix_file (is : List Import) (u : Usage) :
    (is.foldl Usage.fix u).file = is.foldl File.addImport u.file ∧
      (is.foldl Usage.fix u).uses = u.uses ++ is.map fun i => (i.visible, i.path) := by
  induction is generalizing u with
  | nil => exact ⟨rfl, (List.append_nil _).symm⟩
  | cons i is ih =>
    obtain ⟨hfile, huses⟩ := ih (u.fix i)
    refine ⟨hfile, huses.trans ?_⟩
    rw [Usage.fix, List.map_cons, List.append_assoc]
    rfl

theorem names_subset_foldl_add (cs : List ClassRef) (suffix : String) (u : Usage) :
    u.names ⊆ (cs.foldl (Usage.add suffix) u).names := by
  induction cs generalizing u with
  | nil => exact List.Subset.refl _
  | cons c cs ih => exact List.Subset.trans (names_subset_add u suffix c) (ih _)

theorem names_foldl_fix (is : List Import) (u : Usage) :
    (is.foldl Usage.fix u).names = u.names ++ is.map (·.visible) := by
  rw [Usage.names, (foldl_fix_file is u).2, List.map_append, List.map_map]
  rfl

/-- What an import does depends on the namespace, the class name and the other imports. -/
theorem importClass_congr {g : File} (hnamespace : f.namespaceName = g.namespaceName)
    (hname : f.declaration.name = g.declaration.name) (himports : f.imports = g.imports)
    (c : ClassRef) (suffix : String) :
    (importClass f c suffix).1 = (importClass g c suffix).1 ∧
      (importClass f c suffix).2 = { (importClass g c suffix).2 with
        declaration := f.declaration } := by
  have hf : f = { g with declaration := f.declaration } := by
    cases f
    cases g
    simp_all
  generalize f.declaration = declaration at hf hname
  subst hf
  unfold importClass isTaken
  simp only [hname]
  split
  · exact ⟨rfl, rfl⟩
  · split
    · exact ⟨rfl, rfl⟩
    · split <;> exact ⟨rfl, Php.File.addImport_declare _ _ _⟩

/-- The import of a class to extend, under another name where the file's own class has its. -/
def baseImport (own path other : String) : Import :=
  ⟨path, if own = Import.shortName path then some other else none⟩

theorem importBase_eq (f : File) (path other : String) : importBase f path other =
    ((baseImport f.declaration.name path other).visible,
      f.addImport (baseImport f.declaration.name path other)) := by
  simp only [importBase, baseImport]
  split <;> rfl

namespace Traces

theorem empty (own : ClassRef) :
    Traces (.empty own) (File.plain own.namespaceName (Php.Class.empty .plain own.name)) :=
  ⟨rfl, rfl, rfl, List.nil_subset _⟩

theorem fix (h : Traces u f) (i : Import) : Traces (u.fix i) (f.addImport i) := by
  have hnames := names_subset_fix u i
  constructor
  case namespaceName =>
    rw [Usage.fix, Php.File.namespaceName_addImport, Php.File.namespaceName_addImport,
      h.namespaceName]
  case name =>
    rw [Usage.fix, Php.File.declaration_addImport, Php.File.declaration_addImport, h.name]
  case imports =>
    unfold Usage.fix Php.File.addImport
    rw [h.namespaceName, h.imports]
    split
    · exact h.imports
    · rfl
  case refers =>
    rw [Php.File.declaration_addImport]
    exact List.Subset.trans h.refers hnames

theorem importClass_fst (h : Traces u f) (c : ClassRef) (suffix : String) :
    (importClass f c suffix).1 = (importClass u.file c suffix).1 :=
  (importClass_congr h.namespaceName h.name h.imports c suffix).1

/-- The name that an import gives is one of those in use. -/
theorem mem_names (h : Traces u f) (suffix : String) (c : ClassRef) :
    (importClass f c suffix).1 ∈ (u.add suffix c).names := by
  rw [h.importClass_fst, names_add]
  exact List.mem_append_right _ List.mem_cons_self

theorem add (h : Traces u f) (suffix : String) (c : ClassRef) :
    Traces (u.add suffix c) (importClass f c suffix).2 := by
  have hfile := (importClass_congr h.namespaceName h.name h.imports c suffix).2
  have hnames := names_subset_add u suffix c
  constructor
  case namespaceName =>
    rw [hfile]
    rfl
  case name =>
    rw [declaration_importClass, Usage.add, declaration_importClass, h.name]
  case imports =>
    rw [hfile]
    rfl
  case refers =>
    rw [declaration_importClass]
    exact List.Subset.trans h.refers hnames

/-- A class may change in all but its name. -/
theorem declare {k : Php.Class} (h : Traces u f) (hname : k.name = f.declaration.name)
    (hrefers : k.classNames ⊆ u.names) : Traces u { f with declaration := k } :=
  ⟨h.namespaceName, hname.trans h.name, h.imports, hrefers⟩

theorem addMethod {m : Method} (h : Traces u f) (hrefers : m.classNames ⊆ u.names) :
    Traces u (f.addMethod m) := by
  refine h.declare rfl ?_
  have hkept := h.refers
  simp only [Php.Class.classNames, List.append_subset, List.flatMap_append, List.flatMap_singleton]
    at hkept ⊢
  exact ⟨hkept.1, hkept.2, hrefers⟩

/-- A class may extend one that is imported for it. -/
theorem extend (h : Traces u f) (path other : String) :
    Traces (u.fix (baseImport f.declaration.name path other))
      { (importBase f path other).2 with
        declaration := { (importBase f path other).2.declaration with
          parent := some (importBase f path other).1 } } := by
  rw [importBase_eq]
  generalize baseImport f.declaration.name path other = i
  refine (h.fix i).declare rfl ?_
  have hkept := (h.fix i).refers
  have hbase : i.visible ∈ (u.fix i).names := by
    rw [names_fix]
    exact List.mem_append_right _ List.mem_cons_self
  simp only [Php.Class.classNames, List.append_subset] at hkept ⊢
  refine ⟨⟨⟨⟨?_, hkept.1.1.1.2⟩, hkept.1.1.2⟩, hkept.1.2⟩, hkept.2⟩
  exact List.cons_subset.mpr ⟨hbase, List.nil_subset _⟩

theorem extend_empty (own : ClassRef) (path other : String) :
    Traces ((Usage.empty own).fix (baseImport own.name path other))
      { (importBase (File.plain own.namespaceName (Php.Class.empty .plain own.name)) path
          other).2 with
        declaration :=
          { (importBase (File.plain own.namespaceName (Php.Class.empty .plain own.name)) path
              other).2.declaration with
            parent := some (importBase
              (File.plain own.namespaceName (Php.Class.empty .plain own.name)) path other).1 } } :=
  (empty own).extend path other

/-- Imports that are added one after another are uses of these classes. -/
theorem foldl_fix (h : Traces u f) (is : List Import) :
    Traces (is.foldl Usage.fix u) (is.foldl File.addImport f) := by
  induction is generalizing u f with
  | nil => exact h
  | cons i is ih => exact ih (h.fix i)

/-- A class that names none but those that are imported. -/
theorem start {k : Php.Class} (is : List Import) (own : ClassRef)
    (hfile : f = is.foldl File.addImport (File.plain own.namespaceName k))
    (hname : k.name = own.name) (h : k.classNames ⊆ is.map (·.visible)) :
    Traces (is.foldl Usage.fix (.empty own)) f := by
  have hnames : (is.foldl Usage.fix (.empty own)).names = is.map (·.visible) :=
    names_foldl_fix is (.empty own)
  have hplain : File.plain own.namespaceName k =
      { (Usage.empty own).file with declaration := k } := rfl
  rw [hfile, hplain, Php.File.foldl_addImport_declare]
  refine ((empty own).foldl_fix is).declare ?_ (hnames ▸ h)
  rw [Php.File.declaration_foldl_addImport]
  exact hname

end Traces

/-! Headers -/

theorem paths_foldl_add (cs : List ClassRef) (suffix : String) (u : Usage) :
    (cs.foldl (Usage.add suffix) u).uses.map (·.2) =
      u.uses.map (·.2) ++ cs.map ClassRef.qualifiedName := by
  induction cs generalizing u with
  | nil => exact (List.append_nil _).symm
  | cons c cs ih =>
    rw [List.foldl_cons, ih, Usage.add, List.map_append, List.append_assoc]
    rfl

/-- A file of a header refers to the classes of the header. -/
theorem Header.paths_usage (x : Header) : x.usage.uses.map (·.2) =
    x.fixed.map (·.path) ++ x.classes.map ClassRef.qualifiedName := by
  rw [usage, paths_foldl_add, (foldl_fix_file x.fixed _).2, Usage.empty, List.nil_append,
    List.map_map]
  rfl

theorem qualifiedName_foldl_add (cs : List ClassRef) (suffix : String) (u : Usage) :
    (cs.foldl (Usage.add suffix) u).file.qualifiedName = u.file.qualifiedName := by
  induction cs generalizing u with
  | nil => rfl
  | cons c cs ih => rw [List.foldl_cons, ih, Usage.add, qualifiedName_importClass]

theorem qualifiedName_foldl_addImport (is : List Import) (f : File) :
    (is.foldl File.addImport f).qualifiedName = f.qualifiedName := by
  induction is generalizing f with
  | nil => rfl
  | cons i is ih => rw [List.foldl_cons, ih, Php.File.qualifiedName_addImport]

theorem Header.qualifiedName_usage (x : Header) :
    x.usage.file.qualifiedName = x.own.qualifiedName := by
  rw [usage, qualifiedName_foldl_add, (foldl_fix_file x.fixed _).1, qualifiedName_foldl_addImport]
  rfl

theorem Traces.qualifiedName (h : Traces u f) : f.qualifiedName = u.file.qualifiedName := by
  rw [File.qualifiedName, File.qualifiedName, h.namespaceName, h.name]

theorem mem_of_mem_importClass {i : Import} (h : i ∈ (importClass f c suffix).2.imports) :
    i ∈ f.imports ∨ i.path = c.qualifiedName := by
  rcases importClass_snd f c suffix with heq | ⟨rename, heq⟩
  · rw [heq] at h
    exact Or.inl h
  · rw [heq] at h
    exact (Php.File.mem_of_mem_addImport h).imp_right fun heq => by rw [heq]

/-- Whether each use of a class is by a name that stands for it, and each import is of a class in
use. -/
structure Usage.Grounded (u : Usage) : Prop where
  introduces : ∀ x ∈ u.uses, u.file.Introduces x.1 x.2
  imports : ∀ i ∈ u.file.imports, i.path ∈ u.uses.map (·.2)

theorem grounded_empty (own : ClassRef) : (Usage.empty own).Grounded :=
  ⟨List.forall_mem_nil _, List.forall_mem_nil _⟩

theorem Usage.Grounded.fix (h : u.Grounded) (i : Import) : (u.fix i).Grounded := by
  constructor
  case introduces =>
    refine List.forall_mem_append.mpr ⟨fun x hx => (h.introduces x hx).addImport i, ?_⟩
    exact List.forall_mem_singleton.mpr (Php.File.introduces_visible u.file i)
  case imports =>
    intro j hj
    rw [Usage.fix, List.map_append, List.mem_append]
    rcases Php.File.mem_of_mem_addImport hj with hj | rfl
    · exact Or.inl (h.imports j hj)
    · exact Or.inr List.mem_cons_self

theorem Usage.Grounded.add (h : u.Grounded) (hc : '\\' ∉ c.name.toList) (suffix : String) :
    (u.add suffix c).Grounded := by
  constructor
  case introduces =>
    refine List.forall_mem_append.mpr ⟨fun x hx => ?_, ?_⟩
    · exact introduces_of_importClass (h.introduces x hx) c suffix
    · exact List.forall_mem_singleton.mpr (introduces_importClass hc u.file suffix)
  case imports =>
    intro j hj
    rw [Usage.add, List.map_append, List.mem_append]
    rcases mem_of_mem_importClass hj with hj | hpath
    · exact Or.inl (h.imports j hj)
    · exact Or.inr (List.mem_singleton.mpr hpath)

/-- A file of a header refers to the classes of the header by names that stand for them. -/
theorem Header.grounded (x : Header) (h : ∀ c ∈ x.classes, '\\' ∉ c.name.toList) :
    x.usage.Grounded := by
  rw [usage]
  refine List.foldlRecOn x.classes (Usage.add x.suffix) ?_ fun u hu c hc => hu.add (h c hc) _
  exact List.foldlRecOn x.fixed Usage.fix (grounded_empty x.own) fun u hu i _ => hu.fix i

end Client
end SdkSmith
