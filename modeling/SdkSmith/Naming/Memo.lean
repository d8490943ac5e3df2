import SdkSmith.Naming.Casing

/-!
A memory of derived names. A request is answered from the memory if it was asked before, and
otherwise from the rules in `Casing`, and remembered.
-/
namespace SdkSmith.Naming

/-- One question about a name. -/
inductive NameRequest
  | normal (text : String)
  | variable (text : String)
  | class (text suffix : String)
  | credential (key : String)
deriving DecidableEq, Repr

/-- What is known of the names asked so far, newest first. -/
structure Memo where
  normal : List (String × String)
  vars : List (String × String)
  classes : List ((String × String) × String)
deriving Repr

/-- Nothing asked yet. -/
def Memo.empty : Memo := ⟨[], [], []⟩

/-- The remembered answer, or a new one and the list that remembers it. -/
def remember {α : Type} [BEq α] (known : List (α × String)) (key : α) (answer : String) :
    String × List (α × String) :=
  match known.lookup key with
  | some hit => (hit, known)
  | none => (answer, (key, answer) :: known)

/-- Answers one request. -/
def Memo.answer (m : Memo) : NameRequest → String × Memo
  | .normal text =>
    let (name, known) := remember m.normal text (normalize text)
    (name, ⟨known, m.vars, m.classes⟩)
  | .variable text =>
    let (name, known) := remember m.vars text (variableName text)
    (name, ⟨m.normal, known, m.classes⟩)
  | .class text suffix =>
    let (name, known) := remember m.classes (text, suffix) (className text suffix)
    (name, ⟨m.normal, m.vars, known⟩)
  | .credential key =>
    let text := credentialKey key
    let (name, known) := remember m.vars text (variableName text)
    (name, ⟨m.normal, known, m.classes⟩)

/-- Answers a row of requests, each with what the earlier ones left. -/
def Memo.answers (m : Memo) : List NameRequest → List String × Memo
  | [] => ([], m)
  | q :: qs =>
    let (name, m) := m.answer q
    let (names, m) := m.answers qs
    (name :: names, m)

end SdkSmith.Naming
