import SdkSmith.Json.Value

/-!
The tables of a TOML document while it is read. A table may be opened by its header once, and
extended by dotted keys only if dotted keys made it.
-/
namespace SdkSmith.Toml

/-- How a table came to be: by a header of its own, on the way to another header's table, or by a
dotted key. -/
inductive Origin
  | header
  | passing
  | dotted
deriving DecidableEq, Repr

/-- What a key stands for. -/
inductive Node
  | value (v : Json)
  | table (origin : Origin) (members : List (String × Node))
  | tables (all : List (List (String × Node)))
deriving Repr

/-- The members of a table under construction. -/
abbrev Members := List (String × Node)

/-- Follows headers' keys from a table, making tables on the way, and changes the one they lead
to; of a list of tables the last one is followed. -/
def along (change : Members → Option Members) : List String → Members → Option Members
  | [], t => change t
  | k :: ks, t =>
    match Table.find? k t with
    | none => (along change ks []).map fun m => Table.put k (.table .passing m) t
    | some (.table o m) => (along change ks m).map fun m => Table.put k (.table o m) t
    | some (.tables all) =>
      match all.reverse with
      | [] => none
      | last :: before =>
        (along change ks last).map fun m => Table.put k (.tables (before.reverse ++ [m])) t
    | some (.value _) => none

/-- Opens the table of a header. -/
def openTable (k : String) (t : Members) : Option Members :=
  match Table.find? k t with
  | none => some (Table.put k (.table .header []) t)
  | some (.table .passing m) => some (Table.put k (.table .header m) t)
  | _ => none

/-- Opens another table of a list of tables. -/
def openItem (k : String) (t : Members) : Option Members :=
  match Table.find? k t with
  | none => some (Table.put k (.tables [[]]) t)
  | some (.tables all) => some (Table.put k (.tables (all ++ [[]])) t)
  | _ => none

/-- Sets the value of a dotted key. -/
def assign (v : Node) : List String → Members → Option Members
  | [], _ => none
  | [k], t =>
    match Table.find? k t with
    | none => some (Table.put k v t)
    | some _ => none
  | k :: ks, t =>
    match Table.find? k t with
    | none => (assign v ks []).map fun m => Table.put k (.table .dotted m) t
    | some (.table .dotted m) => (assign v ks m).map fun m => Table.put k (.table .dotted m) t
    | some (.table .passing m) =>
      match ks with
      | [_] => none
      | _ => (assign v ks m).map fun m => Table.put k (.table .passing m) t
    | _ => none

/-- Keys in the order of their characters. -/
def sorted {α : Type} (t : List (String × α)) : List (String × α) :=
  t.mergeSort fun a b => !(b.1 < a.1)

mutual

/-- The value of a node, the keys of its tables sorted. -/
def Node.json : Node → Json
  | .value v => v
  | .table _ ms => .object (sorted (memberValues ms))
  | .tables all => .array (tableValues all)

/-- The values of members. -/
def memberValues : List (String × Node) → List (String × Json)
  | [] => []
  | (k, n) :: ms => (k, n.json) :: memberValues ms

/-- The values of a list of tables. -/
def tableValues : List (List (String × Node)) → List Json
  | [] => []
  | ms :: rest => .object (sorted (memberValues ms)) :: tableValues rest

end

end SdkSmith.Toml
