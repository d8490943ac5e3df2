/-!
Tables in insertion order. A key put again keeps its place and takes the new value, so a table
built by `put` has distinct keys.
-/
namespace SdkSmith

/-- Keys with their values, in the order in which the keys were first put. -/
abbrev Table (α : Type) := List (String × α)

namespace Table
variable {κ α : Type} [DecidableEq κ]

/-- The value at a key. -/
def find? (k : κ) : List (κ × α) → Option α
  | [] => none
  | (k', v) :: t => if k' = k then some v else find? k t

/-- Whether a key is present. -/
def has (k : κ) (t : List (κ × α)) : Bool :=
  (find? k t).isSome

/-- Sets the value at a key, in its place or at the end. -/
def put (k : κ) (v : α) : List (κ × α) → List (κ × α)
  | [] => [(k, v)]
  | (k', v') :: t => if k' = k then (k', v) :: t else (k', v') :: put k v t

/-- A table with pairs put one by one. -/
def putAll (t : List (κ × α)) (l : List (κ × α)) : List (κ × α) :=
  l.foldl (fun t (k, v) => put k v t) t

/-- A table from pairs. -/
def ofList (l : List (κ × α)) : List (κ × α) :=
  putAll [] l

/-- The keys in order. -/
def keys (t : List (κ × α)) : List κ :=
  t.map (·.1)

end Table
end SdkSmith
