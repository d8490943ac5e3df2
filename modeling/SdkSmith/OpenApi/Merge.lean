import SdkSmith.Api.Schema
import SdkSmith.OpenApi.Document

/-!
The schemas of a document as types of the API. A reference becomes a named type and is not
followed, except in an allOf, whose members' properties are merged: each component at most once, so
that cycles end.
-/
namespace SdkSmith.OpenApi

/-- What an allOf has gathered, and the components it has been through. -/
structure Merge where
  visited : List String
  properties : Table Api.Schema
  required : List String
deriving Repr

namespace Merge

/-- Nothing gathered. -/
def empty : Merge := ⟨[], [], []⟩

/-- Adds names that are not there yet. -/
def addNames (names : List String) : List String → List String
  | [] => names
  | n :: ns => addNames (if names.contains n then names else names ++ [n]) ns

/-- Adds a schema's own properties, over inherited ones, and its required names. -/
def add (m : Merge) (properties : Table Api.Schema) (required : List String) : Merge :=
  { m with
    properties := Table.putAll m.properties properties
    required := addNames m.required required }

end Merge

/-- How a reference in an allOf is followed. -/
abbrev Follow := String → Merge → Merge

/-- The type of a schema without members. -/
def Schema.valueType (s : Schema) : Api.ValueType :=
  match s.primaryType? with
  | some t => Api.ValueType.ofJsonSchema t s.format
  | none => .mixed

mutual

/-- A schema as a type with a name. -/
def convertWith (follow : Follow) (name : String) : Schema → Api.Schema
  | ⟨type, reference, title, description, properties, required, items, allOf, format, nullable,
      enumValues, default, origin⟩ =>
    let s : Schema := ⟨type, reference, title, description, properties, required, items, allOf,
      format, nullable, enumValues, default, origin⟩
    let about := Text.unlessBlank description
    match reference with
    | some r =>
      { Api.Schema.scalar name (.named (targetOf r)) with
        nullable := s.isNullable, description := about }
    | none =>
      let core : Api.Schema :=
        match allOf with
        | some ss =>
          let own := match properties with
            | some ps => convertProperties follow ps
            | none => []
          let m := (gatherAll follow ss .empty).add own (required.getD [])
          .object name m.properties m.required
        | none =>
          if s.primaryType? = some "array" then
            let item := match items with
              | some i => convertWith follow (name ++ " item") i
              | none => .scalar (name ++ " item") .mixed
            .array name item false
          else match properties with
            | some ps => .object name (convertProperties follow ps) (required.getD [])
            | none => .scalar name s.valueType
      { core with
        nullable := s.isNullable, description := about, enumValues := enumValues.getD [] }

/-- Properties as types under their names. -/
def convertProperties (follow : Follow) : List (String × Schema) → List (String × Api.Schema)
  | [] => []
  | (name, s) :: ps => (name, convertWith follow name s) :: convertProperties follow ps

/-- Gathers a member of an allOf: its own members first, then what it says itself. -/
def gather (follow : Follow) : Schema → Merge → Merge
  | ⟨_, some r, _, _, _, _, _, _, _, _, _, _, _⟩, m => follow (targetOf r) m
  | ⟨_, none, _, _, properties, required, _, allOf, _, _, _, _, _⟩, m =>
    let m := match allOf with
      | some ss => gatherAll follow ss m
      | none => m
    let own := match properties with
      | some ps => convertProperties follow ps
      | none => []
    m.add own (required.getD [])

/-- Gathers the members of an allOf in order. -/
def gatherAll (follow : Follow) : List Schema → Merge → Merge
  | [], m => m
  | s :: ss, m => gatherAll follow ss (gather follow s m)

end

/-- Follows references into a table, through at most so many of them in a row. The entry counts
with what is written in it, even if it is itself a reference. -/
def followIn (table : Table Schema) : Nat → Follow
  | 0, _, m => m
  | fuel + 1, target, m =>
    match Table.find? target table with
    | none => m
    | some s =>
      if m.visited.contains target then m
      else
        gather (followIn table fuel) { s with reference := none }
          { m with visited := target :: m.visited }

/-- A schema as a type with a name. No way through distinct components is longer than the table. -/
def convertSchema (table : Table Schema) (name : String) (s : Schema) : Api.Schema :=
  convertWith (followIn table table.length) name s

end SdkSmith.OpenApi
