import SdkSmith.Failure
import SdkSmith.Naming.Casing
import SdkSmith.Naming.Fresh
import SdkSmith.OpenApi.Document

/-!
Moving inline schemas into the table of components. Bodies and nested objects get a name and a
reference in their place; one whose signature is known shares the entry that has it. An entry is
added before its own members are moved, and the walk of the table reaches it later.
-/
namespace SdkSmith.OpenApi

/-- What a schema shows of itself without its members' types. -/
structure Layer where
  type : Option String
  reference : Option String
  properties : List String
  description : Option String
deriving DecidableEq, Repr

/-- The layers of a schema, of its items, of their items, and so on. Schemas of one signature share
an entry. -/
abbrev Signature := List Layer

/-- The outermost layer of a schema. -/
def Schema.layer (s : Schema) : Layer where
  type := s.primaryType?.or (s.properties.map fun _ => "object")
  reference := s.reference
  properties := (Table.keys (s.properties.getD [])).mergeSort fun a b => !(b < a)
  description := s.description

/-- The signature of a schema. -/
def Schema.signature : Schema → Signature
  | ⟨type, reference, title, description, properties, required, items, allOf, format, nullable,
      enumValues, default, origin⟩ =>
    let s : Schema := ⟨type, reference, title, description, properties, required, none, allOf,
      format, nullable, enumValues, default, origin⟩
    s.layer :: match items with
      | some i => signature i
      | none => []

/-- The table while it grows, and the entry of each known signature. -/
structure Hoard where
  table : Table Schema
  known : List (Signature × String)
deriving Repr

namespace Hoard

/-- A table with the signatures of its entries; of equal ones the first counts. -/
def ofTable (t : Table Schema) : Hoard :=
  ⟨t, t.map fun (name, s) => (s.signature, name)⟩

/-- The name of the entry for a schema: a known one of its signature, or a new one under a free
name. -/
def register (h : Hoard) (name : String) (s : Schema) (origin : Option Origin) : String × Hoard :=
  let signature := s.signature
  match h.known.lookup signature with
  | some name => (name, h)
  | none =>
    let name := Naming.freshNumbered (Table.keys h.table) name
    (name, ⟨Table.put name { s with origin := origin } h.table, h.known ++ [(signature, name)]⟩)

end Hoard

/-- Steps that add to the table, or fail. -/
abbrev Hoisting := StateT Hoard (Except Failure)

/-- Gives a schema an entry and stands a reference to it in its place. -/
def register (name : String) (s : Schema) (origin : Option Origin) : Hoisting String := fun h =>
  .ok (h.register name s origin)

/-- Where a schema stands: in the table or among the members of an allOf, or as a property or item
with the words that a name is made of. -/
inductive Position
  | entry (owner : String)
  | member (hint itemHint : String)
deriving DecidableEq, Repr

/-- What is done with a schema. -/
inductive Treatment
  /-- It stays as it is. -/
  | keep
  /-- It moves to an entry. -/
  | move (name : String)
  /-- It stays, and its items are treated. -/
  | items (hint : String)
  /-- It stays, and its members are treated. -/
  | visit (owner : String)
deriving DecidableEq, Repr

/-- The title as a class name, unless it comes out empty. -/
def Schema.titleName? (s : Schema) : Option String :=
  match s.title.map Naming.studlyCase with
  | some t => if t.isEmpty then none else some t
  | none => none

/-- What is done with a schema in a position. -/
def treatment (p : Position) (s : Schema) : Except Failure Treatment :=
  match p with
  | .entry owner => .ok (.visit owner)
  | .member hint itemHint =>
    if s.isInlineObject then
      let name := s.titleName?.getD (Naming.studlyCase hint)
      if name.isEmpty then .error (.unnamedSchema hint true) else .ok (.move name)
    else if s.isArrayOfInlineObjects then .ok (.items itemHint)
    else if s.allOf.isSome then .ok (.visit (Naming.studlyCase hint))
    else .ok .keep

/-- The reference that stands in for a property or item: it keeps the nullability and the
description of what stood there. -/
def standIn (s : Schema) (name : String) : Schema :=
  { Schema.refTo name with
    nullable := if s.isNullable then some true else none
    description := s.description }

mutual

/-- A schema with the inline objects in it moved to the table. -/
def hoist (origin : Option Origin) (p : Position) : Schema → Hoisting Schema
  | ⟨type, reference, title, description, properties, required, items, allOf, format, nullable,
      enumValues, default, marked⟩ => do
    let s : Schema := ⟨type, reference, title, description, properties, required, items, allOf,
      format, nullable, enumValues, default, marked⟩
    match ← (treatment p s : Hoisting Treatment) with
    | .keep => return s
    | .move name =>
      let entry ← register name s origin
      return standIn s entry
    | .items hint =>
      let items ← match items with
        | some i => some <$> hoist origin (.member hint hint) i
        | none => pure none
      return { s with items := items }
    | .visit owner =>
      let properties ← match properties with
        | some ps => some <$> hoistProperties origin owner ps
        | none => pure none
      let items ← match items with
        | some i => some <$> hoist origin (.member (owner ++ " item") (owner ++ " item")) i
        | none => pure none
      let allOf ← match allOf with
        | some ss => some <$> hoistAll origin owner ss
        | none => pure none
      return { s with properties := properties, items := items, allOf := allOf }

/-- Properties with the inline objects in them moved to the table. -/
def hoistProperties (origin : Option Origin) (owner : String) :
    List (String × Schema) → Hoisting (List (String × Schema))
  | [] => return []
  | (name, s) :: ps => do
    let hint := owner ++ " " ++ name
    let itemHint := owner ++ " " ++ Naming.singularize name
    let s ← hoist origin (.member hint itemHint) s
    let ps ← hoistProperties origin owner ps
    return (name, s) :: ps

/-- The members of an allOf, which stay, with the inline objects in them moved to the table. -/
def hoistAll (origin : Option Origin) (owner : String) : List Schema → Hoisting (List Schema)
  | [] => return []
  | s :: ss => do
    let s ← hoist origin (.entry owner) s
    let ss ← hoistAll origin owner ss
    return s :: ss

end

/-- Treats the entries of the table from an index on, with those added on the way. -/
def hoistEntries : Nat → Nat → Hoisting Unit
  | 0, _ => return ()
  | fuel + 1, i => do
    match (← get).table[i]? with
    | none => return ()
    | some (name, s) =>
      let s ← hoist s.origin (.entry name) s
      modify fun h => { h with table := Table.put name s h.table }
      hoistEntries fuel (i + 1)

/-- Treats every entry of the table. Each entry is a schema of the table as it was, so their number
bounds the walk. -/
def hoistTable : Hoisting Unit := do
  let table := (← get).table
  hoistEntries (Schema.sizeProperties table + 1) 0

/-- The words that a body's name is made of. -/
def Operation.baseName? (o : Operation) : Option String :=
  match o.operationId.or o.summary with
  | some b => if (Naming.studlyCase b).isEmpty then none else some b
  | none => none

/-- A body's schema with its reference in its place. -/
def hoistBody (s : Schema) (base : Option String) (word : String) (origin : Origin)
    (location : String) : Hoisting Schema := do
  if !s.needsName then return s
  let name ← match s.titleName?, base with
    | some title, _ => pure title
    | none, some base => pure (Naming.studlyCase (base ++ " " ++ word))
    | none, none => throw (.unnamedSchema location false)
  let entry ← register name s (some origin)
  return Schema.refTo entry

/-- The content of a body with its schema moved to the table. -/
def hoistContent (content : Table MediaType) (base : Option String) (word : String)
    (origin : Origin) (location : String) : Hoisting (Table MediaType) :=
  match bodySchema? content with
  | none => return content
  | some s => do
    let s ← hoistBody s base word origin location
    return withBodySchema content s

/-- Responses with their schemas moved to the table. -/
def hoistResponses (base : Option String) (location : String) :
    Table Response → Hoisting (Table Response)
  | [] => return []
  | (status, r) :: rs => do
    let content ← hoistContent r.content base "Response" .response
      (location ++ " response " ++ status)
    let rs ← hoistResponses base location rs
    return (status, { r with content := content }) :: rs

/-- An operation with its bodies moved to the table. -/
def hoistOperation (path method : String) (o : Operation) : Hoisting Operation := do
  let location := method ++ " " ++ path
  let body ← match o.requestBody with
    | none => pure none
    | some b => do
      let content ← hoistContent b.content o.baseName? "Request" .request location
      pure (some { b with content := content })
  let responses ← hoistResponses o.baseName? location o.responses
  return { o with requestBody := body, responses := responses }

/-- An operation that may be missing. -/
def hoistOperation? (path method : String) : Option Operation → Hoisting (Option Operation)
  | none => return none
  | some o => some <$> hoistOperation path method o

/-- A path with its operations' bodies moved to the table. -/
def hoistPath (path : String) (p : PathItem) : Hoisting PathItem := do
  let get ← hoistOperation? path "GET" p.get
  let put ← hoistOperation? path "PUT" p.put
  let post ← hoistOperation? path "POST" p.post
  let delete ← hoistOperation? path "DELETE" p.delete
  let options ← hoistOperation? path "OPTIONS" p.options
  let head ← hoistOperation? path "HEAD" p.head
  let patch ← hoistOperation? path "PATCH" p.patch
  let trace ← hoistOperation? path "TRACE" p.trace
  return ⟨get, put, post, delete, options, head, patch, trace, p.parameters⟩

/-- Paths with their operations' bodies moved to the table. -/
def hoistPaths : Table PathItem → Hoisting (Table PathItem)
  | [] => return []
  | (path, p) :: ps => do
    let p ← hoistPath path p
    let ps ← hoistPaths ps
    return (path, p) :: ps

/-- A document with its inline schemas moved to the table. -/
def Document.hoist (d : Document) : Except Failure Document := do
  let walk : Hoisting (Option (Table PathItem)) := do
    let paths ← match d.paths with
      | none => pure none
      | some ps => some <$> hoistPaths ps
    hoistTable
    return paths
  let (paths, h) ← walk.run (Hoard.ofTable d.components.schemas)
  return { d with paths := paths, components := { d.components with schemas := h.table } }

end SdkSmith.OpenApi
