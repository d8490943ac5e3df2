import SdkSmith.OpenApi.Hoist

/-!
Whether every schema reference of a document leads to an entry of its table, and the normal form
of a document: inline schemas moved, references checked.
-/
namespace SdkSmith.OpenApi

/-- Whether a reference leads to an entry. -/
def resolves (table : Table Schema) (reference : String) : Bool :=
  match Text.afterLead? schemaPrefix reference with
  | some name => Table.has name table
  | none => false

mutual

/-- Refuses a reference without an entry in a schema. -/
def checkSchema (table : Table Schema) (location : String) : Schema → Except Failure Unit
  | ⟨_, reference, _, _, properties, _, items, allOf, _, _, _, _, _⟩ => do
    match reference with
    | some r => if !resolves table r then throw (.unresolved r location)
    | none => pure ()
    match properties with
    | some ps => checkProperties table location ps
    | none => pure ()
    match items with
    | some i => checkSchema table (location ++ ".items") i
    | none => pure ()
    match allOf with
    | some ss => checkAll table location 0 ss
    | none => pure ()

/-- Refuses a reference without an entry in properties. -/
def checkProperties (table : Table Schema) (location : String) :
    List (String × Schema) → Except Failure Unit
  | [] => return ()
  | (name, s) :: ps => do
    checkSchema table (location ++ ".properties." ++ name) s
    checkProperties table location ps

/-- Refuses a reference without an entry in the members of an allOf. -/
def checkAll (table : Table Schema) (location : String) : Nat → List Schema → Except Failure Unit
  | _, [] => return ()
  | i, s :: ss => do
    checkSchema table (location ++ ".allOf[" ++ toString i ++ "]") s
    checkAll table location (i + 1) ss

end

/-- Refuses a reference without an entry in a schema that may be missing. -/
def checkSchema? (table : Table Schema) (location : String) : Option Schema → Except Failure Unit
  | some s => checkSchema table location s
  | none => .ok ()

/-- Refuses a reference without an entry in an operation. -/
def checkOperation (table : Table Schema) (path : String) (item : PathItem)
    (method : Api.HttpMethod) (o : Operation) : Except Failure Unit := do
  let location := method.name ++ " " ++ path
  for p in item.parameters ++ o.parameters do
    checkSchema? table (location ++ " parameter " ++ p.name) p.schema
  checkSchema? table (location ++ " request body") o.requestSchema?
  for (status, r) in o.responses do
    checkSchema? table (location ++ " response " ++ status) (bodySchema? r.content)

/-- Refuses a reference without an entry. -/
def Document.checkReferences (d : Document) : Except Failure Unit := do
  let table := d.components.schemas
  for (name, s) in table do
    checkSchema table ("components.schemas." ++ name) s
  for (name, p) in d.components.parameters do
    checkSchema? table ("components.parameters." ++ name) p.schema
  for (path, item, method, o) in d.operations do
    checkOperation table path item method o

/-- The document with inline schemas in the table and every reference leading there. -/
def Document.normalize (d : Document) : Except Failure Document := do
  let d ← d.hoist
  d.checkReferences
  return d

end SdkSmith.OpenApi
