import SdkSmith.Api.Description
import SdkSmith.Har.Archive
import SdkSmith.Json.Reader
import SdkSmith.Url.Basic

/-!
The description of an API that an archive gives. Requests whose URL has the marker in it count; of
those with the same method and path one endpoint is made, with the query parameters of all. How
URLs are read is left open.
-/
namespace SdkSmith.Har

/-- What shows that a URL belongs to the API. -/
def defaultMarker : String := "/api/"

/-- A request that counts, in parts. -/
structure Hit where
  method : Api.HttpMethod
  path : String
  /-- The names in the query. -/
  names : List String
  origin : String
deriving DecidableEq, Repr

/-- The parts of a request, whose place in the archive is known. -/
def hit (read : Url.Reader) (place : Nat) (r : Request) : Except Failure Hit :=
  match read r.url with
  | .error fault => .error (.malformed (.invalidUrl place r.url fault))
  | .ok u => do
    let method ← Api.HttpMethod.parse r.method
    return ⟨method, u.path, u.queryPairs.map (·.1), u.origin⟩

/-- The requests that count, in parts, from a place on. -/
def hits (read : Url.Reader) (marker : String) : Nat → List Request → Except Failure (List Hit)
  | _, [] => .ok []
  | i, r :: rs =>
    if Text.occurs marker r.url then do
      let h ← hit read i r
      let hs ← hits read marker (i + 1) rs
      return h :: hs
    else hits read marker (i + 1) rs

/-- Names that are not there yet, in order. -/
def addNames (names : List String) (new : List String) : List String :=
  new.foldl (fun names n => if names.contains n then names else names ++ [n]) names

/-- The names in the queries of each method and path. -/
def merge (hs : List Hit) : List ((Api.HttpMethod × String) × List String) :=
  hs.foldl (fun t h =>
    let key := (h.method, h.path)
    Table.put key (addNames ((Table.find? key t).getD []) h.names) t) []

/-- A query parameter, of which nothing but the name is known. -/
def queryParameter (name : String) : Api.Parameter :=
  { Api.Parameter.plain name .mixed with nullable := true }

/-- The endpoint of a method and path. -/
def endpoint (key : Api.HttpMethod × String) (names : List String) : Api.Endpoint :=
  let e := Api.Endpoint.plain "" key.1 key.2
  { e with name := e.fallbackName, queryParameters := names.map queryParameter }

/-- The description that requests give. -/
def describeRequests (read : Url.Reader) (marker : String) (rs : List Request) :
    Except Failure Api.Description := do
  let hs ← hits read marker 0 rs
  return { Api.Description.empty with
    baseUrl := ⟨((hs.head?).map (·.origin)).getD "", []⟩
    endpoints := (merge hs).map fun (key, names) => endpoint key names
  }

/-- The description that an archive gives. -/
def Archive.describe (a : Archive) (read : Url.Reader) (marker : String) :
    Except Failure Api.Description :=
  match a.log with
  | none => .error (.malformed .noLog)
  | some none => .error (.malformed .noEntries)
  | some (some rs) => describeRequests read marker rs

/-- The archive that a text is. -/
def decode (source : String) : Except Failure Archive :=
  match (Json.read? source).map Read.archive with
  | some (.ok a) => .ok a
  | _ => .error (.malformed (.undecodable .harJson))

end SdkSmith.Har
