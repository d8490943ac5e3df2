import SdkSmith.Url.Address
import SdkSmith.Url.Domain
import SdkSmith.Url.Fault
import SdkSmith.Url.Path

/-!
Absolute URLs, read the way browsers do: the scheme decides what else there is, and little is
refused.
-/
namespace SdkSmith.Url

/-- A host. -/
inductive Host
  | domain (name : String)
  | ipv4 (address : Nat)
  | ipv6 (groups : List Nat)
deriving DecidableEq, Repr

/-- The text of a host. -/
def Host.render : Host → String
  | .domain name => name
  | .ipv4 address => renderIpv4 address
  | .ipv6 groups => "[" ++ renderIpv6 groups ++ "]"

/-- The kinds of schemes. -/
inductive Kind
  /-- Those that always have a host, with the port number that need not be written. -/
  | web (portNumber : Nat)
  | file
  | other
deriving DecidableEq, Repr

/-- The kind of a scheme. -/
def kindOf (scheme : String) : Kind :=
  match scheme with
  | "http" | "ws" => .web 80
  | "https" | "wss" => .web 443
  | "ftp" => .web 21
  | "file" => .file
  | _ => .other

/-- Whether backslashes are slashes. -/
def Kind.isSpecial (k : Kind) : Bool := k != .other

/-- An absolute URL without its fragment. -/
structure Absolute where
  scheme : String
  host : Option Host
  /-- The port number, unless it is that of the scheme. -/
  portNumber : Option Nat
  path : String
  query : Option (List Char)
deriving DecidableEq, Repr

/-- A text without controls and spaces at its ends and without tabs and line ends in it. -/
def cleaned (s : String) : List Char :=
  let isOuter (c : Char) : Bool := c ≤ ' '
  (Text.trimWhile isOuter s.toList).filter fun c => c != '\t' && c != '\n' && c != '\r'

/-- The scheme in lower case, and what follows its colon. -/
def scheme? (s : List Char) : Option (String × List Char) :=
  let isPart (c : Char) : Bool := c.isAlphanum || c == '+' || c == '-' || c == '.'
  let name := s.takeWhile isPart
  match s.drop name.length with
  | ':' :: rest =>
    if name.head?.any Char.isAlpha then some (String.ofList (name.map Char.toLower), rest) else none
  | _ => none

/-- The path and the query with the characters that mark them, without the fragment. -/
def cutQuery (s : List Char) : List Char × Option (List Char) :=
  let s := s.takeWhile (· != '#')
  match Text.cutAt? ['?'] s with
  | some (path, query) => (path, some query)
  | none => (s, none)

/-! Hosts -/

/-- The IPv6 address in brackets. -/
def bracketed (s : List Char) : Except Fault Host :=
  if s.getLast? ≠ some ']' then .error .invalidIpv6
  else match ipv6? s.tail.dropLast with
    | some groups => .ok (.ipv6 groups)
    | none => .error .invalidIpv6

/-- The host of a URL whose scheme has hosts. -/
def webHost (s : List Char) : Except Fault Host :=
  if s.head? = some '[' then bracketed s
  else match asciiDomain? (Text.ofUtf8 (percentDecode (Text.utf8 s))) with
    | none => .error .invalidName
    | some name =>
      if name.isEmpty then .error .emptyHost
      else if endsInNumber name then
        match ipv4? name with
        | some address => .ok (.ipv4 address)
        | none => .error .invalidIpv4
      else .ok (.domain (String.ofList name))

/-- Characters that no host of any scheme has. -/
def isBarred (c : Char) : Bool :=
  ['\x00', ' ', '#', '/', ':', '<', '>', '?', '@', '[', '\\', ']', '^', '|'].contains c

/-- The host of a URL of another scheme, which may be missing. -/
def otherHost (s : List Char) : Except Fault (Option Host) :=
  if s.head? = some '[' then (bracketed s).map some
  else if s.any isBarred then .error .invalidHostCharacter
  else if s.isEmpty then .ok none
  else .ok (some (.domain (String.ofList (escape isControl s))))

/-- The host at the front, and what follows it: a colon, unless between brackets, ends it. -/
def cutHost (inBrackets : Bool) : List Char → List Char × List Char
  | [] => ([], [])
  | c :: r =>
    if c == ':' && !inBrackets then ([], c :: r)
    else
      let (host, rest) := cutHost (c == '[' || (inBrackets && c != ']')) r
      (c :: host, rest)

/-- The port number after a host, unless it is that of the scheme, and what follows it. -/
def portNumber (k : Kind) (s : List Char) : Except Fault (Option Nat × List Char) :=
  match s with
  | ':' :: r =>
    let digits := r.takeWhile Char.isDigit
    let rest := r.drop digits.length
    let n := digits.foldl (fun n d => n * 10 + (d.toNat - 48)) 0
    if 65535 < n || !(rest.head?.all (· == '\\')) then .error .invalidPort
    else .ok (if digits.isEmpty || k = .web n then none else some n, rest)
  | r => .ok (none, r)

/-- The name and password before the last at sign, and what follows it. -/
def cutUser (s : List Char) : Option (List Char) × List Char :=
  match s.reverse.dropWhile (· != '@') with
  | [] => (none, s)
  | _ :: user => (some user.reverse, s.drop (user.length + 1))

/-- The host and port number in an authority, and what is left of it. -/
def hostAndPort (k : Kind) (authority rest : List Char) :
    Except Fault (Option Host × Option Nat × List Char) := do
  let (user, s) := cutUser authority
  if user = some [] && s.isEmpty && !rest.isEmpty then throw .emptyHost
  let (name, after) := cutHost false s
  let host ← if k.isSpecial then
      if name.isEmpty then throw .emptyHost else (webHost name).map some
    else otherHost name
  if host.isNone && after.head? = some ':' then throw .emptyHost
  let (p, left) ← portNumber k after
  if host.isNone && user.any fun u => u != [] && u != [':'] then throw .emptyHost
  return (host, p, left)

/-! URLs -/

/-- Cuts where an authority ends. -/
def cutAuthority (k : Kind) (s : List Char) : List Char × List Char :=
  let isEnd (c : Char) : Bool := c == '/' || c == '?' || c == '#' || (k.isSpecial && c == '\\')
  let authority := s.takeWhile fun c => !isEnd c
  (authority, s.drop authority.length)

/-- The URL of an authority and what follows it. -/
def withAuthority (scheme : String) (k : Kind) (s : List Char) : Except Fault Absolute := do
  let (authority, rest) := cutAuthority k s
  let (host, p, left) ← hostAndPort k authority rest
  let (path, query) := cutQuery (left ++ rest)
  let path := if path.isEmpty && !k.isSpecial then [] else pathOf k.isSpecial false path
  return ⟨scheme, host, p, String.ofList path, query⟩

/-- The URL of a file. -/
def fileUrl (s : List Char) : Except Fault Absolute := do
  let isSlash (c : Char) : Bool := c == '/' || c == '\\'
  let (_, rest) ← match s with
    | a :: b :: r =>
      if isSlash a && isSlash b then
        let (name, rest) := cutAuthority .file r
        if isDrive name then pure (none, r)
        else if name.isEmpty then pure (none, rest)
        else do
          let host ← webHost name
          pure (some host, rest)
      else pure (none, s)
    | _ => pure (none, s)
  let (path, query) := cutQuery rest
  return ⟨"file", none, none, String.ofList (pathOf true true path), query⟩

/-- The URL of another scheme without authority; the path may be anything. -/
def plainUrl (scheme : String) (s : List Char) : Absolute :=
  let (path, query) := cutQuery s
  let path := if path.head? = some '/' then pathOf false false path else escape isControl path
  ⟨scheme, none, none, String.ofList path, query⟩

/-- The absolute URL that a text is. -/
def parse (s : String) : Except Fault Absolute :=
  match scheme? (cleaned s) with
  | none => .error .relative
  | some (scheme, rest) =>
    match kindOf scheme with
    | .web p =>
      withAuthority scheme (.web p) (rest.dropWhile fun c => c == '/' || c == '\\')
    | .file => fileUrl rest
    | .other =>
      match rest with
      | '/' :: '/' :: r => withAuthority scheme .other r
      | r => .ok (plainUrl scheme r)

namespace Absolute

/-- The origin of a URL whose scheme has hosts. -/
def tupleOrigin (u : Absolute) : Option String :=
  match kindOf u.scheme, u.host with
  | .web _, some host =>
    let portText := match u.portNumber with
      | some p => ":" ++ toString p
      | none => ""
    some (u.scheme ++ "://" ++ host.render ++ portText)
  | _, _ => none

/-- The origin of a URL, where the path of a blob is a URL again. -/
def originFrom : Nat → Absolute → String
  | 0, _ => "null"
  | fuel + 1, u =>
    if u.scheme = "blob" then
      match Url.parse u.path with
      | .ok inner => originFrom fuel inner
      | .error _ => "null"
    else u.tupleOrigin.getD "null"

/-- The origin of a URL. -/
def origin (u : Absolute) : String :=
  originFrom (u.path.length + 1) u

/-- The pairs of the query. -/
def queryPairs (u : Absolute) : List (String × String) :=
  (u.query.map Url.queryPairs).getD []

end Absolute

/-! What captures need of a URL -/

/-- The path of a URL, the pairs of its query, and its origin. -/
structure Parts where
  path : String
  queryPairs : List (String × String)
  origin : String
deriving DecidableEq, Repr

/-- A reader of URLs. -/
abbrev Reader := String → Except Fault Parts

/-- The parts of the absolute URL that a text is: the reader of the program. -/
def parts : Reader := fun s =>
  (parse s).map fun u => ⟨u.path, u.queryPairs, u.origin⟩

end SdkSmith.Url
