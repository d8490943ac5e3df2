import SdkSmith.Text.Blank
import SdkSmith.Url.Query

/-!
Numeric hosts: IPv4 addresses, in up to four numbers of three bases, and IPv6 addresses.
-/
namespace SdkSmith.Url

/-- The digit of a base. -/
def digitOf? (base : Nat) (c : Char) : Option Nat :=
  (hexValue? c.toNat).filter (· < base)

/-- The number that digits of a base make. -/
def numberOf? (base : Nat) (s : List Char) : Option Nat :=
  (s.mapM (digitOf? base)).map fun ds => ds.foldl (fun n d => n * base + d) 0

/-- A part of an IPv4 address; the first characters tell its base. -/
def part? (s : List Char) : Option Nat :=
  match s with
  | [] => none
  | '0' :: 'x' :: r | '0' :: 'X' :: r => numberOf? 16 r
  | ['0'] => some 0
  | '0' :: r => numberOf? 8 r
  | r => numberOf? 10 r

/-- The parts of a host, without an empty last one. -/
def partsOf (s : List Char) : List (List Char) :=
  let parts := Text.pieces (· == '.') s
  if 1 < parts.length && parts.getLast? == some [] then parts.dropLast else parts

/-- Whether a host is meant as an IPv4 address, as its last part shows. -/
def endsInNumber (s : List Char) : Bool :=
  match (partsOf s).getLast? with
  | some last => (!last.isEmpty && last.all Char.isDigit) || (part? last).isSome
  | none => false

/-- The number that parts make: each is a byte, but the last one fills what is left. -/
def addressOf? (parts : List Nat) : Option Nat :=
  match parts.reverse with
  | [] => none
  | last :: front =>
    let bytes := front.reverse
    if 3 < bytes.length || bytes.any (255 < ·) || Nat.pow 256 (4 - bytes.length) ≤ last then none
    else some (bytes.foldl (fun n b => n * 256 + b) 0 * Nat.pow 256 (4 - bytes.length) + last)

/-- The IPv4 address of a host. -/
def ipv4? (s : List Char) : Option Nat :=
  ((partsOf s).mapM part?).bind addressOf?

/-- An IPv4 address in four bytes. -/
def renderIpv4 (n : Nat) : String :=
  ".".intercalate ([n / 0x1000000, n / 0x10000 % 256, n / 256 % 256, n % 256].map toString)

/-- A byte of an IPv4 address within an IPv6 one, without needless zeros. -/
def byte? (s : List Char) : Option Nat :=
  if s.isEmpty || (1 < s.length && s.head? == some '0') || !s.all Char.isDigit then none
  else (numberOf? 10 s).filter (· < 256)

/-- A group of at most four hexadecimal digits. -/
def group? (s : List Char) : Option Nat :=
  if s.isEmpty || 4 < s.length then none else numberOf? 16 s

/-- The groups of one side of an IPv6 address, of which the last may be an IPv4 address. -/
def groups? : List (List Char) → Option (List Nat)
  | [] => some []
  | [last] =>
    if last.contains '.' then do
      match ← (Text.pieces (· == '.') last).mapM byte? with
      | [a, b, c, d] => return [a * 256 + b, c * 256 + d]
      | _ => none
    else (group? last).map ([·])
  | s :: ss => do
    let n ← group? s
    let ns ← groups? ss
    return n :: ns

/-- The groups of one side, which may be empty. -/
def side? (s : List Char) : Option (List Nat) :=
  if s.isEmpty then some [] else groups? (Text.pieces (· == ':') s)

/-- The eight groups of an IPv6 address. Two colons stand for at least one group of zeros. -/
def ipv6? (s : List Char) : Option (List Nat) := do
  match Text.cutAt? [':', ':'] s with
  | none =>
    let groups ← side? s
    if groups.length = 8 then some groups else none
  | some (front, back) =>
    if front.contains '.' then none
    let front ← side? front
    let back ← side? back
    if 8 ≤ front.length + back.length then none
    else some (front ++ List.replicate (8 - front.length - back.length) 0 ++ back)

/-- A group without leading zeros. -/
def renderGroup (n : Nat) : String :=
  String.ofList (Nat.toDigits 16 n)

/-- The number of zeros at the front. -/
def zeros (groups : List Nat) : Nat :=
  (groups.takeWhile (· == 0)).length

/-- The length of the longest run of zeros. -/
def longestRun : List Nat → Nat
  | [] => 0
  | n :: ns => max (zeros (n :: ns)) (longestRun ns)

/-- The groups before the first run of a length, and those after it. -/
def cutRun (run : Nat) : List Nat → Option (List Nat × List Nat)
  | [] => none
  | n :: ns =>
    if zeros (n :: ns) = run then some ([], (n :: ns).drop run)
    else (cutRun run ns).map fun (front, back) => (n :: front, back)

/-- An IPv6 address, with two colons for the first of the longest runs of at least two zeros. -/
def renderIpv6 (groups : List Nat) : String :=
  let render (ns : List Nat) : String := ":".intercalate (ns.map renderGroup)
  let run := longestRun groups
  match if 2 ≤ run then cutRun run groups else none with
  | some (front, back) => render front ++ "::" ++ render back
  | none => render groups

end SdkSmith.Url
