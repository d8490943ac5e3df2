/-!
Why a text is not an absolute URL.
-/
namespace SdkSmith.Url

/-- The first thing wrong with a URL. -/
inductive Fault
  | emptyHost
  | invalidName
  | invalidPort
  | invalidIpv4
  | invalidIpv6
  | invalidHostCharacter
  | relative
deriving DecidableEq, Repr

/-- The words for a fault. -/
def Fault.message : Fault → String
  | .emptyHost => "empty host"
  | .invalidName => "invalid international domain name"
  | .invalidPort => "invalid port number"
  | .invalidIpv4 => "invalid IPv4 address"
  | .invalidIpv6 => "invalid IPv6 address"
  | .invalidHostCharacter => "invalid domain character"
  | .relative => "relative URL without a base"

end SdkSmith.Url
