import SdkSmith.Document.Reading

/-!
The part of an HTTP archive that a client is made of: the requests in it.
-/
namespace SdkSmith
open Document (Reader)

namespace Har

/-- A request that was made. -/
structure Request where
  method : String
  url : String
deriving DecidableEq, Repr

/-- An archive: its log, and the requests in the order in which they were made. -/
structure Archive where
  log : Option (Option (List Request))
deriving DecidableEq, Repr

namespace Read

/-- A request. -/
def request : Reader Request :=
  Reader.record "Request" ["method", "url"] fun f =>
    Request.mk <$> f.required "method" Reader.text <*> f.required "url" Reader.text

/-- The request of an entry. -/
def entry : Reader Request :=
  Reader.record "Entry" ["request"] fun f => f.required "request" request

/-- The entries of a log. -/
def log : Reader (Option (List Request)) :=
  Reader.record "Log" ["entries"] fun f => f.optional "entries" (Reader.list entry)

/-- An archive. -/
def archive : Reader Archive :=
  Reader.record "Archive" ["log"] fun f => Archive.mk <$> f.optional "log" log

end Read
end Har
end SdkSmith
