import SdkSmith.Document.Datum
import SdkSmith.Json.Printer
import SdkSmith.Text.Quoted

/-!
Why a document is not of the type a reader asks for, and the sentence that says so.
-/
namespace SdkSmith.Document

/-- What stands where something else was asked for. -/
inductive Found
  | null
  | flag (b : Bool)
  | number (n : Json.Number)
  | text (s : String)
  | list
  | record
deriving Repr, DecidableEq

/-- The first thing wrong with a document. -/
inductive Mismatch
  /-- Something of another type. -/
  | wrongType (found : Found) (expected : String)
  /-- A list of fields that ends too early for a record. -/
  | tooShort (length : Nat) (record : String) (fields : Nat)
  /-- A list of fields that goes on after the last one. -/
  | tooLong (length : Nat)
  | missingField (name : String)
  | duplicateField (name : String)
  /-- None of the alternatives of a choice fits. -/
  | noVariant (choice : String)
  /-- Well-formed text without a value. -/
  | noValue
deriving Repr, DecidableEq

namespace Found

/-- What a document is, for a message. -/
def ofDatum : Datum → Option Found
  | .scalar s =>
    match s.value? with
    | some (.bool b) => some (.flag b)
    | some (.number n) => some (.number n)
    | some (.string t) => some (.text t)
    | some .null => some .null
    | some (.array _) => some .list
    | some (.object _) => some .record
    | none => none
  | .list _ _ => some .list
  | .record _ _ => some .record
  | .unreadable => none

/-- The words for what was found. -/
def describe : Found → String
  | .null => "null"
  | .flag b => "boolean `" ++ (if b then "true" else "false") ++ "`"
  | .number (.int n) => "integer `" ++ toString n ++ "`"
  | .number (.double x) => "floating point `" ++ x.render Json.doubleLayout ++ "`"
  | .text s => "string " ++ Text.quoted s
  | .list => "sequence"
  | .record => "map"

end Found

namespace Mismatch

/-- The mismatch of a document with an expected type. -/
def unexpected (d : Datum) (expected : String) : Mismatch :=
  match Found.ofDatum d with
  | some found => .wrongType found expected
  | none => .noValue

/-- The sentence for a mismatch. -/
def message : Mismatch → String
  | .wrongType found expected => "invalid type: " ++ found.describe ++ ", expected " ++ expected
  | .tooShort length record fields =>
    "invalid length " ++ toString length ++ ", expected struct " ++ record ++ " with "
      ++ toString fields ++ (if fields = 1 then " element" else " elements")
  | .tooLong length =>
    "invalid length " ++ toString length ++ ", expected fewer elements in array"
  | .missingField name => "missing field `" ++ name ++ "`"
  | .duplicateField name => "duplicate field `" ++ name ++ "`"
  | .noVariant choice => "data did not match any variant of untagged enum " ++ choice
  | .noValue => "no value"

end Mismatch
end SdkSmith.Document
