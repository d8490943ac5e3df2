import SdkSmith.Client.Plan
import SdkSmith.Format

/-!
What a run says about its progress. Each notice has a level and belongs to an area, by which notices
are filtered.
-/
namespace SdkSmith

/-- How much a notice matters. -/
inductive Level
  | error
  | warn
  | info
  | debug
  | trace
deriving DecidableEq, Repr

namespace Level

/-- Every level, the weightiest first. -/
def all : List Level := [.error, .warn, .info, .debug, .trace]

/-- The word for a level. -/
def name : Level → String
  | .error => "ERROR"
  | .warn => "WARN"
  | .info => "INFO"
  | .debug => "DEBUG"
  | .trace => "TRACE"

/-- The number of levels that matter as much or more. -/
def rank : Level → Nat
  | .error => 1
  | .warn => 2
  | .info => 3
  | .debug => 4
  | .trace => 5

/-- The level of a word in any letter case. -/
def ofName? (word : String) : Option Level :=
  all.find? fun l => Text.lower l.name == Text.lower word

end Level

/-- What is worth saying. -/
inductive Notice
  | unknownKey (key : String)
  | inputRead (path : String) (format : Format)
  /-- An inline schema moved to the table, or to an entry that was there. -/
  | schemaMoved
  | cookieParameter (name endpoint : String)
  | misplacedParameter (name place : String)
  | exampleIgnored (endpoint : String)
  | understood (format : Format) (endpoints : Nat)
  | described (format : Format) (endpoints schemas : Nat)
  | schemaWithoutClass (schema : String)
  | renamed (collision : Client.Collision)
  | dtoMade (schema className : String)
  | callPlanned (endpoint method request : String)
  | requestMade (endpoint className : String)
  | resourceMade (label className : String)
  | undeclaredScheme (scheme : String)
  | unsupportedScheme (scheme : String)
  | cookieKey (scheme : String)
  | connectorMade (className : String)
  | generated (requests resources dtos collisions : Nat)
  | collisionsResolved (count : Nat)
  | fileUnchanged (path : String)
  | fileSkipped (path : String)
  | filesWritten (written skipped : Nat)
deriving DecidableEq, Repr

namespace Notice

/-- The level of a notice. -/
def level : Notice → Level
  | .unknownKey _ | .misplacedParameter _ _ | .renamed _ | .undeclaredScheme _
  | .unsupportedScheme _ | .cookieKey _ | .fileSkipped _ => .warn
  | .described _ _ _ | .generated _ _ _ _ => .info
  | _ => .debug

/-- The area of what is said about reading a format. -/
def formatArea : Format → String
  | .openApi => "sdkgen::parsers::openapi"
  | .postman => "sdkgen::parsers::postman"
  | .har => "sdkgen::parsers::har"

/-- The area of a notice. -/
def area : Notice → String
  | .inputRead _ _ | .described _ _ _ | .collisionsResolved _ => "sdkgen"
  | .unknownKey _ => "sdkgen::config"
  | .schemaMoved => "sdkgen::parsers::openapi::normalize"
  | .cookieParameter _ _ | .misplacedParameter _ _ => formatArea .openApi
  | .exampleIgnored _ => formatArea .postman
  | .understood f _ => formatArea f
  | .renamed c =>
    match c.kind with
    | .property => "sdkgen::codegen::dto"
    | .method | .parameter => "sdkgen::codegen::plan"
  | .schemaWithoutClass _ | .dtoMade _ _ => "sdkgen::codegen::dto"
  | .callPlanned _ _ _ => "sdkgen::codegen::plan"
  | .requestMade _ _ => "sdkgen::codegen::request"
  | .resourceMade _ _ => "sdkgen::codegen::resource"
  | .undeclaredScheme _ | .unsupportedScheme _ | .cookieKey _ | .connectorMade _ =>
    "sdkgen::codegen::connector"
  | .generated _ _ _ _ => "sdkgen::codegen"
  | .fileUnchanged _ | .fileSkipped _ | .filesWritten _ _ => "sdkgen::output"

/-- The sentence of a notice. -/
def message : Notice → String
  | .unknownKey key => "Ignoring unknown configuration key " ++ key ++ "."
  | .inputRead path format => "Read input " ++ path ++ " as " ++ format.name ++ "."
  | .schemaMoved => "Hoisting inline schemas."
  | .cookieParameter name endpoint =>
    "Skipping cookie parameter " ++ name ++ " of " ++ endpoint ++ "."
  | .misplacedParameter name place =>
    "Skipping parameter " ++ name ++ " with unknown location " ++ place ++ "."
  | .exampleIgnored endpoint =>
    "Raw body of " ++ endpoint ++ " is not JSON; no body parameters."
  | .understood format n => "Parsed " ++ format.name ++ " with " ++ toString n ++ " endpoints."
  | .described _ n k =>
    "Parsed API description with " ++ toString n ++ " endpoints and " ++ toString k ++ " schemas."
  | .schemaWithoutClass schema =>
    "Schema " ++ schema ++ " has no members, no class generated."
  | .renamed c =>
    "Name " ++ c.wanted ++ " already taken, using " ++ c.substituted ++ " for " ++ c.source
      ++ " in " ++ c.owner ++ "."
  | .dtoMade schema c => "Generated " ++ c ++ " for schema " ++ schema ++ "."
  | .callPlanned endpoint method request =>
    "Planned " ++ endpoint ++ " as " ++ method ++ " with " ++ request ++ "."
  | .requestMade endpoint c => "Generated " ++ c ++ " for " ++ endpoint ++ "."
  | .resourceMade label c => "Generated " ++ c ++ " for " ++ label ++ "."
  | .undeclaredScheme scheme =>
    "Security requirement names undeclared scheme " ++ scheme ++ ", skipping."
  | .unsupportedScheme scheme =>
    "Unsupported authentication kind of scheme " ++ scheme ++ ", skipping."
  | .cookieKey scheme =>
    "Cookie API keys are not supported, skipping scheme " ++ scheme ++ "."
  | .connectorMade c => "Generated connector " ++ c ++ "."
  | .generated requests resources dtos collisions =>
    "Generated SDK with " ++ toString requests ++ " requests, " ++ toString resources
      ++ " resources, " ++ toString dtos ++ " data classes and " ++ toString collisions
      ++ " collisions."
  | .collisionsResolved n => "Resolved " ++ toString n ++ " collisions."
  | .fileUnchanged path => "File " ++ path ++ " is up to date."
  | .fileSkipped path =>
    "File " ++ path ++ " already exists, skipping (use --force to overwrite)."
  | .filesWritten written skipped =>
    "Wrote " ++ toString written ++ " files and skipped " ++ toString skipped ++ "."

end Notice
end SdkSmith
