import SdkSmith.Client.Plan
import SdkSmith.Php.Class

/-!
The classes that every client has, of which only the namespace varies.
-/
namespace SdkSmith.Client.Support
open Php (Class Expr File Method PhpType Property)

/-- Makes an object from data on the wire. -/
def fromArrayCode : String :=
  "\n".intercalate [
    "$arguments = [];",
    "foreach ($data as $key => $value) \x7b",
    "    if (!isset(static::$fieldMap[$key])) \x7b",
    "        continue;",
    "    \x7d",
    "    $name = static::$fieldMap[$key];",
    "    if ($value !== null && isset(static::$casts[$name])) \x7b",
    "        $class = static::$casts[$name];",
    "        $value = $class::fromArray($value);",
    "    \x7d elseif ($value !== null && isset(static::$listCasts[$name])) \x7b",
    "        $class = static::$listCasts[$name];",
    "        $value = array_map(fn (array $item) => $class::fromArray($item), $value);",
    "    \x7d",
    "    $arguments[$name] = $value;",
    "\x7d",
    "",
    "return new static(...$arguments);"
  ]

/-- Makes data for the wire from an object. -/
def toArrayCode : String :=
  "\n".intercalate [
    "$data = [];",
    "foreach (static::$fieldMap as $key => $name) \x7b",
    "    $value = $this->\x7b$name\x7d;",
    "    if ($value instanceof self) \x7b",
    "        $value = $value->toArray();",
    "    \x7d elseif (is_array($value)) \x7b",
    "        $value = array_map(fn ($item) => $item instanceof self ? " ++
      "$item->toArray() : $item, $value);",
    "    \x7d",
    "    $data[$key] = $value;",
    "\x7d",
    "",
    "return $data;"
  ]

/-- A static property of the class and its heirs that holds a map. -/
def staticMap (name : String) (entries : List (Expr × Expr)) : Property :=
  ⟨name, .heirs, true, some .array, some (.array entries)⟩

/-- The base class of resources, which holds the connector. -/
def resourceFile (s : Settings) : File :=
  let connector : Php.Param :=
    { Php.ParamOf.typed "connector" (.named "Connector") with promoted := some .heirs }
  (File.plain s.namespaceName { Class.empty .plain "Resource" with
    methods := [.plain "__construct" [connector]] }).addImport ⟨"Saloon\\Http\\Connector", none⟩

/-- The base class of data classes. -/
def dtoFile (s : Settings) : File :=
  let toArray : Method :=
    { Method.plain "toArray" [] with returnType := some .array, body := [.raw toArrayCode] }
  let f := File.plain s.namespaceName { Class.empty .abstract "Dto" with
    contracts := ["Deserializable"]
    traits := ["HasFieldMap"]
    properties := [staticMap "fieldMap" [], staticMap "casts" [], staticMap "listCasts" []]
    methods := [toArray] }
  (f.addImport ⟨deserializable s, none⟩).addImport ⟨fieldMapTrait s, none⟩

/-- The method that makes an object from data. -/
def fromArray (body : List Php.Stmt) : Method :=
  { Method.plain "fromArray" [.typed "data" .array] with
    isStatic := true, returnType := some (.named "static"), body := body }

/-- The contract of data classes. -/
def contractFile (s : Settings) : File :=
  .plain (s.namespaceName ++ "\\Contracts")
    { Class.empty .interface "Deserializable" with methods := [fromArray []] }

/-- The trait of data classes. -/
def traitFile (s : Settings) : File :=
  .plain (s.namespaceName ++ "\\Concerns")
    { Class.empty .trait "HasFieldMap" with
      doc := some "Builds a Dto from wire data using its field map and casts."
      methods := [fromArray [.raw fromArrayCode]] }

/-- The classes besides the base class of resources. -/
def otherFiles (s : Settings) : List File :=
  [dtoFile s, contractFile s, traitFile s]

end SdkSmith.Client.Support
