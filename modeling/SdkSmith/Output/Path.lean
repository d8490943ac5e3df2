import SdkSmith.Php.Class
import SdkSmith.Text.Blank

/-!
Where a class goes: below the output directory, one directory for each part of its namespace below
the root namespace.
-/
namespace SdkSmith.Output

/-- A path followed by another; an absolute one replaces what came before. -/
def join (path next : String) : String :=
  if next.toList.head? == some '/' then next
  else if path.isEmpty || path.toList.getLast? == some '/' then path ++ next
  else path ++ "/" ++ next

/-- The part of a namespace below a root. -/
def belowRoot (root name : String) : String :=
  if name = root then "" else (Text.afterLead? (root ++ "\\") name).getD name

/-- The path of a file, relative to the output directory. -/
def relativePath (f : Php.File) (root : String) : String :=
  let below := belowRoot (Text.trimOf '\\' root) (Text.trimOf '\\' f.namespaceName)
  let directory := ((Text.split '\\' below).filter fun p => !p.isEmpty).foldl join ""
  join directory (f.declaration.name ++ ".php")

/-- A path without separators and single dots at its end, on reversed characters. -/
def trimRev : List Char → List Char
  | '/' :: r => if r.isEmpty then ['/'] else trimRev r
  | '.' :: '/' :: r => if r.isEmpty then ['/'] else trimRev r
  | r => r

/-- The path of the directory that a path lies in. -/
def parent (path : String) : String :=
  let r := trimRev path.toList.reverse
  let r := r.dropWhile (· != '/')
  String.ofList (trimRev r).reverse

end SdkSmith.Output
