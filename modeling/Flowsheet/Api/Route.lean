import Flowsheet.Text.Utf8
import Flowsheet.Json.Parser

set_option autoImplicit false

namespace Flowsheet.Api

inductive Resource where
  | list
  | detail (name : String)
  | graph (name : String)
  | evaluate (name : String)
  | compile (name : String)
deriving DecidableEq, Repr

namespace Resource

def method : Resource → String
  | .compile _ => "POST"
  | _ => "GET"

def ofComponents : List String → Option Resource
  -- The resource at the components of a path. Fixed components match in any case.
  | [] => some .list
  | [name] => if name = "" then none else some (.detail name)
  | [name, last] =>
    if name = "" then none
    else
      match last.map Char.toLower with
      | "dag" => some (.graph name)
      | "evaluate" => some (.evaluate name)
      | "compile" => some (.compile name)
      | _ => none
  | _ => none

def root : List String := ["", "api", "v1", "industries"]

def trimSlashes (path : String) : String :=
  String.ofList (path.toList.reverse.dropWhile (· = '/')).reverse

def find? (path : String) : Option Resource :=
  let components := (trimSlashes path).splitOn "/"
  if (components.take root.length).map (·.map Char.toLower) = root then
    ofComponents (components.drop root.length)
  else none

end Resource

def unescape : List Char → List UInt8
  -- Replaces escapes by the bytes they stand for; what is no escape stays.
  | [] => []
  | '%' :: a :: b :: rest =>
    match Json.hexValue? a, Json.hexValue? b with
    | some x, some y => UInt8.ofNat (x * 16 + y) :: unescape rest
    | _, _ => Text.bytes "%" ++ unescape (a :: b :: rest)
  | c :: rest => Text.bytes (if c = '+' then " " else c.toString) ++ unescape rest

structure Request where
  method : String
  path : String
  parameters : List (List UInt8 × List UInt8) := []

namespace Request

def parameter (item : String) : List UInt8 × List UInt8 :=
  match item.splitOn "=" with
  | [] => ([], [])
  | k :: vs => (unescape k.toList, unescape ("=".intercalate vs).toList)

def ofTarget (method target : String) : Request :=
  -- A request for a target: a path, a query after a question mark and a fragment, which does not
  -- count.
  let whole := (target.splitOn "#").headD ""
  match whole.splitOn "?" with
  | path :: query@(_ :: _) =>
    { method, path, parameters := (("?".intercalate query).splitOn "&").map parameter }
  | _ => { method, path := whole }

def value? (r : Request) (name : String) : Option (List UInt8) :=
  r.parameters.reverse.lookup (Text.bytes name)

end Request

end Flowsheet.Api
