import Flowsheet.Yaml.Atom
import Flowsheet.Json.Basic

set_option autoImplicit false

namespace Flowsheet.Yaml

inductive Value where
  | null
  | bool (b : Bool)
  | int (n : Int)
  | float (x : Float)
  | time (t : Timestamp)
  | text (s : String)
  | list (items : List Value)
  | map (entries : List (Value × Value))
deriving Inhabited

namespace Value

def ofAtom : Atom → Value
  | .null => .null
  | .bool b => .bool b
  | .int n => .int n
  | .float x => .float x
  | .time t => .time t
  | .text s => .text s

def isCollection : Value → Bool
  | .list _ | .map _ => true
  | _ => false

def same : Value → Value → Bool
  | .null, .null => true
  | .bool a, .bool b => a = b
  | .int a, .int b => a = b
  | .float a, .float b => a == b
  | .time a, .time b => a = b
  | .text a, .text b => a = b
  | _, _ => false

def keyLt : Value → Value → Bool
  -- Keys of one kind in their own order; kinds in a fixed one.
  | .int a, .int b => a < b
  | .float a, .float b => a < b
  | .bool a, .bool b => !a && b
  | .text a, .text b => a < b
  | a, b => rank a < rank b
where
  rank : Value → Nat
    | .null => 0
    | .int _ => 1
    | .float _ => 2
    | .bool _ => 3
    | .text _ => 4
    | .time _ => 5
    | .list _ => 6
    | .map _ => 7

def sortedTexts (pairs : List (Value × String)) : List String :=
  (pairs.mergeSort fun a b => !keyLt b.1 a.1).map (·.2)

def display : Value → String
  | .null => "<nil>"
  | .bool b => if b then "true" else "false"
  | .int n => toString n
  | .float x => Decimal.Layout.general.text x
  | .time t => t.display
  | .text s => s
  | .list items => "[" ++ " ".intercalate (displays items) ++ "]"
  | .map entries => "map[" ++ " ".intercalate (sortedTexts (pairs entries)) ++ "]"
where
  displays : List Value → List String
    | [] => []
    | v :: rest => v.display :: displays rest
  pairs : List (Value × Value) → List (Value × String)
    | [] => []
    | (k, v) :: rest => (k, k.display ++ ":" ++ v.display) :: pairs rest

def memberName? : Value → Option String
  -- A key as the name of a member: texts, integers and times can be one.
  | .text s => some s
  | .int n => some (toString n)
  | .time t => t.json?
  | _ => none

-- The value as JSON: there is none for infinities, for undefined numbers and for maps with a key that cannot
-- be a name.
def json? : Value → Option Json
  | .null => some .null
  | .bool b => some (.bool b)
  | .int n => some (.ofInt n)
  | .float x => if Decimal.isFinite x then some (.ofFloat x) else none
  | .time t => t.json?.map .string
  | .text s => some (.string s)
  | .list items => (list? items).map .array
  | .map entries => (members? entries).map .object
where
  list? : List Value → Option (List Json)
    | [] => some []
    | v :: rest => do return (← v.json?) :: (← list? rest)
  members? : List (Value × Value) → Option (List (String × Json))
    | [] => some []
    | (k, v) :: rest => do return (← k.memberName?, ← v.json?) :: (← members? rest)

def get? : Value → String → Option Value
  | .map entries, k => (entries.find? fun e => e.1.same (.text k)).map (·.2)
  | _, _ => none

end Value

end Flowsheet.Yaml
