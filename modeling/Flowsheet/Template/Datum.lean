import Flowsheet.Decimal.Layout
import Flowsheet.Json.Basic

set_option autoImplicit false

namespace Flowsheet.Template

inductive Datum where
  | nil
  | bool (b : Bool)
  | int (n : Int)
  | long (n : Int)
  | byte (n : Nat)
  | float (x : Float)
  | text (s : List UInt8)
  | list (items : List Datum)
  | map (entries : List (List UInt8 × Datum))
deriving Inhabited

namespace Datum

def byKey {α : Type} (entries : List (List UInt8 × α)) : List (List UInt8 × α) :=
  entries.mergeSort fun a b => decide (a.1 ≤ b.1)

def spaced (texts : List (List UInt8)) : List UInt8 := (Text.bytes " ").intercalate texts

def display : Datum → List UInt8
  | .nil => Text.bytes "<nil>"
  | .bool b => Text.bytes (if b then "true" else "false")
  | .int n | .long n => Text.bytes (toString n)
  | .byte n => Text.bytes n.repr
  | .float x => Text.bytes (Decimal.Layout.general.text x)
  | .text s => s
  | .list items => Text.bytes "[" ++ spaced (displays items) ++ Text.bytes "]"
  | .map entries => Text.bytes "map[" ++ spaced ((byKey (pairs entries)).map (·.2)) ++ Text.bytes "]"
where
  displays : List Datum → List (List UInt8)
    | [] => []
    | d :: rest => d.display :: displays rest
  pairs : List (List UInt8 × Datum) → List (List UInt8 × List UInt8)
    | [] => []
    | (k, d) :: rest => (k, k ++ Text.bytes ":" ++ d.display) :: pairs rest

def printed : Datum → List UInt8
  | .nil => Text.bytes "<no value>"
  | d => d.display

def truth : Datum → Bool
  | .nil => false
  | .bool b => b
  | .int n | .long n => n ≠ 0
  | .byte n => n ≠ 0
  | .float x => !(x == 0)
  | .text s => !s.isEmpty
  | .list items => !items.isEmpty
  | .map entries => !entries.isEmpty

def typeName : Datum → String
  | .nil => "<nil>"
  | .bool _ => "bool"
  | .int _ => "int"
  | .long _ => "int64"
  | .byte _ => "uint8"
  | .float _ => "float64"
  | .text _ => "string"
  | .list _ => "[]interface \x7b\x7d"
  | .map _ => "map[string]interface \x7b\x7d"

end Datum

end Flowsheet.Template
