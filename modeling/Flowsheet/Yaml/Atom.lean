import Flowsheet.Yaml.Timestamp
import Flowsheet.Decimal.Reader
import Flowsheet.Word

set_option autoImplicit false

namespace Flowsheet.Yaml

inductive Atom where
  | null
  | bool (b : Bool)
  | int (n : Int)
  | float (x : Float)
  | time (t : Timestamp)
  | text (s : String)

namespace Atom

def tag : Atom → String
  | .null => "!!null"
  | .bool _ => "!!bool"
  | .int _ => "!!int"
  | .float _ => "!!float"
  | .time _ => "!!timestamp"
  | .text _ => "!!str"

def words : List (String × Atom) :=
  [("", .null), ("~", .null), ("null", .null), ("Null", .null), ("NULL", .null),
   ("true", .bool true), ("True", .bool true), ("TRUE", .bool true),
   ("false", .bool false), ("False", .bool false), ("FALSE", .bool false),
   (".nan", .float Decimal.notANumber), (".NaN", .float Decimal.notANumber),
   (".NAN", .float Decimal.notANumber),
   (".inf", .float Decimal.infinity), (".Inf", .float Decimal.infinity),
   (".INF", .float Decimal.infinity),
   ("+.inf", .float Decimal.infinity), ("+.Inf", .float Decimal.infinity),
   ("+.INF", .float Decimal.infinity),
   ("-.inf", .float (-Decimal.infinity)), ("-.Inf", .float (-Decimal.infinity)),
   ("-.INF", .float (-Decimal.infinity))]

def inBase? (base : Nat) (cs : List Char) : Option Nat := do
  let ds ← cs.mapM (Decimal.digitIn? base)
  if ds.isEmpty then none else some (ds.foldl (fun n d => base * n + d) 0)

def magnitude? : List Char → Option Nat
  | '0' :: x :: rest =>
    match Decimal.lowered x with
    | 'x' => inBase? 16 rest
    | 'o' => inBase? 8 rest
    | 'b' => inBase? 2 rest
    | _ => inBase? 8 (x :: rest)
  | cs => inBase? 10 cs

def int? (cs : List Char) : Option Int :=
  -- An integer that fits 64 bits; without a sign the upper half counts too.
  match cs with
  | '-' :: rest => (magnitude? rest).bind fun n => if n ≤ Word.half then some (-Int.ofNat n) else none
  | '+' :: rest => (magnitude? rest).bind fun n => if n < Word.half then some (Int.ofNat n) else none
  | _ => (magnitude? cs).bind fun n => if n < Word.count then some (Int.ofNat n) else none

def isDecimalForm (cs : List Char) : Bool :=
  let cs := (Decimal.splitSign cs).2
  let (whole, rest) := cs.span Char.isDigit
  let (fraction, rest) :=
    match rest with
    | '.' :: r => (some (r.takeWhile Char.isDigit), r.dropWhile Char.isDigit)
    | _ => (none, rest)
  let mantissa := !whole.isEmpty || fraction.any (!·.isEmpty)
  let exponent :=
    match rest with
    | [] => true
    | e :: r =>
      let ds := (Decimal.splitSign r).2
      (e = 'e' || e = 'E') && !ds.isEmpty && ds.all Char.isDigit
  mantissa && exponent

def number? (text : String) : Option Atom :=
  let cs := text.toList.filter (· ≠ '_')
  match int? cs with
  | some n => some (.int n)
  | none =>
    if isDecimalForm cs then (Decimal.readFloat? (String.ofList cs)).map .float else none

def implicit (dates : Bool) (text : String) : Atom :=
  match words.lookup text with
  | some a => a
  | none =>
    match text.toList with
    | [] => .null
    | c :: _ =>
      if c = '.' then ((Decimal.readFloat? text).map .float).getD (.text text)
      else if c.isDigit || c = '+' || c = '-' then
        match if dates then Timestamp.parse? text else none with
        | some t => .time t
        | none => (number? text).getD (.text text)
      else .text text

def base64Value? (c : Char) : Option Nat :=
  if 'A' ≤ c ∧ c ≤ 'Z' then some (c.toNat - 65)
  else if 'a' ≤ c ∧ c ≤ 'z' then some (c.toNat - 71)
  else if '0' ≤ c ∧ c ≤ '9' then some (c.toNat + 4)
  else if c = '+' then some 62
  else if c = '/' then some 63
  else none

def base64? (cs : List Char) : Option (List UInt8) :=
  let rec go : List Char → Option (List UInt8)
    | [] => some []
    | [a, b, '=', '='] => do
      let a ← base64Value? a
      let b ← base64Value? b
      some [UInt8.ofNat (a * 4 + b / 16)]
    | [a, b, c, '='] => do
      let a ← base64Value? a
      let b ← base64Value? b
      let c ← base64Value? c
      some [UInt8.ofNat (a * 4 + b / 16), UInt8.ofNat (b % 16 * 16 + c / 4)]
    | a :: b :: c :: d :: rest => do
      let a ← base64Value? a
      let b ← base64Value? b
      let c ← base64Value? c
      let d ← base64Value? d
      let more ← go rest
      some (UInt8.ofNat (a * 4 + b / 16) :: UInt8.ofNat (b % 16 * 16 + c / 4) ::
        UInt8.ofNat (c % 4 * 64 + d) :: more)
    | _ => none
  go (cs.filter fun c => c ≠ '\n' && c ≠ '\r')

def read? (tag : String) (plain : Bool) (text : String) : Option Atom :=
  if tag = "" then some (if plain then implicit true text else .text text)
  else if tag = "!!str" then some (.text text)
  else
    match implicit (tag = "!!timestamp") text with
    | .int n => if tag = "!!int" then some (.int n)
      else if tag = "!!float" && n < Int.ofNat Word.half then some (.float (Float.ofInt n)) else none
    | a => if a.tag = tag then some a else none

end Atom

end Flowsheet.Yaml
