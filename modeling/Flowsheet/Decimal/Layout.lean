import Flowsheet.Decimal.Shortest

set_option autoImplicit false

namespace Flowsheet.Decimal

def zeros (n : Nat) : List Char := List.replicate n '0'

def positional (d : Decimal) : List Char :=
  let ds := d.digits
  if 0 ≤ d.exponent then
    if d.coefficient = 0 then ['0'] else ds ++ zeros d.exponent.toNat
  else
    let places := (-d.exponent).toNat
    if places < ds.length then ds.take (ds.length - places) ++ '.' :: ds.drop (ds.length - places)
    else '0' :: '.' :: zeros (places - ds.length) ++ ds

def scientific (width : Nat) (d : Decimal) : List Char :=
  let e := d.leading
  let exponent := e.natAbs.repr.toList
  let significand :=
    match d.digits with
    | [] => ['0']
    | [c] => [c]
    | c :: cs => c :: '.' :: cs
  significand ++ 'e' :: (if e < 0 then '-' else '+') ::
    (zeros (width - exponent.length) ++ exponent)

structure Layout where
  positionalFrom : Option Int
  positionalBelow : Option Int
  exponentWidth : Nat

def Layout.isPositional (l : Layout) (d : Decimal) : Bool :=
  d.coefficient = 0 ||
    (l.positionalFrom.all (· ≤ d.leading) && l.positionalBelow.all (d.leading < ·))

def Layout.finite (l : Layout) (d : Decimal) : List Char :=
  if l.isPositional d then positional d else scientific l.exponentWidth d

def Layout.text (l : Layout) (x : Float) : String :=
  let sign := if isNegative x then ['-'] else []
  match magnitude x with
  | .finite m q => String.ofList (sign ++ l.finite (shortest m q))
  | .infinite => if isNegative x then "-Inf" else "+Inf"
  | .undefined => "NaN"

def Layout.plain : Layout := ⟨none, none, 2⟩

def Layout.general : Layout := ⟨some (-4), some 6, 2⟩

def Layout.json : Layout := ⟨some (-6), some 21, 1⟩

def fixed (places : Nat) (x : Float) : String :=
  let sign := if isNegative x then ['-'] else []
  match magnitude x with
  | .finite m q =>
    let n := roundHalfEven (m * Nat.pow 2 q.toNat * Nat.pow 10 places) (Nat.pow 2 (-q).toNat)
    let d : Decimal := ⟨n, -Int.ofNat places⟩
    String.ofList (sign ++ positional d)
  | .infinite => if isNegative x then "-Inf" else "+Inf"
  | .undefined => "NaN"

def significant (count : Nat) (m : Nat) (q : Int) : Decimal :=
  if m = 0 then ⟨0, 0⟩
  else
    let exact (place : Int) : Nat :=
      roundHalfEven (m * Nat.pow 2 q.toNat * Nat.pow 10 (-place).toNat)
        (Nat.pow 2 (-q).toNat * Nat.pow 10 place.toNat)
    let place := (shortest m q).leading - count + 1
    let n := exact place
    if n.repr.length ≤ count then ⟨n, place⟩ else ⟨exact (place + 1), place + 1⟩

def exponential (places : Nat) (x : Float) : String :=
  let sign := if isNegative x then ['-'] else []
  match magnitude x with
  | .finite m q =>
    let d := significant (places + 1) m q
    let d : Decimal := if d.coefficient = 0 then ⟨0, 0⟩ else d
    let text := scientific 2 d
    let text :=
      if d.coefficient = 0 then
        '0' :: (if places = 0 then [] else '.' :: zeros places) ++ ['e', '+', '0', '0']
      else text
    String.ofList (sign ++ text)
  | .infinite => if isNegative x then "-Inf" else "+Inf"
  | .undefined => "NaN"

end Flowsheet.Decimal
