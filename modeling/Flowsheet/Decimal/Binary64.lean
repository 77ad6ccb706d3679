import Flowsheet.Decimal.Basic

set_option autoImplicit false

namespace Flowsheet.Decimal

/-- What the bits of a float stand for, sign apart: `m * 2 ^ q`, infinity, or no number. -/
inductive Magnitude where
  | finite (m : Nat) (q : Int)
  | infinite
  | undefined
deriving DecidableEq, Repr

def isNegative (x : Float) : Bool := 0x8000000000000000 ≤ x.toBits.toNat

def magnitude (x : Float) : Magnitude :=
  let bits := x.toBits.toNat % 0x8000000000000000
  let e := bits / 0x10000000000000
  let m := bits % 0x10000000000000
  if e = 0x7FF then if m = 0 then .infinite else .undefined
  else if e = 0 then .finite m (-1074)
  else .finite (0x10000000000000 + m) (Int.ofNat e - 1075)

def isFinite (x : Float) : Bool :=
  match magnitude x with
  | .finite .. => true
  | _ => false

def nearestBits (num den : Nat) : Option Nat :=
  if num = 0 then some 0
  else
    let scaled (q : Int) : Nat × Nat :=
      if 0 ≤ q then (num, den * Nat.pow 2 q.toNat) else (num * Nat.pow 2 (-q).toNat, den)
    let wide : Int := (Int.ofNat num.log2 - Int.ofNat den.log2) - 53
    let fit := if 0x20000000000000 ≤ (scaled wide).1 / (scaled wide).2 then wide + 1 else wide
    let q := max fit (-1074)
    let m := roundHalfEven (scaled q).1 (scaled q).2
    let bits :=
      if m < 0x10000000000000 then m
      else if m = 0x20000000000000 then (q + 1076).toNat * 0x10000000000000
      else (q + 1075).toNat * 0x10000000000000 + (m - 0x10000000000000)
    if bits < 0x7FF0000000000000 then some bits else none

def toFloat? (d : Decimal) : Option Float :=
  let place := d.leading
  if d.coefficient = 0 || place < -340 then some 0
  else if 320 < place then none
  else
    let num := d.coefficient * Nat.pow 10 d.exponent.toNat
    let den := Nat.pow 10 (-d.exponent).toNat
    (nearestBits num den).map fun bits => Float.ofBits (UInt64.ofNat bits)

def infinity : Float := Float.ofBits 0x7FF0000000000000

def notANumber : Float := Float.ofBits 0x7FF8000000000001

end Flowsheet.Decimal
