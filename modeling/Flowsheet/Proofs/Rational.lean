import Mathlib.Algebra.Field.Rat
import Mathlib.Algebra.Order.Ring.Rat
import Mathlib.Data.Rat.Floor
import Flowsheet.Quantity

set_option autoImplicit false

namespace Flowsheet

def Decimal.toRat (d : Decimal) : ℚ := d.coefficient * 10 ^ d.exponent

namespace Rational

def places? (x : ℚ) : Option Nat :=
  (List.range (x.den.log2 + 1)).find? fun k => decide (x.den ∣ 10 ^ k)

def decimal? (x : ℚ) : Option Decimal :=
  (places? x).map fun k => ⟨x.num.natAbs * 10 ^ k / x.den, -Int.ofNat k⟩

def text (layout : Decimal.Layout) (x : ℚ) : String :=
  match decimal? x with
  | some d => String.ofList ((if x < 0 then ['-'] else []) ++ layout.finite d)
  | none => toString x.num ++ "/" ++ toString x.den

def round (x : ℚ) : ℚ := if x < 0 then ⌈x - 1 / 2⌉ else ⌊x + 1 / 2⌋

end Rational

instance : Quantity ℚ where
  ofDecimal? d := some d.toRat
  zero := 0
  isZero x := decide (x = 0)
  le x y := decide (x ≤ y)
  lt x y := decide (x < y)
  same x y := decide (x = y)
  cents x := Rational.round (x * 100) / 100
  differs x y := decide (1 / 1000000000 < |x - y|)
  plain := Rational.text .plain
  general := Rational.text .general

end Flowsheet
