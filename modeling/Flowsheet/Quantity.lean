import Flowsheet.Decimal.Layout

set_option autoImplicit false

namespace Flowsheet

/-- The numbers that formulas compute with. Programs run on floats; the exact laws hold over
any type with these operations. -/
class Quantity (N : Type) extends Add N, Sub N, Mul N, Div N, Neg N where
  ofDecimal? : Decimal → Option N
  zero : N
  isZero : N → Bool
  le : N → N → Bool
  lt : N → N → Bool
  same : N → N → Bool
  cents : N → N
  differs : N → N → Bool
  plain : N → String
  general : N → String

instance : Quantity Float where
  ofDecimal? := Decimal.toFloat?
  zero := 0
  isZero x := x == 0
  le x y := x ≤ y
  lt x y := x < y
  same x y := x == y
  cents x := (x * 100).round / 100
  differs x y := 1e-9 < (x - y).abs
  plain := Decimal.Layout.plain.text
  general := Decimal.Layout.general.text

end Flowsheet
