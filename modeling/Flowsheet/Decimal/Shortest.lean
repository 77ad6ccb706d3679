import Flowsheet.Decimal.Binary64

set_option autoImplicit false

namespace Flowsheet.Decimal

/-- The reals that round to a float, as numerators over `4 * den`: lower end, value, upper end.
The ends themselves round to the float exactly when its significand is even. -/
structure Cell where
  low : Nat
  value : Nat
  high : Nat
  den : Nat
  closed : Bool

def cell (m : Nat) (q : Int) : Cell :=
  -- Below a power of two the neighbouring float is half as far away.
  let up := Nat.pow 2 q.toNat
  let gap := if m = 0x10000000000000 ∧ -1074 < q then 1 else 2
  ⟨(4 * m - gap) * up, 4 * m * up, (4 * m + 2) * up, 4 * Nat.pow 2 (-q).toNat, m % 2 = 0⟩

def Cell.contains (c : Cell) (num den : Nat) : Bool :=
  if c.closed then c.low * den ≤ num * c.den && num * c.den ≤ c.high * den
  else c.low * den < num * c.den && num * c.den < c.high * den

def Cell.onGrid? (c : Cell) (place : Int) : Option Decimal :=
  let up := Nat.pow 10 place.toNat
  let down := Nat.pow 10 (-place).toNat
  let below := c.value * down / (c.den * up)
  let nearest := roundHalfEven (c.value * down) (c.den * up)
  let other := if nearest = below then below + 1 else below
  if c.contains (nearest * up) down then some ⟨nearest, place⟩
  else if c.contains (other * up) down then some ⟨other, place⟩
  else none

def Cell.search (c : Cell) : Nat → Int → Option Decimal
  -- Tries finer and finer grids, starting at `place`.
  | 0, _ => none
  | fuel + 1, place =>
    match c.onGrid? place with
    | some d => some d
    | none => c.search fuel (place - 1)

def shortest (m : Nat) (q : Int) : Decimal :=
  if m = 0 then ⟨0, 0⟩
  else
    let top := (Int.ofNat m.log2 + q) * 30103 / 100000 + 1
    match (cell m q).search 24 top with
    | some d => d.reduce 20
    | none => ⟨0, 0⟩

end Flowsheet.Decimal
