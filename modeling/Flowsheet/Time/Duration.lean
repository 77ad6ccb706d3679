import Flowsheet.Word

set_option autoImplicit false

namespace Flowsheet

structure Duration where
  nanoseconds : Int := 0
deriving DecidableEq, Repr

namespace Duration

def ofSeconds (n : Int) : Duration := ⟨n * 1000000000⟩

def zero : Duration := ⟨0⟩

def isPositive (d : Duration) : Bool := 0 < d.nanoseconds

instance : LE Duration := ⟨fun a b => a.nanoseconds ≤ b.nanoseconds⟩

instance : LT Duration := ⟨fun a b => a.nanoseconds < b.nanoseconds⟩

instance (a b : Duration) : Decidable (a ≤ b) :=
  inferInstanceAs (Decidable (a.nanoseconds ≤ b.nanoseconds))

instance (a b : Duration) : Decidable (a < b) :=
  inferInstanceAs (Decidable (a.nanoseconds < b.nanoseconds))

def unitLengths : List (String × Nat) :=
  [("ns", 1), ("us", 1000), ("\u00b5s", 1000), ("\u03bcs", 1000), ("ms", 1000000),
   ("s", 1000000000), ("m", 60000000000), ("h", 3600000000000)]

def limit : Nat := Word.half

def digitValue (c : Char) : Nat := c.toNat - 48

def whole? (digits : List Char) : Option Nat :=
  -- The value of leading digits, none if it is over the limit.
  let n := digits.foldl (fun n c => n * 10 + digitValue c) 0
  if n ≤ limit then some n else none

def fraction (digits : List Char) : Nat × Nat :=
  -- The value of the digits after a point with the power of ten it is divided by. Digits that no
  -- longer fit are dropped.
  (digits.foldl (fun (n, scale, full) c =>
    let next := n * 10 + digitValue c
    if full || n > (limit - 1) / 10 || next > limit then (n, scale, true)
    else (next, scale * 10, false)) (0, 1, false)).map id (·.1)

def fractionOf (part scale unit : Nat) : Nat :=
  -- A fraction of a unit in whole nanoseconds, computed in binary floating point.
  (Float.ofNat part * (Float.ofNat unit / Float.ofNat scale)).toUInt64.toNat

def term? (cs : List Char) : Option (Nat × List Char) := do
  let digits := cs.takeWhile Char.isDigit
  let rest := cs.dropWhile Char.isDigit
  let (places, rest) := match rest with
    | '.' :: r => (r.takeWhile Char.isDigit, r.dropWhile Char.isDigit)
    | r => ([], r)
  if digits.isEmpty && places.isEmpty then none
  let isUnit (c : Char) : Bool := c ≠ '.' && !c.isDigit
  let unit ← unitLengths.lookup (String.ofList (rest.takeWhile isUnit))
  let n ← whole? digits
  let (part, scale) := fraction places
  if n > limit / unit then none
  let total := n * unit + fractionOf part scale unit
  if total > limit then none
  return (total, rest.dropWhile isUnit)

def terms? : Nat → Nat → List Char → Option Nat
  | 0, _, _ => none
  | fuel + 1, sum, cs => do
    let (n, rest) ← term? cs
    let sum := sum + n
    if sum > limit then none
    else if rest.isEmpty then some sum
    else terms? fuel sum rest

def parse? (s : String) : Option Duration := do
  let (negative, cs) := match s.toList with
    | '-' :: r => (true, r)
    | '+' :: r => (false, r)
    | r => (false, r)
  if cs = ['0'] then return ⟨0⟩
  let n ← terms? cs.length 0 cs
  if negative then return ⟨-n⟩
  else if n < limit then return ⟨n⟩
  else none

def withPlaces (places n : Nat) : String :=
  let whole := n / Nat.pow 10 places
  let digits := (n % Nat.pow 10 places).repr.toList
  let digits := List.replicate (places - digits.length) '0' ++ digits
  match (digits.reverse.dropWhile (· = '0')).reverse with
  | [] => whole.repr
  | ds => whole.repr ++ "." ++ String.ofList ds

def unsignedText (n : Nat) : String :=
  if n = 0 then "0s"
  else if n < 1000 then n.repr ++ "ns"
  else if n < 1000000 then withPlaces 3 n ++ "\u00b5s"
  else if n < 1000000000 then withPlaces 6 n ++ "ms"
  else
    let minutes := n / 60000000000
    let seconds := withPlaces 9 (n % 60000000000) ++ "s"
    if minutes = 0 then seconds
    else if minutes < 60 then minutes.repr ++ "m" ++ seconds
    else (minutes / 60).repr ++ "h" ++ (minutes % 60).repr ++ "m" ++ seconds

def text (d : Duration) : String :=
  (if d.nanoseconds < 0 then "-" else "") ++ unsignedText d.nanoseconds.natAbs

end Duration

end Flowsheet
