import Flowsheet.Time.Duration

set_option autoImplicit false

namespace Flowsheet

structure Instant where
  nanoseconds : Int
deriving DecidableEq, Repr

namespace Instant

def daysFromCivil (y m d : Int) : Int :=
  let y := if m ≤ 2 then y - 1 else y
  let era := y.fdiv 400
  let yoe := y - era * 400
  let doy := (153 * (if m > 2 then m - 3 else m + 9) + 2) / 5 + d - 1
  let doe := yoe * 365 + yoe / 4 - yoe / 100 + doy
  era * 146097 + doe - 719468

def civilFromDays (days : Int) : Int × Int × Int :=
  let z := days + 719468
  let era := z.fdiv 146097
  let doe := z - era * 146097
  let yoe := (doe - doe / 1460 + doe / 36524 - doe / 146096) / 365
  let doy := doe - (365 * yoe + yoe / 4 - yoe / 100)
  let mp := (5 * doy + 2) / 153
  let d := doy - (153 * mp + 2) / 5 + 1
  let m := if mp < 10 then mp + 3 else mp - 9
  (yoe + era * 400 + (if m ≤ 2 then 1 else 0), m, d)

def isLeap (y : Nat) : Bool := (y % 4 = 0 && y % 100 ≠ 0) || y % 400 = 0

def daysIn (y m : Nat) : Nat :=
  if m = 2 then if isLeap y then 29 else 28
  else if m = 4 || m = 6 || m = 9 || m = 11 then 30
  else 31

def zero : Instant := ⟨daysFromCivil 1 1 1 * 86400000000000⟩

def isZero (t : Instant) : Bool := t = zero

def since (now t : Instant) : Duration :=
  ⟨max (-Duration.limit) (min (Duration.limit - 1) (now.nanoseconds - t.nanoseconds))⟩

def day (t : Instant) : Int := (t.nanoseconds.fdiv 1000000000).fdiv 86400

@[irreducible] def isWritable (t : Instant) : Bool :=
  let (y, _, _) := civilFromDays t.day
  0 ≤ y && y ≤ 9999

def digits (width n : Nat) : String :=
  let s := n.repr
  String.ofList (List.replicate (width - s.length) '0') ++ s

def dateText (day : Int) : String :=
  let (y, m, d) := civilFromDays day
  s!"{digits 4 y.toNat}-{digits 2 m.toNat}-{digits 2 d.toNat}"

def clockText (seconds : Nat) : String :=
  s!"{digits 2 (seconds / 3600)}:{digits 2 (seconds / 60 % 60)}:{digits 2 (seconds % 60)}"

def fractionText (nanos : Nat) : String :=
  match ((digits 9 nanos).toList.reverse.dropWhile (· = '0')).reverse with
  | [] => ""
  | ds => "." ++ String.ofList ds

def text (t : Instant) : String :=
  let seconds := t.nanoseconds.fdiv 1000000000
  let nanos := (t.nanoseconds - seconds * 1000000000).toNat
  dateText t.day ++ "T" ++ clockText (seconds - t.day * 86400).toNat ++ fractionText nanos ++ "Z"

def number? (cs : List Char) : Option Nat :=
  if cs.all Char.isDigit && !cs.isEmpty then
    some (cs.foldl (fun n c => n * 10 + (c.toNat - 48)) 0)
  else none

def pair? (most : Nat) : List Char → Option (Nat × List Char)
  | a :: b :: rest => do
    let n ← number? [a, b]
    if n ≤ most then some (n, rest) else none
  | _ => none

def mark? (c : Char) : List Char → Option (List Char)
  | x :: rest => if x = c then some rest else none
  | [] => none

def offset? : List Char → Option Int
  | ['Z'] => some 0
  | sign :: rest => do
    let (h, rest) ← pair? 24 rest
    let rest ← mark? ':' rest
    let (m, rest) ← pair? 60 rest
    if !rest.isEmpty then none
    else
      let n := Int.ofNat (h * 3600 + m * 60)
      if sign = '+' then some n else if sign = '-' then some (-n) else none
  | [] => none

def date? (cs : List Char) : Option (Int × List Char) := do
  let year ← number? (cs.take 4)
  let cs ← mark? '-' (cs.drop 4)
  let (month, cs) ← pair? 12 cs
  let cs ← mark? '-' cs
  let (day, cs) ← pair? 31 cs
  if month < 1 || day < 1 || daysIn year month < day then none
  else some (daysFromCivil year month day, cs)

def hour? : List Char → Option (Nat × List Char)
  -- One digit is enough.
  | a :: b :: rest => if b.isDigit then pair? 23 (a :: b :: rest) else (number? [a]).map (·, b :: rest)
  | _ => none

def clock? (cs : List Char) : Option (Nat × List Char) := do
  let (hour, cs) ← hour? cs
  let cs ← mark? ':' cs
  let (minute, cs) ← pair? 59 cs
  let cs ← mark? ':' cs
  let (second, cs) ← pair? 59 cs
  some (hour * 3600 + minute * 60 + second, cs)

def fraction? : List Char → Option (Nat × List Char)
  | c :: rest =>
    if c = '.' || c = ',' then
      let ds := rest.takeWhile Char.isDigit
      let kept := ds.take 9
      if ds.isEmpty then none
      else (number? kept).map fun n => (n * Nat.pow 10 (9 - kept.length), rest.drop ds.length)
    else some (0, c :: rest)
  | [] => some (0, [])

def parse? (s : String) : Option Instant := do
  let (day, cs) ← date? s.toList
  let cs ← mark? 'T' cs
  let (seconds, cs) ← clock? cs
  let (nanos, cs) ← fraction? cs
  let offset ← offset? cs
  return ⟨(day * 86400 + Int.ofNat seconds - offset) * 1000000000 + Int.ofNat nanos⟩

end Instant

end Flowsheet
