import Flowsheet.Time.Instant

set_option autoImplicit false

namespace Flowsheet.Yaml

structure Timestamp where
  year : Nat
  month : Nat
  day : Nat
  hour : Nat := 0
  minute : Nat := 0
  second : Nat := 0
  nanos : Nat := 0
  offset : Int := 0
deriving DecidableEq, Repr

namespace Timestamp

open Instant (daysIn digits fractionText mark?)

def digit? (c : Char) : Option Nat := if c.isDigit then some (c.toNat - 48) else none

def field? : List Char → Option (Nat × List Char)
  | a :: b :: rest => do
    let x ← digit? a
    match digit? b with
    | some y => some (10 * x + y, rest)
    | none => some (x, b :: rest)
  | [a] => (digit? a).map fun x => (x, [])
  | [] => none

def date? (cs : List Char) : Option (Timestamp × List Char) := do
  let front := cs.takeWhile Char.isDigit
  if front.length ≠ 4 then none
  let year := front.foldl (fun n c => 10 * n + (c.toNat - 48)) 0
  let cs ← mark? '-' (cs.drop 4)
  let (month, cs) ← field? cs
  if month < 1 || 12 < month then none
  let cs ← mark? '-' cs
  let (day, cs) ← field? cs
  if day < 1 || daysIn year month < day then none
  some ({ year := year, month := month, day := day }, cs)

def fraction (cs : List Char) : Nat × List Char :=
  -- A fraction of a second: nine digits count, more are passed over.
  match cs with
  | p :: rest =>
    let ds := rest.takeWhile Char.isDigit
    if (p = '.' || p = ',') && !ds.isEmpty then
      let kept := ds.take 9
      let n := kept.foldl (fun n c => 10 * n + (c.toNat - 48)) 0
      (n * Nat.pow 10 (9 - kept.length), rest.drop ds.length)
    else (0, cs)
  | [] => (0, [])

def clock? (t : Timestamp) (cs : List Char) : Option (Timestamp × List Char) := do
  let (hour, cs) ← field? cs
  if 24 ≤ hour then none
  let cs ← mark? ':' cs
  let (minute, cs) ← field? cs
  if 60 ≤ minute then none
  let cs ← mark? ':' cs
  let (second, cs) ← field? cs
  if 60 ≤ second then none
  let (nanos, cs) := fraction cs
  some ({ t with hour := hour, minute := minute, second := second, nanos := nanos }, cs)

def zone? : List Char → Option Int
  | ['Z'] => some 0
  | [s, a, b, ':', c, d] => do
    let a ← digit? a
    let b ← digit? b
    let c ← digit? c
    let d ← digit? d
    if 24 < 10 * a + b || 60 < 10 * c + d then none
    let seconds : Int := Int.ofNat ((10 * a + b) * 60 + (10 * c + d)) * 60
    if s = '+' then some seconds else if s = '-' then some (-seconds) else none
  | _ => none

def parse? (text : String) : Option Timestamp := do
  let (t, cs) ← date? text.toList
  match cs with
  | [] => some t
  | c :: rest =>
    if c = 'T' || c = 't' then
      let (t, cs) ← clock? t rest
      let offset ← zone? cs
      some { t with offset := offset }
    else if c = ' ' then
      let (t, cs) ← clock? t (rest.dropWhile (· = ' '))
      if cs.isEmpty then some t else none
    else none

def offsetText (colon : Bool) (offset : Int) : String :=
  let minutes := offset.natAbs / 60
  (if offset < 0 then "-" else "+") ++ digits 2 (minutes / 60) ++ (if colon then ":" else "") ++
    digits 2 (minutes % 60)

def dateText (t : Timestamp) : String :=
  digits 4 t.year ++ "-" ++ digits 2 t.month ++ "-" ++ digits 2 t.day

def clockText (t : Timestamp) : String :=
  digits 2 t.hour ++ ":" ++ digits 2 t.minute ++ ":" ++ digits 2 t.second ++ fractionText t.nanos

def display (t : Timestamp) : String :=
  let zone := offsetText false t.offset
  t.dateText ++ " " ++ t.clockText ++ " " ++ zone ++ " " ++ (if t.offset = 0 then "UTC" else zone)

def json? (t : Timestamp) : Option String :=
  if 24 * 3600 ≤ t.offset.natAbs then none
  else
    some (t.dateText ++ "T" ++ t.clockText ++
      (if t.offset = 0 then "Z" else offsetText true t.offset))

end Timestamp

end Flowsheet.Yaml
