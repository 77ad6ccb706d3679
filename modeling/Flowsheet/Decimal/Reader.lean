import Flowsheet.Decimal.Binary64

set_option autoImplicit false

namespace Flowsheet.Decimal

def lowered (c : Char) : Char :=
  if 'A' ≤ c ∧ c ≤ 'Z' then Char.ofNat (c.toNat + 32) else c

def digitIn? (base : Nat) (c : Char) : Option Nat :=
  let c := lowered c
  let n :=
    if '0' ≤ c ∧ c ≤ '9' then some (c.toNat - 48)
    else if 'a' ≤ c ∧ c ≤ 'z' then some (c.toNat - 87)
    else none
  n.filter (· < base)

def spanDigits (base : Nat) (cs : List Char) : List Char × List Char :=
  cs.span fun c => c = '_' || (digitIn? base c).isSome

def valueIn (base start : Nat) (cs : List Char) : Nat :=
  (cs.filterMap (digitIn? base)).foldl (fun n d => base * n + d) start

def countIn (base : Nat) (cs : List Char) : Nat := (cs.filterMap (digitIn? base)).length

def underscoresSeparate (isDigit : Char → Bool) (afterDigit : Bool) : List Char → Bool
  -- An underscore stands between two digits, or between a base mark and a digit.
  | [] => true
  | '_' :: rest =>
    afterDigit &&
      match rest with
      | [] => false
      | c :: _ => isDigit c && underscoresSeparate isDigit false rest
  | c :: rest => underscoresSeparate isDigit (isDigit c) rest

def splitSign : List Char → Bool × List Char
  | '-' :: rest => (true, rest)
  | '+' :: rest => (false, rest)
  | cs => (false, cs)

def withSign (negative : Bool) (x : Float) : Float := if negative then -x else x

def exponent? (cs : List Char) : Option Int :=
  let (negative, ds) := splitSign cs
  match ds with
  | c :: _ =>
    if c.isDigit && ds.all (fun c => c.isDigit || c = '_') then
      let n := Int.ofNat (valueIn 10 0 ds)
      some (if negative then -n else n)
    else none
  | [] => none

private def splitPoint (base : Nat) (cs : List Char) : List Char × List Char × List Char :=
  let (whole, rest) := spanDigits base cs
  match rest with
  | '.' :: rest' =>
    let (fraction, rest'') := spanDigits base rest'
    (whole, fraction, rest'')
  | _ => (whole, [], rest)

private def decimalFloat? (cs : List Char) : Option Float :=
  let (whole, fraction, rest) := splitPoint 10 cs
  if countIn 10 whole + countIn 10 fraction = 0 then none
  else
    let e :=
      match rest with
      | [] => some 0
      | c :: rest' => if lowered c = 'e' then exponent? rest' else none
    e.bind fun e =>
      toFloat? ⟨valueIn 10 (valueIn 10 0 whole) fraction, e - countIn 10 fraction⟩

private def hexFloat? (cs : List Char) : Option Float :=
  let (whole, fraction, rest) := splitPoint 16 cs
  if countIn 16 whole + countIn 16 fraction = 0 then none
  else
    match rest with
    | [] => none
    | c :: rest' =>
      if lowered c = 'p' then
        (exponent? rest').bind fun e =>
          let m := valueIn 16 (valueIn 16 0 whole) fraction
          let q := e - 4 * countIn 16 fraction
          if m = 0 || Int.ofNat m.log2 + q < -1200 then some 0
          else if 1100 < Int.ofNat m.log2 + q then none
          else
            (nearestBits (m * Nat.pow 2 q.toNat) (Nat.pow 2 (-q).toNat)).map fun bits =>
              Float.ofBits (UInt64.ofNat bits)
      else none

def readFloat? (text : String) : Option Float :=
  let cs := text.toList
  let (negative, body) := splitSign cs
  let word := String.ofList (body.map lowered)
  if word = "inf" || word = "infinity" then some (withSign negative infinity)
  else if String.ofList (cs.map lowered) = "nan" then some notANumber
  else
    match body with
    | '0' :: x :: rest =>
      if lowered x = 'x' then
        if underscoresSeparate (fun c => (digitIn? 16 c).isSome) true rest then
          (hexFloat? rest).map (withSign negative)
        else none
      else if underscoresSeparate Char.isDigit false body then
        (decimalFloat? body).map (withSign negative)
      else none
    | _ =>
      if underscoresSeparate Char.isDigit false body then
        (decimalFloat? body).map (withSign negative)
      else none

end Flowsheet.Decimal
