import Flowsheet.Formula.Basic
import Flowsheet.Text.Quoted

set_option autoImplicit false

namespace Flowsheet.Formula

def isSpace (b : UInt8) : Bool := b = 32 || b = 9 || b = 10 || b = 13

def isDigit (b : UInt8) : Bool := 48 ≤ b && b ≤ 57

def isNameStart (b : UInt8) : Bool :=
  b = 95 || (97 ≤ b && b ≤ 122) || (65 ≤ b && b ≤ 90)

def isNamePart (b : UInt8) : Bool := isNameStart b || isDigit b

def shown (bs : List UInt8) : String := String.ofList (bs.map fun b => Char.ofNat b.toNat)

structure Literal where
  whole : List UInt8
  fraction : Option (List UInt8) := none
  exponent : Option (UInt8 × Option UInt8 × List UInt8) := none
deriving DecidableEq, Repr

namespace Literal

def exponentText : Option (UInt8 × Option UInt8 × List UInt8) → List UInt8
  | none => []
  | some (mark, sign, digits) => mark :: (sign.toList ++ digits)

def fractionText : Option (List UInt8) → List UInt8
  | none => []
  | some digits => 46 :: digits

def text (l : Literal) : List UInt8 :=
  l.whole ++ fractionText l.fraction ++ exponentText l.exponent

def digitValue (b : UInt8) : Nat := b.toNat - 48

def digitsValue (start : Nat) (bs : List UInt8) : Nat :=
  Decimal.ofDigits start (bs.map digitValue)

def exponentValue : Option (UInt8 × Option UInt8 × List UInt8) → Int
  | none => 0
  | some (_, sign, digits) =>
    if sign = some 45 then -Int.ofNat (digitsValue 0 digits) else Int.ofNat (digitsValue 0 digits)

def decimal? (l : Literal) : Option Decimal :=
  let fraction := l.fraction.getD []
  if l.whole = [] ∧ fraction = [] then none
  else
    some ⟨digitsValue (digitsValue 0 l.whole) fraction,
      exponentValue l.exponent - fraction.length⟩

end Literal

def scanFraction : List UInt8 → Option (List UInt8) × List UInt8
  | [] => (none, [])
  | b :: rest =>
    if b = 46 then (some (rest.takeWhile isDigit), rest.dropWhile isDigit) else (none, b :: rest)

def scanExponent : List UInt8 → Option (UInt8 × Option UInt8 × List UInt8) × List UInt8
  -- An exponent belongs to the number only when digits follow its mark.
  | [] => (none, [])
  | mark :: rest =>
    if mark = 101 || mark = 69 then
      match rest with
      | [] => (none, [mark])
      | s :: rest' =>
        if s = 43 || s = 45 then
          if rest'.takeWhile isDigit = [] then (none, mark :: s :: rest')
          else (some (mark, some s, rest'.takeWhile isDigit), rest'.dropWhile isDigit)
        else if isDigit s then
          (some (mark, none, (s :: rest').takeWhile isDigit), (s :: rest').dropWhile isDigit)
        else (none, mark :: s :: rest')
    else (none, mark :: rest)

def scanNumber (bs : List UInt8) : Literal × List UInt8 :=
  let f := scanFraction (bs.dropWhile isDigit)
  let e := scanExponent f.2
  (⟨bs.takeWhile isDigit, f.1, e.1⟩, e.2)

theorem scanFraction_append (bs : List UInt8) :
    Literal.fractionText (scanFraction bs).1 ++ (scanFraction bs).2 = bs := by
  cases bs with
  | nil => rfl
  | cons b rest =>
    by_cases h : b = 46 <;> simp [scanFraction, Literal.fractionText, h]

theorem scanExponent_append (bs : List UInt8) :
    Literal.exponentText (scanExponent bs).1 ++ (scanExponent bs).2 = bs := by
  fun_cases scanExponent bs <;> simp [Literal.exponentText]

theorem scanNumber_append (bs : List UInt8) :
    (scanNumber bs).1.text ++ (scanNumber bs).2 = bs := by
  simp [scanNumber, Literal.text, List.append_assoc, scanExponent_append, scanFraction_append]

theorem scanNumber_lt (b : UInt8) (rest : List UInt8) (h : isDigit b || b = 46) :
    (scanNumber (b :: rest)).2.length ≤ rest.length := by
  have hlen := congrArg List.length (scanNumber_append (b :: rest))
  have hpos : 1 ≤ (scanNumber (b :: rest)).1.text.length := by
    by_cases hd : isDigit b
    · simp [scanNumber, Literal.text, hd]
    · obtain rfl : b = 46 := by simpa [hd] using h
      have h46 : isDigit 46 = false := by decide
      simp [scanNumber, Literal.text, scanFraction, Literal.fractionText, h46]
  simp only [List.length_append, List.length_cons] at hlen
  omega

inductive Token (N : Type) where
  | number (value : N)
  | name (id : String)
  | operator (op : Operator)
  | openParen
  | closeParen
deriving DecidableEq, Repr

structure Lexeme (N : Type) where
  token : Token N
  text : String
  offset : Nat
deriving DecidableEq, Repr

inductive Fault where
  | empty
  | unknownToken (text : String) (offset : Nat)
  | invalidNumber (text : String) (offset : Nat)
  | unexpected (text : Option String) (offset : Nat)
  | unbalanced (offset : Nat)
  | unclosed (offset : Nat)
deriving DecidableEq, Repr

def operator? (b : UInt8) : Option Operator :=
  if b = 43 then some .add
  else if b = 45 then some .sub
  else if b = 42 then some .mul
  else if b = 47 then some .div
  else none

def lexemes {N : Type} [Quantity N] (offset : Nat) :
    List UInt8 → Except Fault (List (Lexeme N))
  | [] => .ok []
  | b :: rest =>
    if isSpace b then lexemes (offset + 1) rest
    else if let some op := operator? b then do
      return ⟨.operator op, shown [b], offset⟩ :: (← lexemes (offset + 1) rest)
    else if b = 40 then do return ⟨.openParen, "(", offset⟩ :: (← lexemes (offset + 1) rest)
    else if b = 41 then do return ⟨.closeParen, ")", offset⟩ :: (← lexemes (offset + 1) rest)
    else if h : isDigit b || b = 46 then
      let literal := (scanNumber (b :: rest)).1
      let after := (scanNumber (b :: rest)).2
      match literal.decimal?.bind Quantity.ofDecimal? with
      | none => .error (.invalidNumber (shown literal.text) offset)
      | some value =>
        match after.head? with
        | some c =>
          if isNameStart c then .error (.unknownToken (shown (literal.text ++ [c])) offset)
          else do
            return ⟨.number value, shown literal.text, offset⟩ ::
              (← lexemes (offset + literal.text.length) after)
        | none => .ok [⟨.number value, shown literal.text, offset⟩]
    else if isNameStart b then
      let id := b :: rest.takeWhile isNamePart
      do
        return ⟨.name (shown id), shown id, offset⟩ ::
          (← lexemes (offset + id.length) (rest.dropWhile isNamePart))
    else .error (.unknownToken (shown [b]) offset)
termination_by bs => bs.length
decreasing_by
  all_goals simp only [List.length_cons]
  all_goals first
    | omega
    | (have hlt := scanNumber_lt b rest h; omega)
    | (have hle := (List.dropWhile_sublist isNamePart (l := rest)).length_le; omega)

end Flowsheet.Formula
