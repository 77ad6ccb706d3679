import Flowsheet.Formula.Printer
import Flowsheet.Lookup

set_option autoImplicit false

namespace Flowsheet

abbrev Values (N : Type) := List (String × N)

namespace Values

variable {N : Type}

def get? (vs : Values N) (x : String) : Option N := vs.lookup x

def has (vs : Values N) (x : String) : Bool := (vs.get? x).isSome

def set (vs : Values N) (x : String) (v : N) : Values N :=
  (x, v) :: vs.filter fun p => !(p.1 == x)

@[simp] theorem get?_set_self (vs : Values N) (x : String) (v : N) :
    (vs.set x v).get? x = some v := by
  simp [get?, set]

@[simp] theorem get?_set_of_ne (vs : Values N) {x y : String} (v : N) (h : y ≠ x) :
    (vs.set x v).get? y = vs.get? y := by
  have hyx : (y == x) = false := by simpa using h
  simp [get?, set, List.lookup_cons, hyx, lookup_filter_ne h vs]

end Values

namespace Formula

variable {N : Type}

inductive EvalError (N : Type) where
  | unbound (names : List String)
  | divisionByZero (quotient : Formula N)
deriving DecidableEq, Repr

variable [Quantity N]

def EvalError.message : EvalError N → String
  | .unbound names => "unbound reference: " ++ ", ".intercalate names
  | .divisionByZero quotient => "division by zero: " ++ quotient.print

def eval (value : String → Option N) : Formula N → Except (EvalError N) N
  -- Computes from left to right and stops at the first zero divisor.
  | .number v => .ok v
  | .name x =>
    match value x with
    | some v => .ok v
    | none => .error (.unbound [x])
  | .signed s e =>
    match e.eval value with
    | .error err => .error err
    | .ok v => .ok (if s = .minus then -v else v)
  | .binary op l r =>
    match l.eval value with
    | .error err => .error err
    | .ok a =>
      match r.eval value with
      | .error err => .error err
      | .ok b =>
        match op with
        | .add => .ok (a + b)
        | .sub => .ok (a - b)
        | .mul => .ok (a * b)
        | .div =>
          if Quantity.isZero b then .error (.divisionByZero (.binary .div l r)) else .ok (a / b)

def missing (value : String → Option N) (e : Formula N) : List String :=
  e.identifiers.filter fun x => (value x).isNone

def substitute (value : String → Option N) (e : Formula N) : Except (EvalError N) N :=
  if e.missing value = [] then e.eval value else .error (.unbound (e.missing value))

end Formula

end Flowsheet
