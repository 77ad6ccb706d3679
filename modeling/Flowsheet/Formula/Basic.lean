import Flowsheet.Quantity

set_option autoImplicit false

namespace Flowsheet

inductive Sign where
  | plus
  | minus
deriving DecidableEq, Repr

inductive Operator where
  | add
  | sub
  | mul
  | div
deriving DecidableEq, Repr

def Operator.symbol : Operator → Char
  | .add => '+'
  | .sub => '-'
  | .mul => '*'
  | .div => '/'

def Sign.symbol : Sign → Char
  | .plus => '+'
  | .minus => '-'

def Operator.precedence : Operator → Nat
  | .add | .sub => 1
  | .mul | .div => 2

inductive Formula (N : Type) where
  | number (value : N)
  | name (id : String)
  | signed (sign : Sign) (body : Formula N)
  | binary (op : Operator) (left right : Formula N)
deriving DecidableEq, Repr

namespace Formula

variable {N : Type}

def same [Quantity N] : Formula N → Formula N → Bool
  | .number v, .number w => Quantity.same v w
  | .name x, .name y => x = y
  | .signed s e, .signed t f => s = t && e.same f
  | .binary o l r, .binary p l' r' => o = p && l.same l' && r.same r'
  | _, _ => false

def occurrences : Formula N → List String
  | .number _ => []
  | .name x => [x]
  | .signed _ e => e.occurrences
  | .binary _ l r => l.occurrences ++ r.occurrences

def identifiers (e : Formula N) : List String := e.occurrences.eraseDups

def rename (f : String → String) : Formula N → Formula N
  | .number v => .number v
  | .name x => .name (f x)
  | .signed s e => .signed s (e.rename f)
  | .binary o l r => .binary o (l.rename f) (r.rename f)

@[simp] theorem occurrences_rename (f : String → String) (e : Formula N) :
    (e.rename f).occurrences = e.occurrences.map f := by
  induction e with
  | number | name => rfl
  | signed s e ih => simpa [rename, occurrences] using ih
  | binary o l r hl hr => simp [rename, occurrences, hl, hr]

def size : Formula N → Nat
  | .number _ | .name _ => 1
  | .signed _ e => e.size + 1
  | .binary _ l r => l.size + r.size + 1

end Formula

end Flowsheet
