import Flowsheet.Formula.Basic

set_option autoImplicit false

namespace Flowsheet.Formula

variable {N : Type}

def name? : Formula N → Option String
  | .name x => some x
  | _ => none

def isName (e : Formula N) : Bool := e.name?.isSome

def isNumber : Formula N → Bool
  | .number _ => true
  | _ => false

-- Names in increasing order, then compound factors, then numbers; the last two groups keep their order.
def sortFactors (fs : List (Formula N)) : List (Formula N) :=
  ((fs.filterMap name?).mergeSort (fun a b => decide (a ≤ b))).map .name ++
    (fs.filter fun e => !e.isName && !e.isNumber) ++ fs.filter isNumber

def productOr (unit : Formula N) : List (Formula N) → Formula N
  | [] => unit
  | f :: fs => fs.foldl (.binary .mul) f

-- The factors of the chain of products at the top, each in canonical form. A plus sign is transparent.
def factors : Formula N → List (Formula N)
  | .number v => [.number v]
  | .name x => [.name x]
  | .signed .plus e => e.factors
  | .signed .minus e => [.signed .minus (productOr e (sortFactors e.factors))]
  | .binary .mul l r => l.factors ++ r.factors
  | .binary op l r =>
    [.binary op (productOr l (sortFactors l.factors)) (productOr r (sortFactors r.factors))]

def canonical (e : Formula N) : Formula N := productOr e (sortFactors e.factors)

theorem factors_ne_nil (e : Formula N) : e.factors ≠ [] := by
  induction e with
  | number | name => simp [factors]
  | signed s e ih => cases s <;> simp [factors, ih]
  | binary op l r hl hr => cases op <;> simp [factors, hl]

end Flowsheet.Formula
