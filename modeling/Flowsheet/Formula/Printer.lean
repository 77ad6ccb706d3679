import Flowsheet.Formula.Canonical

set_option autoImplicit false

namespace Flowsheet.Formula

variable {N : Type}

def precedence : Formula N → Nat
  | .binary op _ _ => op.precedence
  | .signed _ _ => 3
  | .number _ | .name _ => 4

def enclose (needed : Bool) (cs : List Char) : List Char :=
  if needed then '(' :: cs ++ [')'] else cs

def between (op : Operator) : List Char :=
  if op.precedence = 1 then [' ', op.symbol, ' '] else [op.symbol]

variable [Quantity N]

def write : Formula N → List Char
  | .number v => (Quantity.plain v).toList
  | .name x => x.toList
  | .signed s e => s.symbol :: enclose (e.precedence ≤ 3) e.write
  | .binary op l r =>
    enclose (l.precedence < op.precedence) l.write ++ between op ++
      enclose (r.precedence ≤ op.precedence) r.write

def print (e : Formula N) : String := String.ofList e.canonical.write

def tree : Formula N → String
  | .number v => Quantity.plain v
  | .name x => x
  | .signed s e => "(" ++ s.symbol.toString ++ " " ++ e.tree ++ ")"
  | .binary op l r =>
    "(" ++ op.symbol.toString ++ " " ++ l.tree ++ " " ++ r.tree ++ ")"

end Flowsheet.Formula
