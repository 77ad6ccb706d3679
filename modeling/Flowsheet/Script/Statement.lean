import Flowsheet.Industry.MetaProcess

set_option autoImplicit false

namespace Flowsheet

def attr (x : String) : String := "self.__" ++ x

def floatText {N : Type} [Quantity N] (v : N) : String :=
  -- A number as a float literal: an integer gets a zero decimal.
  let s := Quantity.plain v
  if s.any fun c => [ '.', 'e', 'E', 'n', 'N' ].contains c then s else s ++ ".0"

inductive Statement (N : Type) where
  | assign (target : String) (value : Formula N)
  | preset (target : String) (value : N)
  | call (method : String) (args : List String)

namespace Statement

variable {N : Type}

def text [Quantity N] : Statement N → String
  | .assign x e => attr x ++ " = " ++ e.print
  | .preset x v => attr x ++ " = " ++ floatText v
  | .call f xs => attr f ++ "(" ++ ", ".intercalate (xs.map attr) ++ ")"

def body [Quantity N] (ss : List (Statement N)) : String := "\n        ".intercalate (ss.map text)

end Statement

variable {N : Type}

def Operation.assignment (isPrivate : Arg → Bool) (o : Operation N) : Statement N :=
  -- The assignment of an operation; arguments that pass a test are read from attributes.
  .assign o.name (o.formula.rename fun x => if o.hasArg isPrivate x then attr x else x)

namespace Process

def statements (p : Process N) : List (Statement N) :=
  p.operations.map (·.assignment fun a => a.kind = .outputs)

def call (p : Process N) : Statement N := .call p.shortName p.methodArgs

def presets (p : Process N) (supplied : List String) : List (Statement N) :=
  p.methodArgs.filterMap fun x =>
    if supplied.contains x then none else (p.ownValue? x).map (.preset x)

end Process

namespace MetaProcess

def isPrivate (a : Arg) : Bool := a.kind ≠ .constants

def opening (m : MetaProcess N) (id : String) : List (Statement N) :=
  (m.demandsFor id).map (·.toOperation.assignment isPrivate)

def ending (m : MetaProcess N) : List (Statement N) := m.closing.map (·.assignment isPrivate)

end MetaProcess

end Flowsheet
