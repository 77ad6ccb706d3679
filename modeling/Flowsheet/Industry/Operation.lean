import Flowsheet.Formula.Eval
import Flowsheet.Formula.Parser
import Flowsheet.Record.Validate

set_option autoImplicit false

namespace Flowsheet

structure Operation (N : Type) extends Labels where
  formula : Formula N
  args : List Arg
  tests : List N

namespace Operation

variable {N : Type}

def undeclared (e : Formula N) (args : List Arg) : List String :=
  e.identifiers.filter fun x => !args.any (·.name == x)

def compile [Quantity N] (owner : String) (item : Item N) : Except Failure (Operation N) :=
  -- Reads the operation of an item. Every name in it has to be an argument.
  match Formula.parse item.operation with
  | .error e =>
    .error ((Failure.of .parse e.message).within s!"operation of '{item.name}' in '{owner}'")
  | .ok e =>
    match undeclared e item.args with
    | [] => .ok ⟨item.toLabels, e, item.args, item.tests⟩
    | names =>
      let list := ", ".intercalate names
      .error (.of .unboundReference
        s!"unbound reference: '{item.name}' in '{owner}' uses {list} without declaring them in args")

def hasArg (o : Operation N) (test : Arg → Bool) (x : String) : Bool :=
  o.args.any fun a => test a && a.name == x

end Operation

def duplicateName (what name owner : String) : Failure :=
  .of .duplicateName s!"duplicate item name: {what}'{name}' in '{owner}'"

def firstRepeated : List String → List String → Option String
  | _, [] => none
  | seen, x :: rest => if seen.contains x then some x else firstRepeated (x :: seen) rest

def checkDistinct (what owner : String) (names : List String) : Except Failure Unit :=
  match firstRepeated [] names with
  | none => .ok ()
  | some x => .error (duplicateName what x owner)

def ProcessRecord.checkNames {N : Type} (p : ProcessRecord N) : Except Failure Unit := do
  -- No two inputs and no two outputs of a process share a name.
  checkDistinct "input " p.name (p.inputs.map (·.name))
  checkDistinct "output " p.name (p.outputs.map (·.name))

end Flowsheet
