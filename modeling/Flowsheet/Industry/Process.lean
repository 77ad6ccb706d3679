import Flowsheet.Industry.Operation

set_option autoImplicit false

namespace Flowsheet

def ProcessRecord.input? {N : Type} (p : ProcessRecord N) (x : String) : Option (Input N) :=
  p.inputs.find? (·.name == x)

def ProcessRecord.output? {N : Type} (p : ProcessRecord N) (x : String) : Option (Output N) :=
  p.outputs.find? (·.name == x)

structure Process (N : Type) extends ProcessRecord N where
  operations : List (Operation N)

namespace Process

variable {N : Type}

def checkArgs (p : ProcessRecord N) (o : Operation N) : Except Failure Unit :=
  -- Arguments of kind `inputs` have to be inputs of the process.
  match o.args.find? fun a => a.kind = .inputs && (p.input? a.name).isNone with
  | none => .ok ()
  | some a =>
    .error (.of .unboundReference
      s!"unbound reference: '{o.name}' in '{p.name}' takes undeclared input '{a.name}'")

def compileOutput [Quantity N] (p : ProcessRecord N) (output : Output N) :
    Except Failure (Operation N) := do
  let o ← Operation.compile p.name output.toItem
  checkArgs p o
  return o

def dependencies (p : Process N) : List String :=
  ((p.inputs.filter (·.isExternal)).map (·.origin)).eraseDups

def operation? (p : Process N) (x : String) : Option (Operation N) :=
  p.operations.find? (·.name == x)

def methodArgs (p : Process N) : List String :=
  (((p.operations.flatMap (·.args)).filter fun a => a.kind = .inputs).map (·.name)).eraseDups

def ownValue? (p : Process N) (x : String) : Option N :=
  match p.input? x with
  | some i => if i.isExternal then none else i.value.head?
  | none => none

def exposed (p : Process N) : List Labels := p.operations.map (·.toLabels)

end Process

def ProcessRecord.compile {N : Type} [Quantity N] (p : ProcessRecord N) :
    Except Failure (Process N) := do
  p.validate
  p.checkNames
  return { p with operations := ← p.outputs.mapM (Process.compileOutput p) }

end Flowsheet
