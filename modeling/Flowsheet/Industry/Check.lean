import Flowsheet.Industry.Basic

set_option autoImplicit false

namespace Flowsheet.Industry

variable {N : Type}

def absent (name place user : String) : Failure :=
  .of .unitMismatch s!"unit mismatch: '{name}' does not exist in '{place}' required by '{user}'"

def unitsDiffer (name owner units other otherUnits : String) : Failure :=
  .of .unitMismatch
    s!"unit mismatch: unit for '{name}' differs in '{owner}' ({units}) and '{other}' ({otherUnits})"

def noProcess (text : String) : Failure :=
  ⟨[.unitMismatch, .unknownProcess], "unit mismatch: unknown process: " ++ text, [], []⟩

def checkInput (i : Industry N) (owner : String) (input : Input N) : Except Failure Unit :=
  if !input.isExternal then .ok ()
  else
    match i.process? input.origin with
    | none =>
      .error (noProcess
        s!"'{input.name}' in '{owner}' comes from '{input.origin}' which does not exist")
    | some p =>
      match p.output? input.name with
      | none => .error (absent input.name p.name owner)
      | some output =>
        if output.units ≠ input.units then
          .error (unitsDiffer input.name owner input.units p.name output.units)
        else .ok ()

def checkDemand (i : Industry N) (owner : String) (d : Requirement N) : Except Failure Unit :=
  match i.process? d.used with
  | none => .error (noProcess s!"demand '{d.name}' is used by '{d.used}' which does not exist")
  | some p =>
    match p.input? d.name with
    | none => .error (absent d.name p.name owner)
    | some input =>
      if d.units ≠ input.units then
        .error (unitsDiffer d.name owner d.units p.name input.units)
      else .ok ()

def isSupplied (m : MetaProcess N) (id : String) (p : Process N) (x : String) : Bool :=
  (p.input? x).any (fun input => input.isExternal || !input.value.isEmpty) ||
    (m.demandsFor id).any (·.name == x)

def checkSupplied (m : MetaProcess N) (id : String) (p : Process N) : Except Failure Unit :=
  match p.methodArgs.find? fun x => !isSupplied m id p x with
  | none => .ok ()
  | some x =>
    .error (.of .unboundReference
      s!"unbound reference: input '{x}' of '{p.name}' has no source process, demand or value")

def check (i : Industry N) : Except Failure Unit := do
  let m ← i.requireMeta
  m.inputs.forM (i.checkInput m.name)
  i.processes.forM fun (_, p) => p.inputs.forM (i.checkInput p.name)
  m.demands.forM (i.checkDemand m.name)
  i.processes.forM fun (id, p) => checkSupplied m id p

end Flowsheet.Industry
