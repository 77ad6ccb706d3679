import Flowsheet.Record.Basic

set_option autoImplicit false

namespace Flowsheet

variable {N : Type} [Quantity N]

def checkRange (what name owner : String) (range : Option (Range N)) (shown : String)
    (declared : List N) : Except Failure Unit :=
  match range with
  | none => .ok ()
  | some r => do
    r.validate.mapError (·.within s!"{what} '{name}' in process '{owner}'")
    if declared.all r.contains then .ok ()
    else
      .error (.of .rangeViolation
        s!"value outside of the valid range: {what} '{name}' in process '{owner}' ({shown} not inside {Range.listText r})")

def Constant.validate (owner : String) (c : Constant N) : Except Failure Unit :=
  checkRange "constant" c.name owner c.range (Quantity.general c.value) [c.value]

def Input.validate (owner : String) (i : Input N) : Except Failure Unit :=
  checkRange "input" i.name owner i.range (Range.listText i.value) i.value

def Output.validate (owner : String) (o : Output N) : Except Failure Unit :=
  checkRange "output" o.name owner o.range
    ((o.value.map Quantity.general).getD "") o.value.toList

def ProcessRecord.validate (p : ProcessRecord N) : Except Failure Unit := do
  p.constants.forM (·.validate p.name)
  p.inputs.forM (·.validate p.name)
  p.outputs.forM (·.validate p.name)

def IndustryRecord.validate (r : IndustryRecord N) : Except Failure Unit := do
  r.toProcessRecord.validate
  if r.outcome.name = "" then
    .error (.of .missingOutcome s!"industry has no outcome: '{r.name}'")
  else
    match r.outcome.range with
    | none => .ok ()
    | some range =>
      range.validate.mapError
        (·.within s!"outcome '{r.outcome.name}' in industry '{r.name}'")

end Flowsheet
