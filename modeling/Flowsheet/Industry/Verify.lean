import Flowsheet.Industry.Evaluate

set_option autoImplicit false

namespace Flowsheet.Industry

variable {N : Type} [Quantity N]

-- The owners of operations with what they compute: the meta-process, then the processes in the order of
-- insertion.
def owners (i : Industry N) (m : MetaProcess N) : List (String × List (Operation N)) :=
  (m.name, m.operations) :: i.processes.map fun (_, p) => (p.name, p.operations)

def mismatch? (m : MetaProcess N) (n : Nat) (outcome : N) (vs : Values N) (owner : String)
    (o : Operation N) : Option Failure :=
  match o.tests[n]? with
  | none => none
  | some expected =>
    let got := Quantity.cents ((vs.get? o.name).getD Quantity.zero)
    if Quantity.differs got expected then
      some (.of .goldenMismatch
        s!"golden value mismatch: '{o.name}' in '{owner}' for {m.outcome.name}={Quantity.plain outcome}: expected {Quantity.plain expected}, got {Quantity.plain got}")
    else none

def mismatches (i : Industry N) (m : MetaProcess N) (outcome : N) (n : Nat) : List Failure :=
  match i.evaluate outcome with
  | .error e => [e.failure]
  | .ok vs =>
    (i.owners m).flatMap fun (owner, os) => os.filterMap (mismatch? m n outcome vs owner)

-- Compares every computed value with its golden value, to two decimal places, for every golden outcome.
def verify (i : Industry N) : Except Failure Unit := do
  let m ← i.requireMeta
  match Failure.collect (m.outcome.tests.zipIdx.flatMap fun (x, n) => i.mismatches m x n) with
  | none => .ok ()
  | some f => .error f

end Flowsheet.Industry
