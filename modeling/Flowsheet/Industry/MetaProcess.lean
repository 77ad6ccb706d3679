import Flowsheet.Industry.Process

set_option autoImplicit false

namespace Flowsheet

structure Requirement (N : Type) extends Operation N where
  used : String
  tag : String

/-- The part of an industry that drives its processes: before a process runs, the demands it
uses are computed; after all of them, meta-demands and outputs are. -/
structure MetaProcess (N : Type) extends ProcessRecord N where
  outcome : Outcome N
  demands : List (Requirement N)
  closing : List (Operation N)

namespace MetaProcess

variable {N : Type}

def compileDemands [Quantity N] (owner : String) :
    List String → List (Demand N) → Except Failure (List (Requirement N))
  | _, [] => .ok []
  | seen, d :: rest =>
    if seen.contains d.name then .error (duplicateName "demand " d.name owner)
    else do
      let o ← Operation.compile owner d.toItem
      return { o with used := d.used, tag := d.tag } :: (← compileDemands owner (d.name :: seen) rest)

def compileClosing [Quantity N] (owner : String) :
    List String → List (Item N) → Except Failure (List (Operation N))
  | _, [] => .ok []
  | seen, item :: rest => do
    let o ← Operation.compile owner item
    if seen.contains o.name then .error (duplicateName "" o.name owner)
    else return o :: (← compileClosing owner (o.name :: seen) rest)

def plainDemands (demands : List (Requirement N)) : List (Operation N) :=
  (demands.filter (·.tag == "")).map (·.toOperation)

def operations (m : MetaProcess N) : List (Operation N) := plainDemands m.demands ++ m.closing

def operation? (m : MetaProcess N) (x : String) : Option (Operation N) :=
  m.operations.find? (·.name == x)

def demandsFor (m : MetaProcess N) (id : String) : List (Requirement N) :=
  m.demands.filter (·.used == id)

def exposed (m : MetaProcess N) : List Labels :=
  m.outcome.toLabels :: m.operations.map (·.toLabels)

end MetaProcess

open MetaProcess in
def IndustryRecord.compile {N : Type} [Quantity N] (r : IndustryRecord N) :
    Except Failure (MetaProcess N) := do
  r.validate
  r.checkNames
  let demands ← compileDemands r.name [] r.demands
  let closing ← compileClosing r.name ((plainDemands demands).map (·.name))
    (r.metaDemands ++ r.outputs.map (·.toItem))
  return { r.toProcessRecord with outcome := r.outcome, demands, closing }

end Flowsheet
