import Flowsheet.Industry.Graph

set_option autoImplicit false

namespace Flowsheet

inductive EvaluateError (N : Type) where
  | metaNotSet
  | outOfRange (name : String) (lo hi got : N)
  | graph (fault : GraphFault)
  | formula (name owner : String) (reason : Formula.EvalError N)

namespace EvaluateError

variable {N : Type} [Quantity N]

def ofFormula : Formula.EvalError N → Failure
  | e@(.unbound _) => .of .unboundReference e.message
  | e@(.divisionByZero _) => .of .divisionByZero e.message

def failure : EvaluateError N → Failure
  | .metaNotSet => Industry.metaNotSet
  | .outOfRange name lo hi got =>
    .of .outcomeOutOfRange
      s!"outcome out of range: {name} should be a value between {Quantity.plain lo} and {Quantity.plain hi}, got {Quantity.plain got}"
  | .graph fault => fault.failure
  | .formula name owner reason => (ofFormula reason).within s!"evaluating '{name}' in '{owner}'"

end EvaluateError

namespace Industry

variable {N : Type} [Quantity N]

def apply (owner : String) (vs : Values N) (o : Operation N) :
    Except (EvaluateError N) (Values N) :=
  match o.formula.substitute vs.get? with
  | .ok v => .ok (vs.set o.name v)
  | .error e => .error (.formula o.name owner e)

def preset (p : Process N) (vs : Values N) (x : String) : Values N :=
  if vs.has x then vs
  else
    match p.ownValue? x with
    | some v => vs.set x v
    | none => vs

def setConstants (vs : Values N) (constants : List (Constant N)) : Values N :=
  constants.foldl (fun vs c => vs.set c.name c.value) vs

def runProcess (m : MetaProcess N) (vs : Values N) (id : String) (p : Process N) :
    Except (EvaluateError N) (Values N) := do
  let vs ← ((m.demandsFor id).map (·.toOperation)).foldlM (apply m.name) vs
  p.operations.foldlM (apply p.name) (p.methodArgs.foldl (preset p) vs)

def initialValues (m : MetaProcess N) (ps : List (String × Process N)) (outcome : N) : Values N :=
  (ps.foldl (fun vs (_, p) => setConstants vs p.constants) (setConstants [] m.constants)).set
    m.outcome.name outcome

def evaluate (i : Industry N) (outcome : N) : Except (EvaluateError N) (Values N) :=
  match i.metaProcess with
  | none => .error .metaNotSet
  | some m => do
    let (lo, hi) := i.bounds
    if Quantity.lt outcome lo || Quantity.lt hi outcome then
      throw (.outOfRange m.outcome.name lo hi outcome)
    let queue ← i.executionQueue.mapError .graph
    let ps := i.queued queue
    let vs ← ps.foldlM (fun vs (id, p) => runProcess m vs id p) (initialValues m ps outcome)
    m.closing.foldlM (apply m.name) vs

end Industry

end Flowsheet
