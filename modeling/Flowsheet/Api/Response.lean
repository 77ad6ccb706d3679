import Flowsheet.Industry.Dot
import Flowsheet.Industry.Evaluate
import Flowsheet.Json.Basic
import Flowsheet.Path

set_option autoImplicit false

namespace Flowsheet.Api

structure Response where
  status : Nat
  contentType : String
  body : String
deriving DecidableEq, Repr

structure Problem where
  status : Nat
  message : String
deriving DecidableEq, Repr

namespace Problem

def notFound : Problem := ⟨404, "Not Found"⟩
def methodNotAllowed : Problem := ⟨405, "Method Not Allowed"⟩
def internal : Problem := ⟨500, "Internal Server Error"⟩
def invalidName : Problem := ⟨400, "invalid industry name"⟩
def unknownIndustry : Problem := ⟨404, "industry not found"⟩
def noQueue : Problem := ⟨503, "compile queue is not configured"⟩
def alreadyQueued : Problem := ⟨409, "compile task already queued"⟩
def notQueued : Problem := ⟨500, "failed to enqueue compile task"⟩
def notListed : Problem := ⟨500, "failed to list industries"⟩

def badOutcome (reason : String) : Problem :=
  ⟨400, "invalid format for parameter outcome: " ++ reason⟩

def ofDocuments (f : Failure) : Problem := ⟨422, f.message⟩

def ofEvaluation (f : Failure) : Problem :=
  if f.hasCause .outcomeOutOfRange then ⟨400, f.message⟩ else ofDocuments f

end Problem

def Response.json (status : Nat) (body : Json) : Response :=
  ⟨status, "application/json; charset=utf-8", body.render⟩

def Problem.response (p : Problem) : Response :=
  .json p.status (.object [("code", .ofNat p.status), ("error", .string p.message)])

def number? (x : Float) : Option Json :=
  if Decimal.isFinite x then some (.ofFloat x) else none

def constants? (cs : List (Constant Float)) : Option Json := do
  let items ← cs.mapM fun c => do
    return Json.object [("name", .string c.name), ("value", ← number? c.value)]
  return .array items

def inputBody (i : Input Float) : Json :=
  .object ([("name", .string i.name), ("units", .string i.units)] ++
    (if i.origin = "" then [] else [("from", .string i.origin)]))

def outputBody (p : Process Float) (o : Output Float) : Json :=
  .object
    [("name", .string o.name), ("units", .string o.units),
     ("operation", .string (((p.operation? o.name).map (·.formula.print)).getD ""))]

def processBody? (id : String) (level : Nat) (p : Process Float) : Option Json := do
  return .object
    [("id", .string id), ("name", .string p.name), ("short_name", .string p.shortName),
     ("level", .ofNat level), ("dependencies", .ofStrings p.dependencies),
     ("constants", ← constants? p.constants), ("inputs", .array (p.inputs.map inputBody)),
     ("outputs", .array (p.outputs.map (outputBody p)))]

def detailBody? (i : Industry Float) (m : MetaProcess Float) (queue : List String)
    (levels : List (String × Nat)) : Option Json := do
  let (lo, hi) := i.bounds
  let processes ← (i.queued queue).mapM fun (id, p) =>
    processBody? id ((levels.lookup id).getD 0) p
  return .object
    [("name", .string m.name), ("short_name", .string m.shortName),
     ("description", .string m.description), ("outcome", .string m.outcome.name),
     ("units", .string m.outcome.units), ("min_units", ← number? lo), ("max_units", ← number? hi),
     ("queue", .ofStrings queue), ("constants", ← constants? m.constants),
     ("processes", .array processes)]

def valuesBody? (outcome : Float) (vs : Values Float) : Option Json := do
  let sorted := vs.mergeSort fun a b => decide (a.1 ≤ b.1)
  let members ← sorted.mapM fun (k, v) => do return (k, ← number? v)
  return .object [("outcome", ← number? outcome), ("values", .object members)]

def listBody (dirs : List String) : Json :=
  .object
    [("industries", .array (dirs.map fun d =>
        .object [("name", .string (Path.base d)), ("dir", .string d)])),
     ("total", .ofNat dirs.length)]

end Flowsheet.Api
