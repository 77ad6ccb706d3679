import Flowsheet.Api.Response
import Flowsheet.Api.Route
import Flowsheet.Compiler.Basic

set_option autoImplicit false

namespace Flowsheet.Api

def isPlainName (name : String) : Bool :=
  name ≠ "" && name ≠ "." && name ≠ ".." && !name.contains '/' && !name.contains '\\'

def industryDirectory (files : Files) (sources name : String) : Except Problem String :=
  if !isPlainName name then .error .invalidName
  else
    let dir := Path.join [sources, name]
    if files.isDirectory dir then .ok dir else .error .unknownIndustry

def load (c : Compiler) (name : String) (s : Site) : Site × Except Problem (Industry Float) :=
  match industryDirectory s.files c.settings.sourcesPath name with
  | .error p => (s, .error p)
  | .ok dir =>
    let (s, r) := c.load dir s
    (s, r.mapError .ofDocuments)

def respond (body : Option Json) : Except Problem Response :=
  match body with
  | some b => .ok (.json 200 b)
  | none => .error .internal

def list (c : Compiler) (s : Site) : Except Problem Response :=
  match s.files.industries c.settings.sourcesPath with
  | .error _ => .error .notListed
  | .ok dirs => .ok (.json 200 (listBody dirs))

def detail (i : Industry Float) : Except Problem Response := do
  let queue ← i.executionQueue.mapError fun fault => .ofDocuments fault.failure
  let levels ← i.levels.mapError fun fault => .ofDocuments fault.failure
  match i.metaProcess with
  | none => throw .internal
  | some m => respond (detailBody? i m queue levels)

def graph (i : Industry Float) : Except Problem Response := do
  let dot ← i.dot.mapError fun fault => .ofDocuments fault.failure
  return ⟨200, "text/vnd.graphviz; charset=utf-8", dot⟩

def outcome (r : Request) : Except Problem Float :=
  match r.value? "outcome" with
  | none => .error (.badOutcome "query parameter 'outcome' is required")
  | some bytes =>
    match Decimal.readFloat? (Text.ofBytes bytes) with
    | some x => .ok x
    | none => .error (.badOutcome "error binding string parameter")

def evaluate (x : Float) (i : Industry Float) : Except Problem Response :=
  match i.evaluate x with
  | .error e => .error (.ofEvaluation e.failure)
  | .ok vs => respond (valuesBody? x vs)

def compile {σ : Type} (c : Compiler) (enqueue : Enqueue σ) (name : String) (s : Site) (q : σ) :
    σ × Except Problem Response :=
  match industryDirectory s.files c.settings.sourcesPath name with
  | .error p => (q, .error p)
  | .ok dir =>
    match enqueue q { industryDir := dir, trigger := Payload.manual } with
    | (q, .ok _) => (q, .ok (.json 202 (.object [("dir", .string dir), ("queued", .bool true)])))
    | (q, .error f) =>
      (q, .error (if f.hasCause .taskAlreadyQueued then .alreadyQueued else .notQueued))

def serve {σ : Type} (c : Compiler) (enqueue : Option (Enqueue σ)) (r : Request) (s : Site) (q : σ) :
    Resource → Site × σ × Except Problem Response
  | .list => (s, q, list c s)
  | .detail name =>
    let (s, i) := load c name s
    (s, q, i.bind detail)
  | .graph name =>
    let (s, i) := load c name s
    (s, q, i.bind graph)
  | .evaluate name =>
    -- A request without a sound outcome loads nothing.
    match outcome r with
    | .error p => (s, q, .error p)
    | .ok x =>
      let (s, i) := load c name s
      (s, q, i.bind (evaluate x))
  | .compile name =>
    match enqueue with
    | none => (s, q, .error .noQueue)
    | some enqueue =>
      let (q, a) := compile c enqueue name s q
      (s, q, a)

def route (r : Request) : Except Problem Resource :=
  match Resource.find? r.path with
  | none => .error .notFound
  | some resource =>
    if r.method = resource.method then .ok resource else .error .methodNotAllowed

def answer {σ : Type} (c : Compiler) (enqueue : Option (Enqueue σ)) (r : Request) (s : Site) (q : σ) :
    Site × σ × Response :=
  match route r with
  | .error p => (s, q, p.response)
  | .ok resource =>
    match serve c enqueue r s q resource with
    | (s, q, .ok response) => (s, q, response)
    | (s, q, .error p) => (s, q, p.response)

end Flowsheet.Api
