import Flowsheet.Failure
import Flowsheet.Json.Record
import Flowsheet.Path
import Flowsheet.Time.Instant

set_option autoImplicit false

namespace Flowsheet

structure Payload where
  industryDir : String := ""
  outputDir : String := ""
  trigger : String := ""
  enqueuedAt : Instant := .zero
deriving DecidableEq, Repr

namespace Payload

def manual : String := "manual"

def scheduled : String := "schedule"

def uniqueId (p : Payload) : String := "compile:" ++ Path.clean p.industryDir

def industry (p : Payload) : String := Path.base p.industryDir

def encode (p : Payload) : String :=
  (Json.object
    ([("industry_dir", .string p.industryDir)] ++
      (if p.outputDir = "" then [] else [("output_dir", .string p.outputDir)]) ++
      [("trigger", .string p.trigger), ("enqueued_at", .string p.enqueuedAt.text)])).render

def field : String → Option (Json → Option (Payload → Payload))
  | "industry_dir" => some (Json.string? fun s p => { p with industryDir := s })
  | "output_dir" => some (Json.string? fun s p => { p with outputDir := s })
  | "trigger" => some (Json.string? fun s p => { p with trigger := s })
  | "enqueued_at" => some fun
    | .string s => (Instant.parse? s).map fun t p => { p with enqueuedAt := t }
    | _ => none
  | _ => none

def decode? (text : String) : Option Payload := do
  Json.record? field {} (← Json.spelled? text)

end Payload

abbrev Enqueue (σ : Type) := σ → Payload → σ × Except Failure Unit

inductive TaskState where
  | pending
  | active
  | retry
  | archived
deriving DecidableEq, Repr

structure Task where
  queue : String
  id : String
  payload : String
  state : TaskState := .pending
  maxRetry : Nat := 3
  timeout : Nat := 10
deriving DecidableEq, Repr

def Task.kind : String := "industry:compile"

abbrev Tasks := List Task

namespace Tasks

def find? (ts : Tasks) (queue id : String) : Option Task :=
  List.find? (fun t => t.queue == queue && t.id == id) ts

def missingDirectory : Failure :=
  .of .missingIndustryDir "payload has no industry directory"

def alreadyQueued (dir : String) : Failure :=
  .of .taskAlreadyQueued s!"compile task already queued: {dir}"

def completed (now : Instant) (p : Payload) : Payload :=
  { p with
    enqueuedAt := if p.enqueuedAt.isZero then now else p.enqueuedAt
    trigger := if p.trigger = "" then Payload.manual else p.trigger }

def enqueue (queue : String) (now : Instant) (p : Payload) (ts : Tasks) : Except Failure Tasks :=
  -- Queues a compilation, unless the queue has a task with the same id, whatever its state.
  if p.industryDir = "" then .error missingDirectory
  else if (ts.find? queue p.uniqueId).isSome then .error (alreadyQueued p.industryDir)
  else .ok (ts ++ [{ queue, id := p.uniqueId, payload := (completed now p).encode }])

def isUnfinished (ts : Tasks) (queue : String) (p : Payload) : Bool :=
  match ts.find? queue p.uniqueId with
  | some t => t.state ≠ .archived
  | none => false

def remove (ts : Tasks) (queue id : String) : Tasks :=
  ts.filter fun t => !(t.queue == queue && t.id == id)

def setState (ts : Tasks) (queue id : String) (state : TaskState) : Tasks :=
  ts.map fun t => if t.queue == queue && t.id == id then { t with state } else t

end Tasks

end Flowsheet
