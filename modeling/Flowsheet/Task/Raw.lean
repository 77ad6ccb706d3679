import Flowsheet.Json.Bytes
import Flowsheet.Task.Queue
import Flowsheet.Text.Utf8

set_option autoImplicit false

namespace Flowsheet

structure RawPayload where
  industryDir : List UInt8 := []
  outputDir : List UInt8 := []
  trigger : String := ""
  enqueuedAt : Instant := .zero
deriving DecidableEq, Repr

namespace RawPayload

def ofPayload (p : Payload) : RawPayload where
  industryDir := Text.bytes p.industryDir
  outputDir := Text.bytes p.outputDir
  trigger := p.trigger
  enqueuedAt := p.enqueuedAt

def shown (r : RawPayload) : Payload where
  industryDir := Text.ofBytes r.industryDir
  outputDir := Text.ofBytes r.outputDir
  trigger := r.trigger
  enqueuedAt := r.enqueuedAt

def completed (now : Instant) (r : RawPayload) : RawPayload :=
  { r with
    enqueuedAt := if r.enqueuedAt.isZero then now else r.enqueuedAt
    trigger := if r.trigger = "" then Payload.manual else r.trigger }

def encode (r : RawPayload) : String :=
  Json.objectText
    ([("industry_dir", Json.quoteBytes true r.industryDir)] ++
      (if r.outputDir = [] then [] else [("output_dir", Json.quoteBytes true r.outputDir)]) ++
      [("trigger", Json.quote true r.trigger), ("enqueued_at", Json.quote true r.enqueuedAt.text)])

end RawPayload

namespace Queue

def unwritable : Failure := ⟨[], "the time of the payload cannot be written", [], []⟩

def unnamed : Failure := ⟨[], "the id of the task is not a text", [], []⟩

def add (q : Queue) (s : Site) (dir payload trigger : String) : Site × Except Failure Unit :=
  let s := { s with queues := if s.queues.contains q.name then s.queues else q.name :: s.queues }
  let p : Payload := { industryDir := dir }
  if (s.tasks.find? q.name p.uniqueId).isSome then (s, .error (Tasks.alreadyQueued dir))
  else
    let tasks := s.tasks ++ [{ queue := q.name, id := p.uniqueId, payload }]
    ({ s with tasks }.measure (Metrics.taskEnqueued p.industry trigger), .ok ())

def enqueueRaw (q : Queue) (s : Site) (r : RawPayload) : Site × Except Failure Unit :=
  let done := r.completed s.now
  if r.industryDir = [] then (s, .error Tasks.missingDirectory)
  else if !done.enqueuedAt.isWritable then (s, .error unwritable)
  else
    -- The store takes any bytes as the payload of a task, but only a text as its id.
    match Text.ofBytes? r.industryDir with
    | none => (s, .error unnamed)
    | some dir =>
      if !s.store.reachable then (s, .error unreachable) else q.add s dir done.encode done.trigger

end Queue

end Flowsheet
