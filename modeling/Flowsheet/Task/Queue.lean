import Flowsheet.Compiler.Basic
import Flowsheet.Settings.Worker

set_option autoImplicit false

namespace Flowsheet

structure Queue where
  name : String
deriving DecidableEq, Repr

structure QueueStats where
  size : Nat
  pending : Nat
deriving DecidableEq, Repr

namespace Queue

def unreachable : Failure := ⟨[], "the store cannot be reached", [], []⟩

def named (name : String) : Queue := ⟨if name = "" then compileQueue else name⟩

def enqueue (q : Queue) : Enqueue Site := fun s p =>
  if p.industryDir = "" then (s, .error Tasks.missingDirectory)
  else if !s.store.reachable then (s, .error unreachable)
  else
    let s := { s with queues := if s.queues.contains q.name then s.queues else q.name :: s.queues }
    match s.tasks.enqueue q.name s.now p with
    | .error f => (s, .error f)
    | .ok tasks =>
      let trigger := (Tasks.completed s.now p).trigger
      ({ s with tasks }.measure (Metrics.taskEnqueued p.industry trigger), .ok ())

def isUnfinished (q : Queue) (s : Site) (p : Payload) : Except Failure Bool :=
  if s.store.reachable then .ok (s.tasks.isUnfinished q.name p) else .error unreachable

def stats (q : Queue) (s : Site) : Except Failure QueueStats :=
  if !s.store.reachable then .error unreachable
  else if !s.queues.contains q.name then .error ⟨[], "there is no such queue", [], []⟩
  else
    let own := s.tasks.filter fun t => t.queue == q.name
    .ok ⟨(own.filter fun t => t.state ≠ .archived).length,
      (own.filter fun t => t.state = .pending).length⟩

end Queue

end Flowsheet
