import Flowsheet.Files.Discovery
import Flowsheet.Metrics.Basic
import Flowsheet.Settings.Scheduler
import Flowsheet.Task.Basic

set_option autoImplicit false

namespace Flowsheet.Rebuild

def check (settings : SchedulerSettings) : Except Failure Unit := do
  settings.validate
  if !settings.enabled then
    throw (.of .schedulerDisabled "rebuild schedule is disabled")

def start (election : Except Failure Unit) : Except Failure Unit :=
  election.mapError (·.within "failed to start leader election")

def stop (election : Except Failure Unit) : Except Failure Unit := election

def request {σ : Type} (enqueue : Enqueue σ) (ends : Option Nat) :
    Nat → List String → σ → σ × List Failure
  -- Asks for the compilation of directories one after the other. The context ends before the
  -- directory number `ends`. That a directory waits already is no failure.
  | _, [], q => (q, [])
  | n, dir :: rest, q =>
    if ends.any (· ≤ n) then (q, [.of .canceled "context canceled"])
    else
      let (q, r) := enqueue q { industryDir := dir, trigger := Payload.scheduled }
      let (q, fs) := request enqueue ends (n + 1) rest q
      match r with
      | .ok _ => (q, fs)
      | .error f =>
        if f.hasCause .taskAlreadyQueued then (q, fs) else (q, f.within s!"industry {dir}" :: fs)

def run {σ : Type} (enqueue : Enqueue σ) (ends : Option Nat) (leads : Bool) (files : Files)
    (sources : String) (q : σ) (m : Metrics) : σ × Metrics × Except Failure Unit :=
  if !leads then (q, m.rebuild "skipped", .ok ())
  else
    match files.industries sources with
    | .error f => (q, m.rebuild "failed", .error (f.within "failed to discover industries"))
    | .ok dirs =>
      match request enqueue ends 0 dirs q with
      | (q, fs) =>
        match Failure.collect fs with
        | none => (q, m.rebuild "enqueued", .ok ())
        | some f => (q, m.rebuild "failed", .error f)

end Flowsheet.Rebuild
