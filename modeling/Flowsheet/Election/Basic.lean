import Flowsheet.Failure
import Flowsheet.Settings.Scheduler
import Flowsheet.Store.Basic

set_option autoImplicit false

namespace Flowsheet

/-- A candidate for leadership. The leader is whoever holds the lease under a key. -/
structure Elector where
  id : String
  key : String
  leaseTTL : Duration
  isLeader : Bool := false
  promoted : Bool := false
  stopped : Bool := false
deriving DecidableEq, Repr

namespace Elector

open Store

inductive Verdict where
  | acquired
  | renewed
  | lockFailed
  | ownerUnknown
  | vanished
  | heldByOther
  | renewalFailed
deriving DecidableEq, Repr

def Verdict.holds : Verdict → Bool
  | .acquired | .renewed => true
  | _ => false

inductive Phase where
  | lock
  | checkOwner
  | renew
deriving DecidableEq, Repr

def advance (e : Elector) (s : Store) : Phase → Store × (Phase ⊕ Verdict)
  | .lock =>
    match s.setIfAbsent e.key e.id e.leaseTTL with
    | (s, .error _) => (s, .inr .lockFailed)
    | (s, .ok true) => (s, .inr .acquired)
    | (s, .ok false) => (s, .inl .checkOwner)
  | .checkOwner =>
    match s.get e.key with
    | (s, .error _) => (s, .inr .ownerUnknown)
    | (s, .ok none) => (s, .inr .vanished)
    | (s, .ok (some owner)) => (s, if owner = e.id then .inl .renew else .inr .heldByOther)
  | .renew =>
    match s.expire e.key e.leaseTTL with
    | (s, .error _) => (s, .inr .renewalFailed)
    | (s, .ok _) => (s, .inr .renewed)

def tryAcquire (e : Elector) (s : Store) : Store × Verdict :=
  match e.advance s .lock with
  | (s, .inr v) => (s, v)
  | (s, .inl _) =>
    match e.advance s .checkOwner with
    | (s, .inr v) => (s, v)
    | (s, .inl _) =>
      match e.advance s .renew with
      | (s, .inr v) => (s, v)
      | (s, .inl _) => (s, .renewalFailed)

def conclude (e : Elector) (v : Verdict) : Elector :=
  if v.holds && !e.isLeader then { e with isLeader := true, promoted := true }
  else if !v.holds && e.isLeader then { e with isLeader := false }
  else e

def elect (e : Elector) (s : Store) : Store × Elector × Verdict :=
  let (s, v) := e.tryAcquire s
  (s, e.conclude v, v)

def Verdict.report (wasLeader : Bool) : Verdict → String
  | .acquired | .renewed => if wasLeader then "" else "Promoted to leader"
  | .lockFailed => "Failed to acquire leader lock"
  | .ownerUnknown => "Failed to check lock owner"
  | .vanished => ""
  | .heldByOther => "Another instance holds leadership"
  | .renewalFailed => "Failed to renew leader lease"

def relinquish (e : Elector) (s : Store) : Store × Elector :=
  -- Gives up leadership: a lease that is still the candidate's own is deleted.
  if !e.isLeader then (s, e)
  else
    let e' := { e with isLeader := false }
    match s.get e.key with
    | (s, .ok (some owner)) => if owner = e.id then ((s.delete e.key).1, e') else (s, e')
    | (s, _) => (s, e')

def stop (e : Elector) (s : Store) : Store × Elector :=
  if e.stopped then (s, e) else { e with stopped := true }.relinquish s

def stoppedWaiting : Failure :=
  .of .electorStopped "elector stopped while waiting for leadership"

def gaveUpWaiting : Failure :=
  .of .deadlineExceeded "context canceled while waiting for leadership: context deadline exceeded"

def awaitLeadership (e : Elector) : Elector × Except Failure Unit :=
  -- Waits for leadership until patience ends. An unnoticed promotion counts, and is noticed.
  if e.isLeader then (e, .ok ())
  else if e.promoted then ({ e with promoted := false }, .ok ())
  else if e.stopped then (e, .error stoppedWaiting)
  else (e, .error gaveUpWaiting)

end Elector

end Flowsheet
