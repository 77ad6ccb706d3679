import Flowsheet.Election.Basic
import Flowsheet.Proofs.Store

set_option autoImplicit false

namespace Flowsheet

inductive Delivery where
  | answered
  | refused
  | unanswered
deriving DecidableEq, Repr

namespace Delivery

def run {α : Type} (d : Delivery) (command : Store → Store × α) (s : Store) : Store × α :=
  let reached := command { s with reachable := true }
  let missed := command { s with reachable := false }
  match d with
  | .answered => reached
  | .refused => missed
  | .unanswered => (reached.1, missed.2)

def ofStore (s : Store) : Delivery := if s.reachable then .answered else .refused

theorem run_ofStore {α : Type} (command : Store → Store × α) {s s' : Store} (kept : s'.reachable = s.reachable) :
    (ofStore s).run command s' = command s' := by
  obtain ⟨entries, clock, reachable⟩ := s'
  obtain rfl : reachable = s.reachable := kept
  unfold ofStore
  split
  next up => simp only [run, up]
  next down => simp only [run, Bool.eq_false_iff.mpr down]

end Delivery

namespace Elector

open Store

inductive Farewell where
  | checkOwner
  | delete
deriving DecidableEq, Repr

def withdraw (e : Elector) (s : Store) : Farewell → Store × Option Farewell
  | .checkOwner =>
    match s.get e.key with
    | (s, .ok (some owner)) => (s, if owner = e.id then some .delete else none)
    | (s, _) => (s, none)
  | .delete => ((s.delete e.key).1, none)

def tryAcquireBy (ds : Phase → Delivery) (e : Elector) (s : Store) : Store × Verdict :=
  match (ds .lock).run (e.advance · .lock) s with
  | (s, .inr v) => (s, v)
  | (s, .inl _) =>
    match (ds .checkOwner).run (e.advance · .checkOwner) s with
    | (s, .inr v) => (s, v)
    | (s, .inl _) =>
      match (ds .renew).run (e.advance · .renew) s with
      | (s, .inr v) => (s, v)
      | (s, .inl _) => (s, .renewalFailed)

def electBy (ds : Phase → Delivery) (e : Elector) (s : Store) : Store × Elector × Verdict :=
  let (s, v) := e.tryAcquireBy ds s
  (s, e.conclude v, v)

def relinquishBy (ds : Farewell → Delivery) (e : Elector) (s : Store) : Store × Elector :=
  if !e.isLeader then (s, e)
  else
    let e' := { e with isLeader := false }
    match (ds .checkOwner).run (e.withdraw · .checkOwner) s with
    | (s, none) => (s, e')
    | (s, some _) => (((ds .delete).run (e.withdraw · .delete) s).1, e')

def stopBy (ds : Farewell → Delivery) (e : Elector) (s : Store) : Store × Elector :=
  if e.stopped then (s, e) else { e with stopped := true }.relinquishBy ds s

section Steady

variable {e : Elector} {s : Store}

theorem reachable_advance (p : Phase) : (e.advance s p).1.reachable = s.reachable := by
  unfold advance setIfAbsent Store.get expire command
  cases p <;> grind [Store.put, Store.erase]

theorem tryAcquireBy_ofStore : e.tryAcquireBy (fun _ => .ofStore s) s = e.tryAcquire s := by
  unfold tryAcquireBy tryAcquire
  rw [Delivery.run_ofStore _ rfl]
  have first := reachable_advance (e := e) (s := s) .lock
  generalize e.advance s .lock = r at first ⊢
  obtain ⟨s₁, p | v⟩ := r
  next =>
    dsimp only at first ⊢
    rw [Delivery.run_ofStore _ first]
    have second := (reachable_advance (e := e) (s := s₁) .checkOwner).trans first
    generalize e.advance s₁ .checkOwner = r at second ⊢
    obtain ⟨s₂, p | v⟩ := r
    next =>
      dsimp only at second ⊢
      rewrite [Delivery.run_ofStore _ second]
      rfl
    next => rfl
  next => rfl

theorem relinquishBy_ofStore : e.relinquishBy (fun _ => .ofStore s) s = e.relinquish s := by
  unfold relinquishBy relinquish
  rw [Delivery.run_ofStore _ rfl]
  split
  next => rfl
  next =>
    have kept : (s.get e.key).1.reachable = s.reachable := by
      unfold Store.get command
      split <;> rfl
    simp only [withdraw]
    generalize s.get e.key = r at kept ⊢
    obtain ⟨s₁, unavailable | _ | owner⟩ := r
    next => rfl
    next => rfl
    next =>
      by_cases own : owner = e.id
      next =>
        simp only [own, if_true]
        rw [Delivery.run_ofStore _ kept]
      next => simp only [own, if_false]

theorem stopBy_ofStore : e.stopBy (fun _ => .ofStore s) s = e.stop s := by
  unfold stopBy stop
  rw [relinquishBy_ofStore]

end Steady

def lease (e : Elector) (now : Int) : Stored := ⟨e.id, some (now + e.leaseTTL.nanoseconds)⟩

inductive Issued (e : Elector) (now : Int) (d : Delivery) (found : Option Stored) :
    Phase → Option Stored → Phase ⊕ Verdict → Prop
  | failed {p : Phase} {v : Verdict} (fails : v.holds = false)
      (reason : d = .answered → p = .checkOwner ∧ ∀ l, found = some l → l.value ≠ e.id) :
    Issued e now d found p found (.inr v)
  | taken {v : Verdict} (free : found = none) (answer : d = .answered → v.holds = true) :
    Issued e now d found .lock (some (e.lease now)) (.inr v)
  | held {l : Stored} (here : found = some l) : Issued e now d found .lock (some l) (.inl .checkOwner)
  | owned {l : Stored} (here : found = some l) (own : l.value = e.id) :
    Issued e now d found .checkOwner (some l) (.inl .renew)
  | renewed {l : Stored} {v : Verdict} (here : found = some l) (answer : d = .answered → v.holds = true) :
    Issued e now d found .renew (some { l with expires := some (now + e.leaseTTL.nanoseconds) }) (.inr v)
  | lapsed (gone : found = none) : Issued e now d found .renew none (.inr .renewed)

inductive Withdrawn (e : Elector) (found : Option Stored) : Farewell → Option Stored → Option Farewell → Prop
  | ended {p : Farewell} : Withdrawn e found p found none
  | owned {l : Stored} (here : found = some l) (own : l.value = e.id) :
    Withdrawn e found .checkOwner (some l) (some .delete)
  | deleted : Withdrawn e found .delete none none

section Effect

variable {e : Elector} {s : Store} (d : Delivery)

theorem clock_advance (p : Phase) : (d.run (e.advance · p) s).1.clock = s.clock := by
  cases d <;> cases p <;> simp only [Delivery.run, advance, setIfAbsent, Store.get, expire, command] <;>
    grind [Store.put, Store.erase]

theorem clock_withdraw (p : Farewell) : (d.run (e.withdraw · p) s).1.clock = s.clock := by
  cases d <;> cases p <;> simp only [Delivery.run, withdraw, Store.get, delete, command] <;>
    grind [Store.put, Store.erase]

def Phase.silence : Phase → Verdict
  | .lock => .lockFailed
  | .checkOwner => .ownerUnknown
  | .renew => .renewalFailed

theorem Phase.silence_holds (p : Phase) : p.silence.holds = false := by
  cases p <;> rfl

theorem advance_unreachable (p : Phase) (s : Store) :
    e.advance { s with reachable := false } p = ({ s with reachable := false }, .inr p.silence) := by
  cases p <;> rfl

theorem deadline_of_isPositive (lasting : e.leaseTTL.isPositive = true) :
    (s.deadline e.leaseTTL) = some (s.clock + e.leaseTTL.nanoseconds) := by
  have nonzero : e.leaseTTL ≠ .zero := by
    rintro same
    simp [same, Duration.isPositive, Duration.zero] at lasting
  simp [deadline, nonzero]

theorem isLive_lease (lasting : e.leaseTTL.isPositive = true) (id : String) :
    Stored.isLive s.clock ⟨id, some (s.clock + e.leaseTTL.nanoseconds)⟩ = true := by
  simp only [Duration.isPositive, decide_eq_true_eq] at lasting
  simp only [Stored.isLive, decide_eq_true_eq]
  omega

theorem issued_reachable (lasting : e.leaseTTL.isPositive = true) (p : Phase) (up : s.reachable = true) :
    Issued e s.clock .answered (s.find? e.key) p ((e.advance s p).1.find? e.key) (e.advance s p).2 := by
  -- What the command finds under the key decides what it does.
  cases p with
  | lock =>
    cases found : s.find? e.key with
    | none =>
      have done : e.advance s .lock = (s.put e.key (e.lease s.clock), .inr .acquired) := by
        simp [advance, setIfAbsent, command, up, found, deadline_of_isPositive lasting, lease]
      have kept : (s.put e.key (e.lease s.clock)).find? e.key = some (e.lease s.clock) :=
        find?_put_self (isLive_lease lasting e.id)
      rw [done, kept]
      exact .taken rfl fun _ => rfl
    | some l =>
      have done : e.advance s .lock = (s, .inl .checkOwner) := by
        simp [advance, setIfAbsent, command, up, found]
      rw [done, found]
      exact .held rfl
  | checkOwner =>
    cases found : s.find? e.key with
    | none =>
      have done : e.advance s .checkOwner = (s, .inr .vanished) := by
        simp [advance, Store.get, command, up, found]
      rw [done, found]
      exact .failed rfl fun _ => ⟨rfl, by simp⟩
    | some l =>
      by_cases own : l.value = e.id
      next =>
        have done : e.advance s .checkOwner = (s, .inl .renew) := by
          simp [advance, Store.get, command, up, found, own]
        rw [done, found]
        exact .owned rfl own
      next =>
        have done : e.advance s .checkOwner = (s, .inr .heldByOther) := by
          simp [advance, Store.get, command, up, found, own]
        rw [done, found]
        exact .failed rfl fun _ => ⟨rfl, by simp [own]⟩
  | renew =>
    cases found : s.find? e.key with
    | none =>
      have done : e.advance s .renew = (s, .inr .renewed) := by
        simp [advance, expire, command, up, found]
      rw [done, found]
      exact .lapsed rfl
    | some l =>
      have done : e.advance s .renew =
          (s.put e.key { l with expires := some (s.clock + e.leaseTTL.nanoseconds) }, .inr .renewed) := by
        simp [advance, expire, command, up, found, lasting]
      rw [done, find?_put_self (isLive_lease lasting l.value)]
      exact .renewed rfl fun _ => rfl

theorem Issued.unanswered {now : Int} {found after : Option Stored} {p : Phase} {next : Phase ⊕ Verdict}
    (carried : Issued e now .answered found p after next) : Issued e now .unanswered found p after (.inr p.silence) := by
  have unseen : Delivery.unanswered ≠ .answered := nofun
  cases carried with
  | failed | held here | owned here | lapsed here =>
    subst_vars
    exact .failed (Phase.silence_holds _) fun seen => absurd seen unseen
  | taken free => exact .taken free fun seen => absurd seen unseen
  | renewed here => exact .renewed here fun seen => absurd seen unseen

theorem issued (lasting : e.leaseTTL.isPositive = true) (p : Phase) :
    Issued e s.clock d (s.find? e.key) p ((d.run (e.advance · p) s).1.find? e.key) (d.run (e.advance · p) s).2 := by
  have carried := issued_reachable (s := { s with reachable := true }) lasting p rfl
  have silent := advance_unreachable (e := e) p s
  cases d with
  | answered => exact carried
  | refused =>
    simp only [Delivery.run, silent]
    exact .failed p.silence_holds nofun
  | unanswered =>
    simp only [Delivery.run, silent]
    exact carried.unanswered

theorem withdraw_unreachable (p : Farewell) (s : Store) :
    e.withdraw { s with reachable := false } p = ({ s with reachable := false }, none) := by
  cases p <;> rfl

theorem withdrawn_reachable (p : Farewell) (up : s.reachable = true) :
    Withdrawn e (s.find? e.key) p ((e.withdraw s p).1.find? e.key) (e.withdraw s p).2 := by
  cases p with
  | checkOwner =>
    cases found : s.find? e.key with
    | none =>
      have done : e.withdraw s .checkOwner = (s, none) := by
        simp [withdraw, Store.get, command, up, found]
      rw [done, found]
      exact .ended
    | some l =>
      by_cases own : l.value = e.id
      next =>
        have done : e.withdraw s .checkOwner = (s, some .delete) := by
          simp [withdraw, Store.get, command, up, found, own]
        rw [done, found]
        exact .owned rfl own
      next =>
        have done : e.withdraw s .checkOwner = (s, none) := by
          simp [withdraw, Store.get, command, up, found, own]
        rw [done, found]
        exact .ended
  | delete =>
    have done : e.withdraw s .delete = (s.erase e.key, none) := by
      simp [withdraw, delete, command, up]
    rw [done, find?_erase_self]
    exact .deleted

theorem Withdrawn.unanswered {found after : Option Stored} {p : Farewell} {next : Option Farewell}
    (carried : Withdrawn e found p after next) : Withdrawn e found p after none := by
  cases carried with
  | ended => exact .ended
  | owned here =>
    subst here
    exact .ended
  | deleted => exact .deleted

theorem withdrawn (p : Farewell) :
    Withdrawn e (s.find? e.key) p ((d.run (e.withdraw · p) s).1.find? e.key) (d.run (e.withdraw · p) s).2 := by
  have carried := withdrawn_reachable (e := e) (s := { s with reachable := true }) p rfl
  have silent := withdraw_unreachable (e := e) p s
  cases d with
  | answered => exact carried
  | refused =>
    simp only [Delivery.run, silent]
    exact .ended
  | unanswered =>
    simp only [Delivery.run, silent]
    exact carried.unanswered

end Effect

end Elector

end Flowsheet
