import Flowsheet.Proofs.Election.Commands
import Mathlib.Logic.Function.Basic

set_option autoImplicit false

namespace Flowsheet

namespace Elector

variable {e : Elector} {s : Store}

theorem isLeader_conclude (v : Verdict) : (e.conclude v).isLeader = v.holds := by
  unfold conclude
  cases holds : v.holds <;> cases leads : e.isLeader <;> simp [leads]

inductive Attempted (e : Elector) (now : Int) (answered : Prop) (found : Option Stored) :
    Option Stored → Verdict → Prop
  | kept {v : Verdict} (fails : v.holds = false)
      (reason : answered → ∃ l, found = some l ∧ l.value ≠ e.id) : Attempted e now answered found found v
  | taken {v : Verdict} (mine : ∀ l, found = some l → l.value = e.id) (answer : answered → v.holds = true) :
    Attempted e now answered found (some (e.lease now)) v

theorem attempted (lasting : e.leaseTTL.isPositive = true) (ds : Phase → Delivery) :
    (e.tryAcquireBy ds s).1.clock = s.clock ∧
      Attempted e s.clock (∀ p, ds p = .answered) (s.find? e.key) ((e.tryAcquireBy ds s).1.find? e.key)
        (e.tryAcquireBy ds s).2 := by
  -- Each command sees the lease that the one before it has left; an attempt ends where one goes wrong.
  unfold tryAcquireBy
  have clock₁ := clock_advance (e := e) (s := s) (ds .lock) .lock
  have lock := issued (e := e) (s := s) (ds .lock) lasting .lock
  generalize (ds .lock).run (e.advance · .lock) s = r at clock₁ lock ⊢
  obtain ⟨s₁, n⟩ := r
  dsimp only at clock₁ lock ⊢
  generalize s.find? e.key = found, after₁ : s₁.find? e.key = l₁ at lock
  cases lock with
  | failed fails reason =>
    rw [after₁]
    exact ⟨clock₁, .kept fails fun all => nomatch (reason (all _)).1⟩
  | taken free answer =>
    rw [after₁]
    exact ⟨clock₁, .taken (by simp [free]) fun all => answer (all _)⟩
  | @held l here =>
    subst here
    dsimp only
    have clock₂ := (clock_advance (e := e) (s := s₁) (ds .checkOwner) .checkOwner).trans clock₁
    have check := issued (e := e) (s := s₁) (ds .checkOwner) lasting .checkOwner
    generalize (ds .checkOwner).run (e.advance · .checkOwner) s₁ = r at clock₂ check ⊢
    obtain ⟨s₂, n⟩ := r
    dsimp only at clock₂ check ⊢
    rw [after₁] at check
    generalize after₂ : s₂.find? e.key = l₂ at check
    cases check with
    | failed fails reason =>
      rw [after₂]
      exact ⟨clock₂, .kept fails fun all => ⟨l, rfl, (reason (all _)).2 l rfl⟩⟩
    | owned here own =>
      cases here
      dsimp only
      have clock₃ := (clock_advance (e := e) (s := s₂) (ds .renew) .renew).trans clock₂
      have renew := issued (e := e) (s := s₂) (ds .renew) lasting .renew
      generalize (ds .renew).run (e.advance · .renew) s₂ = r at clock₃ renew ⊢
      obtain ⟨s₃, n⟩ := r
      dsimp only at clock₃ renew ⊢
      rw [after₂, clock₂] at renew
      generalize after₃ : s₃.find? e.key = l₃ at renew
      cases renew with
      | failed fails reason =>
        rw [after₃]
        exact ⟨clock₃, .kept fails fun all => nomatch (reason (all _)).1⟩
      | renewed here answer =>
        cases here
        have mine : ({ l with expires := some (s.clock + e.leaseTTL.nanoseconds) } : Stored) = e.lease s.clock := by
          simp [lease, own]
        rw [after₃, mine]
        exact ⟨clock₃, .taken (by simp [own]) fun all => answer (all _)⟩
      | lapsed gone => cases gone

theorem relinquishBy_lease (ds : Farewell → Delivery) :
    (e.relinquishBy ds s).1.clock = s.clock ∧ ((e.relinquishBy ds s).1.find? e.key = s.find? e.key ∨
      (∃ l, s.find? e.key = some l ∧ l.value = e.id) ∧ (e.relinquishBy ds s).2.isLeader = false) := by
  unfold relinquishBy
  split
  next => exact ⟨rfl, .inl rfl⟩
  next =>
    have clock₁ := clock_withdraw (e := e) (s := s) (ds .checkOwner) .checkOwner
    have check := withdrawn (e := e) (s := s) (ds .checkOwner) .checkOwner
    dsimp only
    generalize (ds .checkOwner).run (e.withdraw · .checkOwner) s = r at clock₁ check ⊢
    obtain ⟨s₁, n⟩ := r
    dsimp only at clock₁ check ⊢
    generalize after₁ : s₁.find? e.key = l₁ at check
    cases check with
    | ended => exact ⟨clock₁, .inl after₁⟩
    | @owned l here own =>
      have clock₂ := (clock_withdraw (e := e) (s := s₁) (ds .delete) .delete).trans clock₁
      have delete := withdrawn (e := e) (s := s₁) (ds .delete) .delete
      rw [after₁] at delete
      dsimp only
      generalize (ds .delete).run (e.withdraw · .delete) s₁ = r at clock₂ delete ⊢
      obtain ⟨s₂, n⟩ := r
      exact ⟨clock₂, .inr ⟨⟨l, here, own⟩, rfl⟩⟩

theorem stopBy_lease (ds : Farewell → Delivery) :
    (e.stopBy ds s).1.clock = s.clock ∧ ((e.stopBy ds s).1.find? e.key = s.find? e.key ∨
      (∃ l, s.find? e.key = some l ∧ l.value = e.id) ∧ (e.stopBy ds s).2.isLeader = false) := by
  unfold stopBy
  split
  next => exact ⟨rfl, .inl rfl⟩
  next => exact relinquishBy_lease (e := { e with stopped := true }) ds

structure SameCandidate (e e' : Elector) : Prop where
  id : e'.id = e.id
  key : e'.key = e.key
  leaseTTL : e'.leaseTTL = e.leaseTTL

theorem SameCandidate.lease {e' : Elector} (same : e.SameCandidate e') (now : Int) : e'.lease now = e.lease now := by
  rw [Elector.lease, Elector.lease, same.id, same.leaseTTL]

theorem sameCandidate_conclude (v : Verdict) : e.SameCandidate (e.conclude v) := by
  unfold conclude
  split
  next => exact ⟨rfl, rfl, rfl⟩
  next =>
    split
    next => exact ⟨rfl, rfl, rfl⟩
    next => exact ⟨rfl, rfl, rfl⟩

theorem sameCandidate_stopBy (ds : Farewell → Delivery) : e.SameCandidate (e.stopBy ds s).2 := by
  unfold stopBy relinquishBy
  split
  next => exact ⟨rfl, rfl, rfl⟩
  next =>
    split
    next => exact ⟨rfl, rfl, rfl⟩
    next =>
      dsimp only
      split
      next => exact ⟨rfl, rfl, rfl⟩
      next => exact ⟨rfl, rfl, rfl⟩

theorem leader_of_stopBy (ds : Farewell → Delivery) (leads : (e.stopBy ds s).2.isLeader = true) :
    e.isLeader = true := by
  unfold stopBy relinquishBy at leads
  split at leads
  next => exact leads
  next =>
    split at leads
    next => exact leads
    next =>
      dsimp only at leads
      split at leads
      next => cases leads
      next => cases leads

end Elector

variable {ι : Type}

/-- Electors that hold leases of some length under one key, each in its own name. -/
structure Rivals (elector : ι → Elector) (key : String) : Prop where
  keyed : ∀ i, (elector i).key = key
  distinct : Function.Injective fun i => (elector i).id
  lasting : ∀ i, (elector i).leaseTTL.isPositive = true

namespace Rivals

variable {elector : ι → Elector} {key : String}

theorem of_same (rivals : Rivals elector key) {elector' : ι → Elector}
    (same : ∀ i, (elector i).SameCandidate (elector' i)) : Rivals elector' key := by
  constructor
  next => exact fun i => (same i).key.trans (rivals.keyed i)
  next =>
    intro i j equal
    exact rivals.distinct ((same i).id.symm.trans (equal.trans (same j).id))
  next => exact fun i => (congrArg Duration.isPositive (same i).leaseTTL).trans (rivals.lasting i)

theorem update [DecidableEq ι] (rivals : Rivals elector key) {i : ι} {e : Elector}
    (same : (elector i).SameCandidate e) : Rivals (Function.update elector i e) key := by
  refine rivals.of_same fun j => ?_
  by_cases here : j = i
  next =>
    subst here
    simpa using same
  next =>
    rw [Function.update_of_ne here]
    exact ⟨rfl, rfl, rfl⟩

theorem attempted (rivals : Rivals elector key) (s : Store) (i : ι) (fares : Elector.Phase → Delivery) :
    ((elector i).tryAcquireBy fares s).1.clock = s.clock ∧
      (elector i).Attempted s.clock (∀ p, fares p = .answered) (s.find? key)
        (((elector i).tryAcquireBy fares s).1.find? key) ((elector i).tryAcquireBy fares s).2 := by
  have effect := Elector.attempted (s := s) (rivals.lasting i) fares
  rwa [rivals.keyed i] at effect

theorem stopped (rivals : Rivals elector key) (s : Store) (i : ι) (fares : Elector.Farewell → Delivery) :
    ((elector i).stopBy fares s).1.clock = s.clock ∧ (((elector i).stopBy fares s).1.find? key = s.find? key ∨
      (∃ l, s.find? key = some l ∧ l.value = (elector i).id) ∧ ((elector i).stopBy fares s).2.isLeader = false) := by
  have effect := Elector.stopBy_lease (e := elector i) (s := s) fares
  rwa [rivals.keyed i] at effect

end Rivals

structure Contest (ι : Type) where
  store : Store
  elector : ι → Elector
  asked : ι → Int

inductive Turn (ι : Type) where
  | elect (i : ι) (fares : Elector.Phase → Delivery)
  | stop (i : ι) (fares : Elector.Farewell → Delivery)
  | wait (nanoseconds : Nat)

namespace Contest

section Run

variable [DecidableEq ι]

def after (w : Contest ι) : Turn ι → Contest ι
  | .elect i fares =>
    let (store, e, _) := (w.elector i).electBy fares w.store
    { store, elector := Function.update w.elector i e, asked := Function.update w.asked i w.store.clock }
  | .stop i fares =>
    let (store, e) := (w.elector i).stopBy fares w.store
    { w with store, elector := Function.update w.elector i e }
  | .wait n => { w with store := w.store.advance ⟨n⟩ }

def run (w : Contest ι) (turns : List (Turn ι)) : Contest ι := turns.foldl after w

end Run

def Leads (w : Contest ι) (i : ι) : Prop := (w.elector i).isLeader = true

def Owns (w : Contest ι) (key : String) (i : ι) : Prop :=
  ∃ l, w.store.find? key = some l ∧ l.value = (w.elector i).id

def Lapsed (w : Contest ι) (i : ι) : Prop :=
  w.asked i + (w.elector i).leaseTTL.nanoseconds ≤ w.store.clock

/-- Every leader's last election is less than the time of its lease ago. -/
def InTime (w : Contest ι) : Prop := ∀ i, w.Leads i → ¬ w.Lapsed i

def Punctual [DecidableEq ι] : Contest ι → List (Turn ι) → Prop
  | w, [] => w.InTime
  | w, turn :: turns => w.InTime ∧ Punctual (w.after turn) turns

/-- A leader's lease is the one of its last election, unless that has lapsed. -/
def Backed (w : Contest ι) (key : String) : Prop :=
  ∀ i, w.Leads i → w.store.find? key = some ((w.elector i).lease (w.asked i)) ∨ w.Lapsed i

variable {w : Contest ι} {key : String}

theorem Backed.of_same {w' : Contest ι} (backed : w.Backed key) {j : ι} (leads : w.Leads j)
    (same : w'.elector j = w.elector j) (asked : w'.asked j = w.asked j) (clock : w'.store.clock = w.store.clock)
    (lease : ∀ l, w.store.find? key = some l → l.value = (w.elector j).id → w'.store.find? key = some l) :
    w'.store.find? key = some ((w'.elector j).lease (w'.asked j)) ∨ w'.Lapsed j := by
  rw [Lapsed, same, asked, clock]
  exact (backed j leads).imp_left fun owned => lease _ owned rfl

theorem owns_of_find? {i : ι} {now : Int} (found : w.store.find? key = some ((w.elector i).lease now)) :
    w.Owns key i := ⟨_, found, rfl⟩

theorem Owns.unique (rivals : Rivals w.elector key) {i j : ι} (owns : w.Owns key i) (owns' : w.Owns key j) : i = j := by
  obtain ⟨l, found, owner⟩ := owns
  obtain ⟨l', found', owner'⟩ := owns'
  obtain rfl := Option.some.inj (found.symm.trans found')
  exact rivals.distinct (owner.symm.trans owner')

section Step

variable [DecidableEq ι]

theorem rivals_after (rivals : Rivals w.elector key) (turn : Turn ι) : Rivals (w.after turn).elector key := by
  cases turn with
  | elect i fares => exact rivals.update (Elector.sameCandidate_conclude _)
  | stop i fares => exact rivals.update (Elector.sameCandidate_stopBy fares)
  | wait n => exact rivals

theorem leads_elect {i : ι} {fares : Elector.Phase → Delivery} : (w.after (.elect i fares)).Leads i ↔
    ((w.elector i).tryAcquireBy fares w.store).2.holds = true := by
  simp [Leads, Contest.after, Elector.electBy, Elector.isLeader_conclude]

theorem clock_elect (rivals : Rivals w.elector key) (i : ι) (fares : Elector.Phase → Delivery) :
    (w.after (.elect i fares)).store.clock = w.store.clock :=
  (rivals.attempted w.store i fares).1

theorem clock_stop (rivals : Rivals w.elector key) (i : ι) (fares : Elector.Farewell → Delivery) :
    (w.after (.stop i fares)).store.clock = w.store.clock :=
  (rivals.stopped w.store i fares).1

theorem find?_elect (rivals : Rivals w.elector key) {i : ι} {l : Stored} (found : w.store.find? key = some l)
    (foreign : l.value ≠ (w.elector i).id) (fares : Elector.Phase → Delivery) :
    (w.after (.elect i fares)).store.find? key = some l := by
  have effect := (rivals.attempted w.store i fares).2
  change ((w.elector i).tryAcquireBy fares w.store).1.find? key = some l
  generalize ((w.elector i).tryAcquireBy fares w.store).1.find? key = l' at effect ⊢
  rw [found] at effect
  cases effect with
  | kept => rfl
  | taken mine => exact absurd (mine l rfl) foreign

theorem find?_stop (rivals : Rivals w.elector key) {i : ι} {l : Stored} (found : w.store.find? key = some l)
    (foreign : l.value ≠ (w.elector i).id) (fares : Elector.Farewell → Delivery) :
    (w.after (.stop i fares)).store.find? key = some l := by
  rcases (rivals.stopped w.store i fares).2 with kept | ⟨⟨l', here, own⟩, -⟩
  next => exact kept.trans found
  next =>
    obtain rfl := Option.some.inj (found.symm.trans here)
    exact absurd own foreign

theorem find?_of_leads_elect (rivals : Rivals w.elector key) {i : ι} {fares : Elector.Phase → Delivery}
    (leads : (w.after (.elect i fares)).Leads i) :
    (w.after (.elect i fares)).store.find? key = some ((w.elector i).lease w.store.clock) := by
  have effect := (rivals.attempted w.store i fares).2
  rw [leads_elect] at leads
  change ((w.elector i).tryAcquireBy fares w.store).1.find? key = _
  generalize ((w.elector i).tryAcquireBy fares w.store).1.find? key = l,
    ((w.elector i).tryAcquireBy fares w.store).2 = v at effect leads ⊢
  cases effect with
  | kept fails =>
    rw [fails] at leads
    cases leads
  | taken => rfl

theorem Backed.elect (backed : w.Backed key) (rivals : Rivals w.elector key) (i : ι) (fares : Elector.Phase → Delivery) :
    (w.after (.elect i fares)).Backed key := by
  intro j leads
  by_cases here : j = i
  next =>
    subst here
    left
    rw [find?_of_leads_elect rivals leads]
    simp [Contest.after, Elector.electBy, (Elector.sameCandidate_conclude _).lease]
  next =>
    have same : (w.after (.elect i fares)).elector j = w.elector j := by
      simp [Contest.after, Elector.electBy, here]
    have asked : (w.after (.elect i fares)).asked j = w.asked j := by
      simp [Contest.after, here]
    rw [Leads, same] at leads
    refine backed.of_same leads same asked (clock_elect rivals i fares) fun l found owner => ?_
    exact find?_elect rivals found (owner ▸ fun equal => here (rivals.distinct equal)) fares

theorem Backed.stop (backed : w.Backed key) (rivals : Rivals w.elector key) (i : ι) (fares : Elector.Farewell → Delivery) :
    (w.after (.stop i fares)).Backed key := by
  intro j leads
  by_cases here : j = i
  next =>
    subst here
    have same := Elector.sameCandidate_stopBy (e := w.elector j) (s := w.store) fares
    have still : ((w.elector j).stopBy fares w.store).2.isLeader = true := by
      simpa [Leads, Contest.after] using leads
    have kept : (w.after (.stop j fares)).store.find? key = w.store.find? key := by
      rcases (rivals.stopped w.store j fares).2 with kept | ⟨-, left_⟩
      next => exact kept
      next => exact absurd left_ (still ▸ nofun)
    have now : (w.after (.stop j fares)).elector j = ((w.elector j).stopBy fares w.store).2 := by
      simp [Contest.after]
    rw [Lapsed, now, same.leaseTTL, same.lease, kept, clock_stop rivals]
    exact backed j (Elector.leader_of_stopBy fares still)
  next =>
    have same : (w.after (.stop i fares)).elector j = w.elector j := by
      simp [Contest.after, here]
    rw [Leads, same] at leads
    refine backed.of_same leads same rfl (clock_stop rivals i fares) fun l found owner => ?_
    exact find?_stop rivals found (owner ▸ fun equal => here (rivals.distinct equal)) fares

theorem Backed.wait (backed : w.Backed key) (n : Nat) : (w.after (.wait n)).Backed key := by
  intro j leads
  have clock : (w.after (.wait n)).store.clock = w.store.clock + n := rfl
  by_cases late : (w.after (.wait n)).Lapsed j
  next => exact .inr late
  next =>
    left
    rcases backed j leads with owned | lapsed
    next =>
      have later : (w.after (.wait n)).store.find? key =
          (w.store.find? key).filter (Store.Stored.isLive (w.store.clock + n)) :=
        Store.find?_advance (Int.natCast_nonneg n)
      rw [Lapsed, clock] at late
      rw [later, owned, Option.filter_some, if_pos]
      next => rfl
      next => exact decide_eq_true (Int.not_le.mp late)
    next =>
      refine absurd ?_ late
      rw [Lapsed, clock]
      exact Int.le_trans lapsed (Int.le_add_of_nonneg_right (Int.natCast_nonneg n))

theorem Backed.after (backed : w.Backed key) (rivals : Rivals w.elector key) (turn : Turn ι) :
    (w.after turn).Backed key := by
  cases turn with
  | elect i fares => exact backed.elect rivals i fares
  | stop i fares => exact backed.stop rivals i fares
  | wait n => exact backed.wait n

theorem Backed.run (backed : w.Backed key) (rivals : Rivals w.elector key) (turns : List (Turn ι)) :
    (w.run turns).Backed key ∧ Rivals (w.run turns).elector key := by
  induction turns generalizing w with
  | nil => exact ⟨backed, rivals⟩
  | cons turn turns ih => exact ih (backed.after rivals turn) (rivals_after rivals turn)

theorem Punctual.inTime {turns : List (Turn ι)} (punctual : w.Punctual turns) : (w.run turns).InTime := by
  induction turns generalizing w with
  | nil => exact punctual
  | cons turn turns ih => exact ih punctual.2

theorem owns_elect_iff (rivals : Rivals w.elector key) {i : ι} {fares : Elector.Phase → Delivery}
    (answered : ∀ p, fares p = .answered) :
    (w.after (.elect i fares)).Leads i ↔ (w.after (.elect i fares)).Owns key i := by
  have same : ((w.after (.elect i fares)).elector i).id = (w.elector i).id := by
    simp [Contest.after, Elector.electBy, (Elector.sameCandidate_conclude _).id]
  constructor
  next =>
    intro leads
    exact ⟨_, find?_of_leads_elect rivals leads, same.symm⟩
  next =>
    rintro ⟨l, found, owner⟩
    rw [same] at owner
    have effect := (rivals.attempted w.store i fares).2
    rw [leads_elect]
    change ((w.elector i).tryAcquireBy fares w.store).1.find? key = some l at found
    rw [found] at effect
    generalize ((w.elector i).tryAcquireBy fares w.store).2 = v at effect ⊢
    generalize w.store.find? key = before at effect
    cases effect with
    | kept _ reason =>
      obtain ⟨l', here, foreign⟩ := reason answered
      cases here
      exact absurd owner foreign
    | taken _ answer => exact answer answered

/-- Whoever leads owns the live lease or has let it lapse, and no elector touches the live lease of
another. Leaders that are back in time are alone. -/
theorem leader_owns_lease (rivals : Rivals w.elector key) (idle : ∀ i, ¬ w.Leads i) (turns : List (Turn ι)) :
    (∀ i, (w.run turns).Leads i → (w.run turns).Owns key i ∨ (w.run turns).Lapsed i) ∧
    (∀ i l, (w.run turns).store.find? key = some l → l.value ≠ ((w.run turns).elector i).id →
      (∀ fares, ((w.run turns).after (.elect i fares)).store.find? key = some l) ∧
      ∀ fares, ((w.run turns).after (.stop i fares)).store.find? key = some l) ∧
    (∀ i fares, (∀ p, fares p = .answered) → (((w.run turns).after (.elect i fares)).Leads i ↔
      ((w.run turns).after (.elect i fares)).Owns key i)) ∧
    (w.Punctual turns → ∀ i j, (w.run turns).Leads i → (w.run turns).Leads j → i = j) := by
  have start : w.Backed key := fun i leads => absurd leads (idle i)
  obtain ⟨backed, rivals⟩ := start.run rivals turns
  have owns (i : ι) (leads : (w.run turns).Leads i) : (w.run turns).Owns key i ∨ (w.run turns).Lapsed i :=
    (backed i leads).imp_left owns_of_find?
  refine ⟨owns, ?_, ?_, ?_⟩
  next =>
    intro i l found foreign
    exact ⟨fun fares => find?_elect rivals found foreign fares, fun fares => find?_stop rivals found foreign fares⟩
  next => exact fun i fares answered => owns_elect_iff rivals answered
  next =>
    intro punctual i j leads leads'
    have alive (i : ι) (leads : (w.run turns).Leads i) : (w.run turns).Owns key i :=
      (owns i leads).resolve_right (punctual.inTime i leads)
    exact Owns.unique rivals (alive i leads) (alive j leads')

end Step

def pair : Contest Bool where
  store := {}
  elector i := { id := if i then "a" else "b", key := "leader", leaseTTL := .ofSeconds 10 }
  asked _ := 0

def handover : List (Turn Bool) :=
  let seconds (n : Nat) : Turn Bool := .wait (n * 1000000000)
  [.elect true fun _ => .answered, seconds 3, .elect false fun _ => .answered, .elect true fun _ => .answered,
    seconds 9, .elect false fun _ => .unanswered, .stop true fun _ => .answered, .elect false fun _ => .answered]

theorem leader_owns_lease_handover : Rivals pair.elector "leader" ∧ (∀ i, ¬ pair.Leads i) ∧ pair.Punctual handover ∧
    (pair.run handover).Leads false ∧ ∀ i, (pair.run handover).Leads i → i = false := by
  have rivals : Rivals pair.elector "leader" := by
    refine ⟨fun _ => rfl, ?_, fun _ => rfl⟩
    change ∀ i j, (pair.elector i).id = (pair.elector j).id → i = j
    decide
  have idle : ∀ i, ¬ pair.Leads i := fun _ => nofun
  have punctual : pair.Punctual handover := by
    simp only [Punctual, handover, InTime, Leads, Lapsed]
    decide +kernel
  have leads : (pair.run handover).Leads false := by
    unfold Leads
    decide +kernel
  exact ⟨rivals, idle, punctual, leads, fun i leads' =>
    (leader_owns_lease rivals idle handover).2.2.2 punctual i false leads' leads⟩

end Contest

end Flowsheet
