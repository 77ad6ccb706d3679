import Flowsheet.Proofs.Election.Leadership

set_option autoImplicit false

namespace Flowsheet

inductive Activity where
  | resting
  | acquiring (p : Elector.Phase)
  | leaving (p : Elector.Farewell)
deriving DecidableEq

structure Racer where
  elector : Elector
  activity : Activity := .resting
  seen : Option Stored := none

namespace Racer

def progress (r : Racer) (d : Delivery) (s : Store) : Store × Racer :=
  let seen := s.find? r.elector.key
  match r.activity with
  | .resting => (s, r)
  | .acquiring p =>
    match d.run (r.elector.advance · p) s with
    | (s, .inl p) => (s, { r with activity := .acquiring p, seen })
    | (s, .inr v) => (s, { elector := r.elector.conclude v, activity := .resting, seen })
  | .leaving p =>
    match d.run (r.elector.withdraw · p) s with
    | (s, some p) => (s, { r with activity := .leaving p, seen })
    | (s, none) => (s, { elector := { r.elector with isLeader := false }, activity := .resting, seen })

def Acts (r : Racer) : Prop := r.activity = .acquiring .renew ∨ r.activity = .leaving .delete

instance (r : Racer) : Decidable r.Acts := inferInstanceAs (Decidable (_ ∨ _))

section Whole

open Elector

def Follows : Phase → Phase → Prop
  | .lock, p => p = .checkOwner
  | .checkOwner, p => p = .renew
  | .renew, _ => False

theorem follows_of_run {e : Elector} {d : Delivery} {s : Store} {p q : Phase}
    (next : (d.run (e.advance · p) s).2 = .inl q) : Follows p q := by
  have reached (s : Store) (next : (e.advance s p).2 = .inl q) : Follows p q := by
    unfold advance at next
    cases p <;> grind [Follows]
  cases d with
  | answered => exact reached _ next
  | refused | unanswered => exact reached { s with reachable := false } next

variable {e : Elector} {seen : Option Stored} {d : Delivery} {s s' : Store}

theorem progress_continued {p q : Phase} (next : d.run (e.advance · p) s = (s', .inl q)) :
    (Racer.mk e (.acquiring p) seen).progress d s = (s', ⟨e, .acquiring q, s.find? e.key⟩) := by
  simp [progress, next]

theorem progress_ended {p : Phase} {v : Verdict} (next : d.run (e.advance · p) s = (s', .inr v)) :
    (Racer.mk e (.acquiring p) seen).progress d s = (s', ⟨e.conclude v, .resting, s.find? e.key⟩) := by
  simp [progress, next]

theorem progress_elect (fares : Phase → Delivery) :
    let one := (Racer.mk e (.acquiring .lock) seen).progress (fares .lock) s
    let two := one.2.progress (fares .checkOwner) one.1
    let three := two.2.progress (fares .renew) two.1
    three.1 = (e.electBy fares s).1 ∧ three.2.elector = (e.electBy fares s).2.1 ∧
      three.2.activity = .resting := by
  unfold electBy tryAcquireBy
  dsimp only
  rcases lock : (fares .lock).run (e.advance · .lock) s with ⟨s₁, p | v⟩
  next =>
    obtain rfl : p = .checkOwner := follows_of_run (congrArg Prod.snd lock)
    rw [progress_continued lock]
    dsimp only
    rcases check : (fares .checkOwner).run (e.advance · .checkOwner) s₁ with ⟨s₂, p | v⟩
    next =>
      obtain rfl : p = .renew := follows_of_run (congrArg Prod.snd check)
      rw [progress_continued check]
      dsimp only
      rcases renew : (fares .renew).run (e.advance · .renew) s₂ with ⟨s₃, p | v⟩
      next => exact (follows_of_run (congrArg Prod.snd renew)).elim
      next =>
        rw [progress_ended renew]
        exact ⟨rfl, rfl, rfl⟩
    next =>
      rw [progress_ended check]
      exact ⟨rfl, rfl, rfl⟩
  next =>
    rw [progress_ended lock]
    exact ⟨rfl, rfl, rfl⟩

theorem delete_of_run {p q : Farewell} (next : (d.run (e.withdraw · p) s).2 = some q) :
    p = .checkOwner ∧ q = .delete := by
  have effect := withdrawn (e := e) (s := s) d p
  rw [next] at effect
  generalize (d.run (e.withdraw · p) s).1.find? e.key = l at effect
  cases effect with
  | owned => exact ⟨rfl, rfl⟩

theorem progress_relinquish (leads : e.isLeader = true) (fares : Farewell → Delivery) :
    let one := (Racer.mk e (.leaving .checkOwner) seen).progress (fares .checkOwner) s
    let two := one.2.progress (fares .delete) one.1
    two.1 = (e.relinquishBy fares s).1 ∧ two.2.elector = (e.relinquishBy fares s).2 ∧
      two.2.activity = .resting := by
  unfold relinquishBy
  simp only [progress, leads, Bool.not_true, Bool.false_eq_true, if_false]
  rcases check : (fares .checkOwner).run (e.withdraw · .checkOwner) s with ⟨s₁, _ | p⟩
  next => exact ⟨rfl, rfl, rfl⟩
  next =>
    obtain ⟨-, rfl⟩ := delete_of_run (congrArg Prod.snd check)
    dsimp only
    rcases delete : (fares .delete).run (e.withdraw · .delete) s₁ with ⟨s₂, _ | p⟩
    next => exact ⟨rfl, rfl, rfl⟩
    next => exact nomatch (delete_of_run (congrArg Prod.snd delete)).1

end Whole

section Effect

variable {r : Racer} {d : Delivery} {s : Store}

theorem store_acquiring {e : Elector} {p : Elector.Phase} {seen : Option Stored} :
    ((Racer.mk e (.acquiring p) seen).progress d s).1 = (d.run (e.advance · p) s).1 := by
  simp only [progress]
  split <;> simp_all

theorem store_leaving {e : Elector} {p : Elector.Farewell} {seen : Option Stored} :
    ((Racer.mk e (.leaving p) seen).progress d s).1 = (d.run (e.withdraw · p) s).1 := by
  simp only [progress]
  split <;> simp_all

theorem clock_progress : (r.progress d s).1.clock = s.clock := by
  obtain ⟨e, _ | p | p, seen⟩ := r
  next => rfl
  next =>
    rw [store_acquiring]
    exact Elector.clock_advance d p
  next =>
    rw [store_leaving]
    exact Elector.clock_withdraw d p

theorem sameCandidate_progress : r.elector.SameCandidate (r.progress d s).2.elector := by
  obtain ⟨e, _ | p | p, seen⟩ := r
  next => exact ⟨rfl, rfl, rfl⟩
  next =>
    simp only [progress]
    split
    next => exact ⟨rfl, rfl, rfl⟩
    next => exact Elector.sameCandidate_conclude _
  next =>
    simp only [progress]
    split
    next => exact ⟨rfl, rfl, rfl⟩
    next => exact ⟨rfl, rfl, rfl⟩

theorem find?_progress (lasting : r.elector.leaseTTL.isPositive = true) (modest : ¬ r.Acts)
    {l : Stored} (found : s.find? r.elector.key = some l) : (r.progress d s).1.find? r.elector.key = some l := by
  obtain ⟨e, _ | p | p, seen⟩ := r
  next => exact found
  next =>
    have effect := Elector.issued (s := s) d lasting p
    dsimp only at effect found ⊢
    rw [store_acquiring]
    rw [found] at effect
    generalize (d.run (e.advance · p) s).1.find? e.key = after, (d.run (e.advance · p) s).2 = next at effect ⊢
    cases effect with
    | failed => rfl
    | taken free => cases free
    | held here => exact here.symm
    | owned here => exact here.symm
    | renewed => exact absurd (.inl rfl) modest
    | lapsed gone => cases gone
  next =>
    have effect := Elector.withdrawn (e := e) (s := s) d p
    dsimp only at effect found ⊢
    rw [store_leaving]
    rw [found] at effect
    generalize (d.run (e.withdraw · p) s).1.find? e.key = after, (d.run (e.withdraw · p) s).2 = next at effect ⊢
    cases effect with
    | ended => rfl
    | owned here => exact here.symm
    | deleted => exact absurd (.inr rfl) modest

theorem own_of_acts (lasting : r.elector.leaseTTL.isPositive = true) (acts : (r.progress d s).2.Acts)
    (modest : r.activity ≠ .resting) :
    ∃ l, (r.progress d s).2.seen = some l ∧ l.value = r.elector.id ∧
      (r.progress d s).1.find? r.elector.key = some l := by
  obtain ⟨e, _ | p | p, seen⟩ := r
  next => exact absurd rfl modest
  next =>
    -- Only a check that finds the own lease is followed by a renewal.
    have effect := Elector.issued (s := s) d lasting p
    rcases done : d.run (e.advance · p) s with ⟨s', q | v⟩
    next =>
      rw [progress_continued done] at acts ⊢
      rcases acts with next | next
      next =>
        cases next
        rw [done] at effect
        dsimp only at effect ⊢
        generalize s.find? e.key = before, s'.find? e.key = after at effect ⊢
        cases effect with
        | owned here own => exact ⟨_, here, own, rfl⟩
      next => cases next
    next =>
      rw [progress_ended done] at acts
      rcases acts with next | next
      next => cases next
      next => cases next
  next =>
    -- In the same way only such a check is followed by a deletion.
    have effect := Elector.withdrawn (e := e) (s := s) d p
    rcases done : d.run (e.withdraw · p) s with ⟨s', _ | q⟩
    next =>
      simp only [progress, done] at acts
      rcases acts with next | next
      next => cases next
      next => cases next
    next =>
      rw [done] at effect
      simp only [progress, done] at effect acts ⊢
      generalize s.find? e.key = before, s'.find? e.key = after at effect ⊢
      cases effect with
      | owned here own => exact ⟨_, here, own, rfl⟩

end Effect

end Racer

variable {ι : Type}

structure Race (ι : Type) where
  store : Store
  racer : ι → Racer

inductive Move (ι : Type) where
  | attempt (i : ι)
  | leave (i : ι)
  | command (i : ι) (fares : Delivery)
  | wait (nanoseconds : Nat)

namespace Race

section Run

variable [DecidableEq ι]

def after (w : Race ι) : Move ι → Race ι
  | .attempt i =>
    let r := w.racer i
    if r.activity = .resting then
      { w with racer := Function.update w.racer i { r with activity := .acquiring .lock } }
    else w
  | .leave i =>
    let r := w.racer i
    if r.activity = .resting ∧ r.elector.isLeader = true then
      { w with racer := Function.update w.racer i { r with activity := .leaving .checkOwner } }
    else w
  | .command i fares =>
    let (store, r) := (w.racer i).progress fares w.store
    { store, racer := Function.update w.racer i r }
  | .wait n => { w with store := w.store.advance ⟨n⟩ }

def run (w : Race ι) (moves : List (Move ι)) : Race ι := moves.foldl after w

def Timely (w : Race ι) : Move ι → Prop
  | .command i _ => (w.racer i).Acts → (w.racer i).seen.all (Store.Stored.isLive w.store.clock) = true
  | .attempt _ | .leave _ | .wait _ => True

instance (w : Race ι) : (move : Move ι) → Decidable (w.Timely move)
  | .command _ _ => inferInstanceAs (Decidable (_ → _))
  | .attempt _ | .leave _ | .wait _ => inferInstanceAs (Decidable True)

def Prompt : Race ι → List (Move ι) → Prop
  | _, [] => True
  | w, move :: moves => w.Timely move ∧ Prompt (w.after move) moves

instance decidablePrompt : (w : Race ι) → (moves : List (Move ι)) → Decidable (w.Prompt moves)
  | _, [] => inferInstanceAs (Decidable True)
  | w, move :: moves =>
    have := decidablePrompt (w.after move) moves
    inferInstanceAs (Decidable (_ ∧ _))

end Run

def elector (w : Race ι) (i : ι) : Elector := (w.racer i).elector

-- Who is about to renew or delete the lease has found it to be its own, and it is still there unless it has
-- lapsed.
def Rightful (w : Race ι) (key : String) : Prop :=
  ∀ i, (w.racer i).Acts → ∃ l, (w.racer i).seen = some l ∧ l.value = (w.elector i).id ∧
    (Store.Stored.isLive w.store.clock l = true → w.store.find? key = some l)

def Owns (w : Race ι) (key : String) (i : ι) : Prop :=
  ∃ l, w.store.find? key = some l ∧ l.value = (w.elector i).id

variable {w : Race ι} {key : String}

theorem Rightful.owns (rightful : w.Rightful key) [DecidableEq ι] {i : ι} {fares : Delivery}
    (timely : w.Timely (.command i fares)) (acts : (w.racer i).Acts) : w.Owns key i := by
  obtain ⟨l, seen, own, present⟩ := rightful i acts
  have live := timely acts
  rw [seen] at live
  exact ⟨l, present live, own⟩

section Step

variable [DecidableEq ι]

def turn (w : Race ι) (i : ι) (activity : Activity) : Race ι :=
  { w with racer := Function.update w.racer i { w.racer i with activity } }

theorem elector_turn (i : ι) (activity : Activity) : (w.turn i activity).elector = w.elector := by
  funext j
  by_cases here : j = i
  next =>
    subst here
    simp [elector, turn]
  next => simp [elector, turn, here]

theorem after_attempt (i : ι) : w.after (.attempt i) = w ∨ w.after (.attempt i) = w.turn i (.acquiring .lock) := by
  simp only [Race.after]
  split
  next => exact .inr rfl
  next => exact .inl rfl

theorem after_leave (i : ι) : w.after (.leave i) = w ∨ w.after (.leave i) = w.turn i (.leaving .checkOwner) := by
  simp only [Race.after]
  split
  next => exact .inr rfl
  next => exact .inl rfl

theorem rivals_after (rivals : Rivals w.elector key) (move : Move ι) : Rivals (w.after move).elector key := by
  cases move with
  | attempt i =>
    rcases after_attempt (w := w) i with same | turned
    next => rwa [same]
    next =>
      rwa [turned, elector_turn]
  | leave i =>
    rcases after_leave (w := w) i with same | turned
    next => rwa [same]
    next =>
      rwa [turned, elector_turn]
  | command i fares =>
    refine rivals.of_same fun j => ?_
    by_cases here : j = i
    next =>
      subst here
      simpa [elector, Race.after] using Racer.sameCandidate_progress
    next =>
      have same : (w.after (.command i fares)).elector j = w.elector j := by
        simp [elector, Race.after, here]
      rw [same]
      exact ⟨rfl, rfl, rfl⟩
  | wait n => exact rivals

theorem Rightful.turn (rightful : w.Rightful key) (i : ι) {activity : Activity}
    (modest : activity ≠ .acquiring .renew ∧ activity ≠ .leaving .delete) : (w.turn i activity).Rightful key := by
  intro j acts
  rw [elector_turn]
  by_cases here : j = i
  next =>
    subst here
    simp [Racer.Acts, Race.turn, modest] at acts
  next =>
    have same : (w.turn i activity).racer j = w.racer j := by simp [Race.turn, here]
    rw [same] at acts ⊢
    exact rightful j acts

theorem Rightful.command (rightful : w.Rightful key) (rivals : Rivals w.elector key) {i : ι} {fares : Delivery}
    (timely : w.Timely (.command i fares)) : (w.after (.command i fares)).Rightful key := by
  intro j acts
  by_cases here : j = i
  next =>
    subst here
    have now : (w.after (.command j fares)).racer j = ((w.racer j).progress fares w.store).2 := by
      simp [Race.after]
    have same := (Racer.sameCandidate_progress (r := w.racer j) (d := fares) (s := w.store)).id
    rw [now] at acts
    by_cases resting : (w.racer j).activity = .resting
    next =>
      simp [Racer.progress, Racer.Acts, resting] at acts
    next =>
      obtain ⟨l, seen, own, found⟩ := Racer.own_of_acts (rivals.lasting j) acts resting
      refine ⟨l, by rw [now]; exact seen, ?_, fun _ => ?_⟩
      next =>
        rw [elector, now, same]
        exact own
      next =>
        have key_ : (w.racer j).elector.key = key := rivals.keyed j
        rwa [key_] at found
  next =>
    have same : (w.after (.command i fares)).racer j = w.racer j := by simp [Race.after, here]
    have clock : (w.after (.command i fares)).store.clock = w.store.clock := Racer.clock_progress
    rw [same] at acts
    obtain ⟨l, seen, own, present⟩ := rightful j acts
    refine ⟨l, by rw [same]; exact seen, by rw [elector, same]; exact own, ?_⟩
    rw [clock]
    intro live
    by_cases modest : (w.racer i).Acts
    next =>
      -- both would own the one lease there is
      obtain ⟨l', found, owner⟩ := rightful.owns timely modest
      obtain rfl := Option.some.inj ((present live).symm.trans found)
      exact absurd (rivals.distinct (own.symm.trans owner)) here
    next =>
      have found := Racer.find?_progress (d := fares) (rivals.lasting i) modest
        (((congrArg w.store.find? (rivals.keyed i))).trans (present live))
      rwa [show (w.racer i).elector.key = key from rivals.keyed i] at found

theorem Rightful.wait (rightful : w.Rightful key) (n : Nat) : (w.after (.wait n)).Rightful key := by
  intro i acts
  obtain ⟨l, seen, own, present⟩ := rightful i acts
  refine ⟨l, seen, own, fun live => ?_⟩
  have later : (w.after (.wait n)).store.find? key =
      (w.store.find? key).filter (Store.Stored.isLive (w.store.clock + n)) :=
    Store.find?_advance (Int.natCast_nonneg n)
  have before := Store.isLive_of_le (Int.le_add_of_nonneg_right (Int.natCast_nonneg n)) live
  rw [later, present before, Option.filter_some, if_pos]
  exact live

theorem Rightful.after (rightful : w.Rightful key) (rivals : Rivals w.elector key) {move : Move ι}
    (timely : w.Timely move) : (w.after move).Rightful key := by
  cases move with
  | attempt i =>
    rcases after_attempt (w := w) i with same | turned
    next => rwa [same]
    next =>
      rw [turned]
      exact rightful.turn i ⟨nofun, nofun⟩
  | leave i =>
    rcases after_leave (w := w) i with same | turned
    next => rwa [same]
    next =>
      rw [turned]
      exact rightful.turn i ⟨nofun, nofun⟩
  | command i fares => exact rightful.command rivals timely
  | wait n => exact rightful.wait n

theorem Rightful.run (rightful : w.Rightful key) (rivals : Rivals w.elector key) {moves next : List (Move ι)}
    (prompt : w.Prompt (moves ++ next)) :
    (w.run moves).Rightful key ∧ Rivals (w.run moves).elector key ∧ (w.run moves).Prompt next := by
  induction moves generalizing w with
  | nil => exact ⟨rightful, rivals, prompt⟩
  | cons move moves ih => exact ih (rightful.after rivals prompt.1) (rivals_after rivals move) prompt.2

theorem owns_of_holds (rivals : Rivals w.elector key) {i : ι} {fares : Delivery} {p : Elector.Phase}
    {v : Elector.Verdict} (at_ : (w.racer i).activity = .acquiring p)
    (owns : (w.racer i).Acts → w.Owns key i)
    (ends : (fares.run ((w.elector i).advance · p) w.store).2 = .inr v) (holds : v.holds = true) :
    (w.after (.command i fares)).Owns key i := by
  have racer : w.racer i = ⟨w.elector i, .acquiring p, (w.racer i).seen⟩ := by
    rw [← at_]
    rfl
  have same : ((w.after (.command i fares)).elector i).id = (w.elector i).id := by
    simpa [elector, Race.after] using (Racer.sameCandidate_progress (d := fares) (s := w.store)).id
  have effect := Elector.issued (s := w.store) fares (rivals.lasting i) p
  rw [rivals.keyed i, ends] at effect
  rw [Owns, same]
  change ∃ l, ((w.racer i).progress fares w.store).1.find? key = some l ∧ _
  rw [racer, Racer.store_acquiring]
  generalize (fares.run ((w.elector i).advance · p) w.store).1.find? key = later at effect ⊢
  generalize before : w.store.find? key = found at effect
  cases effect with
  | failed fails =>
    rw [fails] at holds
    cases holds
  | taken => exact ⟨_, rfl, rfl⟩
  | renewed here =>
    obtain ⟨l, now, own⟩ := owns (.inl at_)
    obtain rfl := Option.some.inj (now.symm.trans (before.trans here))
    exact ⟨_, rfl, own⟩
  | lapsed gone =>
    obtain ⟨l, now, own⟩ := owns (.inl at_)
    cases now.symm.trans (before.trans gone)

/-- Renewals and deletions hit the elector's own lease, and who wins an attempt has the lease, as long as
no lease lapses between the question for its owner and what is done to it. -/
theorem acts_on_own_lease (rivals : Rivals w.elector key) (calm : ∀ i, (w.racer i).activity = .resting)
    {moves : List (Move ι)} {i : ι} {fares : Delivery} (prompt : w.Prompt (moves ++ [.command i fares])) :
    (((w.run moves).racer i).Acts → (w.run moves).Owns key i) ∧
    ∀ p v, ((w.run moves).racer i).activity = .acquiring p →
      (fares.run (((w.run moves).elector i).advance · p) (w.run moves).store).2 = .inr v → v.holds = true →
        ((w.run moves).after (.command i fares)).Owns key i := by
  have start : w.Rightful key := by
    intro i acts
    simp [Racer.Acts, calm i] at acts
  obtain ⟨rightful, rivals, timely, -⟩ := start.run rivals prompt
  have owns := rightful.owns timely
  exact ⟨owns, fun p v at_ ends holds => owns_of_holds rivals at_ owns ends holds⟩

end Step

def duel : Race Bool where
  store := {}
  racer i := { elector := { id := if i then "a" else "b", key := "leader", leaseTTL := .ofSeconds 10 } }

def answered (i : Bool) : Move Bool := .command i .answered

def seconds (n : Nat) : Move Bool := .wait (n * 1000000000)

def renewal : List (Move Bool) :=
  [.attempt true, answered true, seconds 3, .attempt true, answered true, answered true]

def takeover : List (Move Bool) := [seconds 8, .attempt false, answered false, seconds 1]

def farewell : List (Move Bool) := [.attempt true, answered true, .leave true, answered true]

theorem rivals_duel : Rivals duel.elector "leader" := by
  refine ⟨fun _ => rfl, ?_, fun _ => rfl⟩
  change ∀ i j, (duel.elector i).id = (duel.elector j).id → i = j
  decide

theorem acts_on_own_lease_renewal : Rivals duel.elector "leader" ∧ (∀ i, (duel.racer i).activity = .resting) ∧
    duel.Prompt (renewal ++ [answered true]) ∧ ((duel.run renewal).racer true).Acts ∧
    (duel.run renewal).Owns "leader" true ∧ ((duel.run renewal).after (answered true)).Owns "leader" true := by
  have calm : ∀ i, (duel.racer i).activity = .resting := fun _ => rfl
  have prompt : duel.Prompt (renewal ++ [answered true]) := by decide +kernel
  have activity : ((duel.run renewal).racer true).activity = .acquiring .renew := by decide +kernel
  have ends : (Delivery.answered.run (((duel.run renewal).elector true).advance · .renew) (duel.run renewal).store).2 =
      .inr .renewed := by decide +kernel
  obtain ⟨owns, won⟩ := acts_on_own_lease rivals_duel calm prompt
  exact ⟨rivals_duel, calm, prompt, .inl activity, owns (.inl activity), won _ _ activity ends rfl⟩

def overtaken : Race Bool := duel.run (renewal ++ takeover)

def departing : Race Bool := duel.run (farewell ++ [seconds 2] ++ takeover)

theorem lease_of_rival_hit : Rivals duel.elector "leader" ∧ (∀ i, (duel.racer i).activity = .resting) ∧
    ((overtaken.racer true).activity = .acquiring .renew ∧
      overtaken.store.find? "leader" = some ⟨"b", some 21000000000⟩ ∧
      (Delivery.answered.run ((overtaken.elector true).advance · .renew) overtaken.store).2 = .inr .renewed ∧
      (overtaken.after (answered true)).store.find? "leader" = some ⟨"b", some 22000000000⟩) ∧
    (departing.racer true).activity = .leaving .delete ∧
      departing.store.find? "leader" = some ⟨"b", some 20000000000⟩ ∧
      (departing.after (answered true)).store.find? "leader" = none := by
  refine ⟨rivals_duel, fun _ => rfl, ?_⟩
  decide +kernel

end Race

end Flowsheet
