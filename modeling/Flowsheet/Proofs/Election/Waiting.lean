import Flowsheet.Compiler.Basic
import Flowsheet.Election.Basic

set_option autoImplicit false

namespace Flowsheet.Elector

def gaveUp (ctx : Context) : Failure := ctx.failure.within "context canceled while waiting for leadership"

theorem gaveUp_timedOut : gaveUp { timedOut := true } = gaveUpWaiting := by decide

inductive Deed where
  | elected (v : Verdict)
  | stopped
  | waited (answer : Except Failure Unit)

/-- An election may go either way. A wait ends in one of the ways that are open when it ends, and
nothing prefers one of them. -/
inductive Does : Elector → Deed → Elector → Prop
  | elect (e : Elector) (v : Verdict) : Does e (.elected v) (e.conclude v)
  | stop (e : Elector) (s : Store) : Does e .stopped (e.stop s).2
  | lead {e : Elector} (leads : e.isLeader = true) : Does e (.waited (.ok ())) e
  | notice {e : Elector} (follows : e.isLeader = false) (noted : e.promoted = true) :
    Does e (.waited (.ok ())) { e with promoted := false }
  | giveUp {e : Elector} (follows : e.isLeader = false) (ctx : Context) : Does e (.waited (.error (gaveUp ctx))) e
  | findStopped {e : Elector} (follows : e.isLeader = false) (halted : e.stopped = true) :
    Does e (.waited (.error stoppedWaiting)) e

inductive Lives : Elector → List (Elector × Deed) → Elector → Prop
  | done (e : Elector) : Lives e [] e
  | next {e e' e'' : Elector} {d : Deed} {h : List (Elector × Deed)} (does : Does e d e') (later : Lives e' h e'') :
    Lives e ((e, d) :: h) e''

section Calls

variable {e : Elector} {s : Store}

theorem does_elect : Does e (.elected (e.elect s).2.2) (e.elect s).2.1 := .elect e _

theorem does_awaitLeadership : Does e (.waited e.awaitLeadership.2) e.awaitLeadership.1 := by
  unfold awaitLeadership
  split
  next leads => exact .lead leads
  next follows =>
    rw [Bool.not_eq_true] at follows
    split
    next noted => exact .notice follows noted
    next =>
      split
      next halted => exact .findStopped follows halted
      next =>
        rw [← gaveUp_timedOut]
        exact .giveUp follows _

theorem stop_eq : (e.stop s).2 = if e.stopped then e else { e with stopped := true, isLeader := false } := by
  unfold stop relinquish
  by_cases halted : e.stopped = true
  next => simp only [halted, if_true]
  next =>
    cases leads : e.isLeader
    next => simp only [halted, Bool.not_false, if_true, Bool.false_eq_true, if_false]
    next =>
      simp only [halted, Bool.not_true, Bool.false_eq_true, if_false]
      split
      next => split <;> rfl
      next => rfl

end Calls

def promotes : Elector × Deed → Bool
  | (e, .elected v) => v.holds && !e.isLeader
  | _ => false

/-- A wait that ends well without a leader. -/
def misleads : Elector × Deed → Bool
  | (e, .waited (.ok _)) => !e.isLeader
  | _ => false

/-- Since the last promotion no wait ended well without a leader. -/
def Unnoticed (h : List (Elector × Deed)) : Prop :=
  ∃ before x after, h = before ++ x :: after ∧ promotes x = true ∧ ∀ y ∈ after, misleads y = false

/-- The elector was stopped for the first time, and no election has ended since. -/
def Halted (h : List (Elector × Deed)) : Prop :=
  ∃ before e after, h = before ++ (e, .stopped) :: after ∧ e.stopped = false ∧ ∀ x ∈ after, ∀ v, x.2 ≠ .elected v

section Lives

variable {e e' e'' : Elector} {d : Deed} {h k : List (Elector × Deed)}

theorem Lives.append (lived : Lives e h e') (later : Lives e' k e'') : Lives e (h ++ k) e'' := by
  induction lived with
  | done => exact later
  | next does _ ih => exact .next does (ih later)

theorem Lives.split (lived : Lives e (h ++ k) e'') : ∃ e', Lives e h e' ∧ Lives e' k e'' := by
  induction h generalizing e with
  | nil => exact ⟨e, .done e, lived⟩
  | cons x h ih =>
    cases lived with
    | next does later =>
      obtain ⟨e', first, last⟩ := ih later
      exact ⟨e', .next does first, last⟩

def owed (e : Elector) : Nat := if e.promoted then 1 else 0

theorem Does.owed (does : Does e d e') :
    [(e, d)].countP misleads + e'.owed ≤ [(e, d)].countP promotes + e.owed := by
  cases does with
  | elect v =>
    cases holds : v.holds <;> cases leads : e.isLeader <;> cases noted : e.promoted <;>
      simp [misleads, promotes, Elector.owed, conclude, holds, leads, noted]
  | stop s =>
    rw [stop_eq]
    split <;> simp [misleads, promotes, Elector.owed]
  | lead leads => simp [misleads, promotes, leads]
  -- Here alone a wait misleads, and here what is noted is used up.
  | notice follows noted => simp [misleads, promotes, Elector.owed, noted, follows]
  | giveUp | findStopped => simp [misleads, promotes]

theorem Lives.owed (lived : Lives e h e') : h.countP misleads + e'.owed ≤ h.countP promotes + e.owed := by
  induction lived with
  | done => simp
  | @next e e' e'' d h does _ ih =>
    have first := does.owed
    have apart (p : Elector × Deed → Bool) : ((e, d) :: h).countP p = [(e, d)].countP p + h.countP p := by
      rw [← List.countP_append, List.singleton_append]
    rw [apart, apart]
    omega

theorem Does.promoted_eq (does : Does e d e') :
    e'.promoted = (promotes (e, d) || e.promoted && !misleads (e, d)) := by
  cases does with
  | elect v =>
    unfold conclude
    cases holds : v.holds <;> cases leads : e.isLeader <;> simp [promotes, misleads, holds, leads]
  | stop s =>
    rw [stop_eq]
    split <;> simp [promotes, misleads]
  | lead leads => simp [promotes, misleads, leads]
  | notice follows noted => simp [promotes, misleads, follows]
  | giveUp | findStopped => simp [promotes, misleads]

theorem unnoticed_cons (x : Elector × Deed) :
    Unnoticed (x :: h) ↔ Unnoticed h ∨ promotes x = true ∧ ∀ y ∈ h, misleads y = false := by
  constructor
  · rintro ⟨before, y, after, whole, promotion, since⟩
    cases before with
    | nil =>
      cases whole
      exact .inr ⟨promotion, since⟩
    | cons z before =>
      cases whole
      exact .inl ⟨before, y, after, rfl, promotion, since⟩
  · rintro (⟨before, y, after, rfl, promotion, since⟩ | ⟨promotion, since⟩)
    · exact ⟨x :: before, y, after, rfl, promotion, since⟩
    · exact ⟨[], x, h, rfl, promotion, since⟩

theorem Lives.promoted_iff (lived : Lives e h e') :
    e'.promoted = true ↔ Unnoticed h ∨ e.promoted = true ∧ ∀ x ∈ h, misleads x = false := by
  induction lived with
  | done => simp [Unnoticed]
  | next does _ ih =>
    rw [ih, unnoticed_cons, does.promoted_eq]
    simp only [Bool.or_eq_true, Bool.and_eq_true, Bool.not_eq_true', List.forall_mem_cons]
    rw [or_and_right, and_assoc, or_assoc]

theorem Does.halts (does : Does e .stopped e') (running : e.stopped = false) : e'.isLeader = false := by
  cases does with
  | stop s => simp [stop_eq, running]

theorem Lives.rests (lived : Lives e h e') (idle : ∀ x ∈ h, ∀ v, x.2 ≠ .elected v) (rests : e.isLeader = false) :
    e'.isLeader = false := by
  induction lived with
  | done => exact rests
  | next does _ ih =>
    refine ih (fun x inside => idle x (List.mem_cons_of_mem _ inside)) ?_
    cases does with
    | elect v => exact absurd rfl (idle _ List.mem_cons_self v)
    | stop s =>
      rw [stop_eq]
      split
      next => exact rests
      next => rfl
    | lead | notice | giveUp | findStopped => exact rests

theorem Lives.halted (lived : Lives e h e') (halted : Halted h) : e'.isLeader = false := by
  obtain ⟨before, halting, after, rfl, running, idle⟩ := halted
  obtain ⟨_, _, last⟩ := lived.split
  cases last with
  | next stops later => exact later.rests idle (stops.halts running)

end Lives

/-- A wait of a new elector ends well under a leader, and it may for a promotion that no wait has
noticed: of all waits no more end well without a leader than there were promotions. -/
theorem waits_end_under_leader {e₀ e e' : Elector} {h : List (Elector × Deed)} {answer : Except Failure Unit}
    (fresh : e₀.promoted = false) (lived : Lives e₀ h e) (waits : Does e (.waited answer) e') :
    (¬ Unnoticed h → (answer = .ok () ↔ e.isLeader = true)) ∧
      (Unnoticed h → Does e (.waited (.ok ())) (if e.isLeader then e else { e with promoted := false })) ∧
      (Halted h → e.isLeader = false ∧
        (¬ Unnoticed h → answer = .error stoppedWaiting ∨ ∃ ctx, answer = .error (gaveUp ctx))) ∧
      (h ++ [(e, Deed.waited answer)]).countP misleads ≤ h.countP promotes := by
  have noted : e.promoted = true ↔ Unnoticed h := by simp [lived.promoted_iff, fresh]
  refine ⟨fun noticed => ?leader, fun unnoticed => ?well, fun halted => ⟨lived.halted halted, fun noticed => ?ill⟩,
    ?counts⟩
  case leader =>
    cases waits with
    | lead leads => simp [leads]
    | notice _ promoted => exact absurd (noted.mp promoted) noticed
    | giveUp follows | findStopped follows => simp [follows]
  case well =>
    split
    next leads => exact .lead leads
    next follows => exact .notice (Bool.eq_false_iff.mpr follows) (noted.mpr unnoticed)
  case ill =>
    cases waits with
    | lead leads => exact absurd leads (by simp [lived.halted halted])
    | notice _ promoted => exact absurd (noted.mp promoted) noticed
    | giveUp _ ctx => exact .inr ⟨ctx, rfl⟩
    | findStopped => exact .inl rfl
  case counts =>
    have whole := (lived.append (.next waits (.done e'))).owed
    have apart : (h ++ [(e, Deed.waited answer)]).countP promotes = h.countP promotes := by
      rw [List.countP_append]
      rfl
    have nothing : e₀.owed = 0 := by simp [Elector.owed, fresh]
    omega

def candidate : Elector := { id := "a", key := "leader", leaseTTL := .ofSeconds 10 }

def bystander : List (Elector × Deed) := [(candidate, .elected .heldByOther), (candidate, .stopped)]

theorem waits_end_under_leader_stopped : ∃ e : Elector, candidate.promoted = false ∧ Lives candidate bystander e ∧
    Does e (.waited e.awaitLeadership.2) e ∧ Halted bystander ∧ ¬ Unnoticed bystander ∧ e.isLeader = false ∧
    (e.awaitLeadership.2 = .error stoppedWaiting ∨ ∃ ctx, e.awaitLeadership.2 = .error (gaveUp ctx)) := by
  let e : Elector := { candidate with stopped := true }
  have lived : Lives candidate bystander e :=
    .next (.elect candidate .heldByOther) (.next (.stop candidate {}) (.done e))
  have waits : Does e (.waited e.awaitLeadership.2) e := does_awaitLeadership
  have halted : Halted bystander := ⟨[_], candidate, [], rfl, rfl, nofun⟩
  have noticed : ¬ Unnoticed bystander := by
    rintro ⟨before, x, after, whole, promotion, -⟩
    have none : ∀ x ∈ bystander, promotes x = false := by simp [bystander, promotes, Verdict.holds]
    exact absurd promotion (by simp [none x (whole ▸ by simp)])
  obtain ⟨-, -, rests, -⟩ := waits_end_under_leader rfl lived waits
  exact ⟨e, rfl, lived, waits, halted, noticed, (rests halted).1, (rests halted).2 noticed⟩

def reigning : Elector := (candidate.elect {}).2.1

def ousted : Elector := (reigning.elect ((candidate.elect {}).1.set "leader" "b" .zero).1).2.1

def retired : Elector := (reigning.stop (candidate.elect {}).1).2

theorem stale_promotion_ends_wait : reigning.isLeader = true ∧
    (ousted.isLeader = false ∧ ousted.awaitLeadership.2 = .ok ()) ∧
    retired.stopped = true ∧ retired.isLeader = false ∧ retired.awaitLeadership.2 = .ok () :=
  ⟨rfl, ⟨rfl, rfl⟩, rfl, rfl, rfl⟩

end Flowsheet.Elector
