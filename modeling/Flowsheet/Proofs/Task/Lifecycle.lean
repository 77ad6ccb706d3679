import Flowsheet.Proofs.Task.Payload
import Flowsheet.Task.Handler
import Mathlib.Data.List.Nodup
import Mathlib.Logic.Relation

set_option autoImplicit false

namespace Flowsheet

open Relation

theorem Payload.uniqueId_eq_iff {p r : Payload} :
    p.uniqueId = r.uniqueId ↔ Path.clean p.industryDir = Path.clean r.industryDir := by
  unfold uniqueId
  exact String.append_right_inj "compile:"

/-- The task is for the directory of a payload, however that is spelled. -/
def Task.For (t : Task) (p : Payload) : Prop :=
  ∃ r : Payload, t.payload = r.encode ∧ Path.clean r.industryDir = Path.clean p.industryDir

namespace Tasks

variable {ts ts' : Tasks} {t u : Task} {p : Payload} {queue id : String} {now : Instant}

/-- What is left once a run of a task is over. A failure is final if it says so, and after the last attempt. -/
def close (ts : Tasks) (t : Task) (lastAttempt : Bool) : Except Failure Unit → Tasks
  | .ok () => ts.remove t.queue t.id
  | .error f =>
    ts.setState t.queue t.id (if lastAttempt || f.causes.contains .skipRetry then .archived else .retry)

structure Distinct (ts : Tasks) : Prop where
  apart : (ts.map fun t => (t.queue, t.id)).Nodup
  requested : ∀ t ∈ ts, ∃ p : Payload, p.industryDir ≠ "" ∧ t.id = p.uniqueId ∧ t.payload = p.encode

theorem mem_setState {state : TaskState} : t ∈ ts.setState queue id state ↔
    ∃ u ∈ ts, (if u.queue = queue ∧ u.id = id then { u with state } else u) = t := by
  simp only [setState, List.mem_map, Bool.and_eq_true, beq_iff_eq]

theorem mem_setState_of_other {state : TaskState} (inside : t ∈ ts) (other : ¬ (t.queue = queue ∧ t.id = id)) :
    t ∈ ts.setState queue id state :=
  mem_setState.mpr ⟨t, inside, if_neg other⟩

theorem mem_remove : t ∈ ts.remove queue id ↔ t ∈ ts ∧ ¬ (t.queue = queue ∧ t.id = id) := by
  simp only [remove, List.mem_filter, Bool.not_eq_true', Bool.and_eq_false_iff, beq_eq_false_iff_ne, not_and_or, ne_eq]

namespace Distinct

section Lookup

variable (distinct : Distinct ts)

include distinct

theorem eq_of_id (first : t ∈ ts) (second : u ∈ ts) (queues : t.queue = u.queue) (ids : t.id = u.id) : t = u :=
  List.inj_on_of_nodup_map distinct.apart first second (Prod.ext queues ids)

theorem for_iff (inside : t ∈ ts) : t.For p ↔ t.id = p.uniqueId := by
  obtain ⟨r, -, named, written⟩ := distinct.requested t inside
  rw [named, Payload.uniqueId_eq_iff]
  constructor
  · rintro ⟨r', written', same⟩
    rw [Payload.industryDir_of_encode (written.symm.trans written'), same]
  · exact fun same => ⟨r, written, same⟩

theorem id_of_for (first : t ∈ ts) (second : u ∈ ts) (own : t.For p) (own' : u.For p) : t.id = u.id :=
  ((distinct.for_iff first).mp own).trans ((distinct.for_iff second).mp own').symm

theorem find?_eq_some : ts.find? queue id = some t ↔ t ∈ ts ∧ t.queue = queue ∧ t.id = id := by
  constructor
  · intro found
    have matching := List.find?_some found
    exact ⟨List.mem_of_find?_eq_some found, by simpa using matching⟩
  · rintro ⟨inside, rfl, rfl⟩
    cases found : ts.find? t.queue t.id with
    | none => exact absurd (List.find?_eq_none.mp found t inside) (by simp)
    | some u =>
      have matching : u.queue = t.queue ∧ u.id = t.id := by simpa using List.find?_some found
      rw [distinct.eq_of_id (List.mem_of_find?_eq_some found) inside matching.1 matching.2]

theorem find?_isSome : (ts.find? queue p.uniqueId).isSome = true ↔ ∃ t ∈ ts, t.queue = queue ∧ t.For p := by
  rw [Option.isSome_iff_exists]
  refine exists_congr fun t => ?_
  rw [distinct.find?_eq_some]
  exact and_congr_right fun inside => and_congr_right fun _ => (distinct.for_iff inside).symm

theorem isUnfinished_iff : ts.isUnfinished queue p = true ↔
    ∃ t ∈ ts, t.queue = queue ∧ t.For p ∧ t.state ≠ .archived := by
  unfold isUnfinished
  constructor
  · intro unfinished
    split at unfinished
    next t found =>
      obtain ⟨inside, queued, named⟩ := distinct.find?_eq_some.mp found
      exact ⟨t, inside, queued, (distinct.for_iff inside).mpr named, by simpa using unfinished⟩
    next => cases unfinished
  · rintro ⟨t, inside, queued, own, unfinished⟩
    rw [distinct.find?_eq_some.mpr ⟨inside, queued, (distinct.for_iff inside).mp own⟩]
    simpa using unfinished

theorem concat {r : Payload} (directed : p.industryDir ≠ "") (free : ts.find? queue p.uniqueId = none)
    (same : r.industryDir = p.industryDir) :
    Distinct (ts ++ [{ queue, id := p.uniqueId, payload := r.encode }]) where
  apart := by
    rw [List.map_append, List.map_singleton, List.nodup_append]
    refine ⟨distinct.apart, List.nodup_singleton _, fun key taken => ?_⟩
    obtain ⟨t, inside, rfl⟩ := List.mem_map.mp taken
    intro key own
    rw [List.mem_singleton.mp own]
    intro clash
    have matching := Prod.ext_iff.mp clash
    have found := distinct.find?_eq_some.mpr ⟨inside, matching.1, matching.2⟩
    cases found.symm.trans free
  requested := by
    simp only [List.mem_append, List.mem_singleton]
    rintro t (inside | rfl)
    · exact distinct.requested t inside
    · exact ⟨r, same ▸ directed, by simp only [Payload.uniqueId, same], rfl⟩

theorem setState (state : TaskState) : Distinct (ts.setState queue id state) := by
  refine ⟨?_, fun t inside => ?_⟩
  · have keys : (ts.setState queue id state).map (fun t => (t.queue, t.id)) = ts.map fun t => (t.queue, t.id) := by
      rw [Tasks.setState, List.map_map]
      refine List.map_congr_left fun t _ => ?_
      simp only [Function.comp_apply]
      split <;> rfl
    rw [keys]
    exact distinct.apart
  · obtain ⟨u, known, rfl⟩ := mem_setState.mp inside
    split <;> exact distinct.requested u known

theorem remove : Distinct (ts.remove queue id) where
  apart := distinct.apart.sublist (List.filter_sublist.map _)
  requested := fun t inside => distinct.requested t (mem_remove.mp inside).1

theorem close (t : Task) (lastAttempt : Bool) (result : Except Failure Unit) :
    Distinct (ts.close t lastAttempt result) := by
  cases result with
  | ok => exact distinct.remove
  | error => exact distinct.setState _

end Lookup

end Distinct

end Tasks

inductive Queue.Enqueues (q : Queue) (s : Site) (p : Payload) : Tasks → Except Failure Unit → Prop
  | undirected (blank : p.industryDir = "") : Enqueues q s p s.tasks (.error Tasks.missingDirectory)
  | lost (directed : p.industryDir ≠ "") (down : s.store.reachable = false) :
    Enqueues q s p s.tasks (.error unreachable)
  | conflict (directed : p.industryDir ≠ "") (up : s.store.reachable = true)
      (taken : (s.tasks.find? q.name p.uniqueId).isSome = true) :
    Enqueues q s p s.tasks (.error (Tasks.alreadyQueued p.industryDir))
  | taken (directed : p.industryDir ≠ "") (up : s.store.reachable = true)
      (free : s.tasks.find? q.name p.uniqueId = none) {r : Payload} (same : r.industryDir = p.industryDir) :
    Enqueues q s p (s.tasks ++ [{ queue := q.name, id := p.uniqueId, payload := r.encode }]) (.ok ())

theorem Queue.enqueues (q : Queue) (s : Site) (p : Payload) :
    q.Enqueues s p (q.enqueue s p).1.tasks (q.enqueue s p).2 := by
  unfold enqueue
  by_cases directed : p.industryDir = ""
  · simp only [directed, if_true]
    exact .undirected directed
  · cases up : s.store.reachable with
    | false =>
      simp only [directed, if_false, Bool.not_false, if_true]
      exact .lost directed up
    | true =>
      simp only [directed, if_false, Bool.not_true, Bool.false_eq_true]
      cases found : s.tasks.find? q.name p.uniqueId with
      | some t =>
        simp only [Tasks.enqueue, directed, if_false, found, Option.isSome_some, if_true]
        exact .conflict directed up (by simp [found])
      | none =>
        simp only [Tasks.enqueue, directed, if_false, found, Option.isSome_none, Bool.false_eq_true]
        exact .taken directed up found rfl

section Requests

variable {q : Queue} {s s' : Site} {p : Payload} {t : Task}

theorem Queue.enqueue_conflict_iff : (q.enqueue s p).2 = .error (Tasks.alreadyQueued p.industryDir) ↔
    p.industryDir ≠ "" ∧ s.store.reachable = true ∧ (s.tasks.find? q.name p.uniqueId).isSome = true := by
  have other {f : Failure} {dir : String} (foreign : .taskAlreadyQueued ∉ f.causes) : f ≠ Tasks.alreadyQueued dir := by
    rintro rfl
    exact foreign (by simp [Tasks.alreadyQueued, Failure.of])
  have came := q.enqueues s p
  generalize (q.enqueue s p).1.tasks = ts, (q.enqueue s p).2 = answer at came
  cases came with
  | undirected blank => simp [blank, other (show .taskAlreadyQueued ∉ Tasks.missingDirectory.causes by decide)]
  | lost directed down => simp [down, other (show .taskAlreadyQueued ∉ unreachable.causes by decide)]
  | conflict directed up taken => simp [directed, up, taken]
  | taken directed up free => simp [free]

theorem Queue.enqueue_eq_ok_iff : (q.enqueue s p).2 = .ok () ↔
    p.industryDir ≠ "" ∧ s.store.reachable = true ∧ (s.tasks.find? q.name p.uniqueId).isSome = false := by
  have came := q.enqueues s p
  generalize (q.enqueue s p).1.tasks = ts, (q.enqueue s p).2 = answer at came
  cases came with
  | undirected blank => simp [blank]
  | lost directed down => simp [down]
  | conflict directed up taken => simp [taken]
  | taken directed up free => simp [directed, up, free]

namespace Site

def finish (s : Site) (t : Task) (lastAttempt : Bool) (result : Except Failure Unit) : Site :=
  { s with tasks := s.tasks.close t lastAttempt result }

def release (s : Site) (t : Task) : Site := { s with tasks := s.tasks.remove t.queue t.id }

/-- What requests and runs do to the tasks of a site. A turn is taken when a task is picked up, when it
is due again after a failure, and when a run of it is given back. -/
inductive Work : Site → Site → Prop
  | request (q : Queue) (s : Site) (p : Payload) : Work s (q.enqueue s p).1
  | turn {s : Site} {t : Task} {state : TaskState} (inside : t ∈ s.tasks) (unfinished : t.state ≠ .archived)
      (goesOn : state ≠ .archived) : Work s { s with tasks := s.tasks.setState t.queue t.id state }
  | finish {s : Site} {t : Task} (inside : t ∈ s.tasks) (runs : t.state = .active) (lastAttempt : Bool)
      (result : Except Failure Unit) : Work s (s.finish t lastAttempt result)
  | elsewhere {s s' : Site} (same : s'.tasks = s.tasks) : Work s s'

/-- What can happen to the tasks of a site: work goes on, or an archived task is let go, by hand or
because it is too old. -/
inductive Step : Site → Site → Prop
  | work {s s' : Site} (work : Work s s') : Step s s'
  | release {s : Site} {t : Task} (inside : t ∈ s.tasks) (archived : t.state = .archived) : Step s (s.release t)

def Archived (s : Site) (q : Queue) (p : Payload) : Prop :=
  ∃ t ∈ s.tasks, t.queue = q.name ∧ t.For p ∧ t.state = .archived

theorem Work.distinct (work : Work s s') (distinct : s.tasks.Distinct) : s'.tasks.Distinct := by
  cases work with
  | request q s p =>
    have came := q.enqueues s p
    generalize (q.enqueue s p).1.tasks = ts, (q.enqueue s p).2 = answer at came ⊢
    cases came with
    | taken directed _ free same => exact distinct.concat directed free same
    | _ => exact distinct
  | turn => exact distinct.setState _
  | finish => exact distinct.close _ _ _
  | elsewhere same => exact same ▸ distinct

theorem Step.distinct (step : Step s s') (distinct : s.tasks.Distinct) : s'.tasks.Distinct := by
  cases step with
  | work work => exact work.distinct distinct
  | release => exact distinct.remove

theorem Work.archived (work : Work s s') (distinct : s.tasks.Distinct) (archived : s.Archived q p) :
    s'.Archived q p := by
  obtain ⟨t, inside, queued, own, finished⟩ := archived
  -- What work changes or removes is not archived, so by its name it is another task.
  have other {u : Task} (known : u ∈ s.tasks) (unfinished : u.state ≠ .archived) :
      ¬ (t.queue = u.queue ∧ t.id = u.id) := by
    rintro ⟨queues, ids⟩
    exact unfinished (distinct.eq_of_id inside known queues ids ▸ finished)
  suffices t ∈ s'.tasks from ⟨t, this, queued, own, finished⟩
  cases work with
  | request q s p =>
    have came := q.enqueues s p
    generalize (q.enqueue s p).1.tasks = ts, (q.enqueue s p).2 = answer at came ⊢
    cases came with
    | taken => exact List.mem_append_left _ inside
    | _ => exact inside
  | turn known unfinished => exact Tasks.mem_setState_of_other inside (other known unfinished)
  | finish known runs last result =>
    have apart := other known (by simp [runs])
    cases result with
    | ok => exact Tasks.mem_remove.mpr ⟨inside, apart⟩
    | error => exact Tasks.mem_setState_of_other inside apart
  | elsewhere same => exact same ▸ inside

theorem distinct_of_run {s₀ : Site} (empty : s₀.tasks = []) (run : ReflTransGen Step s₀ s) : s.tasks.Distinct := by
  induction run with
  | refl =>
    rw [empty]
    exact ⟨List.nodup_nil, nofun⟩
  | tail _ step ih => exact step.distinct ih

theorem archived_of_work (run : ReflTransGen Work s s') (distinct : s.tasks.Distinct) (archived : s.Archived q p) :
    s'.Archived q p := by
  induction run using ReflTransGen.head_induction_on with
  | refl => exact archived
  | head work _ ih => exact ih (work.distinct distinct) (work.archived distinct archived)

theorem enqueue_released (distinct : s.tasks.Distinct) (inside : t ∈ s.tasks) (queued : t.queue = q.name)
    (own : t.For p) (directed : p.industryDir ≠ "") (up : s.store.reachable = true) :
    (q.enqueue (s.release t) p).2 = .ok () := by
  rw [Queue.enqueue_eq_ok_iff]
  refine ⟨directed, up, Bool.eq_false_iff.mpr fun found => ?_⟩
  have rest : (s.tasks.remove t.queue t.id).Distinct := distinct.remove
  obtain ⟨u, left, queued', own'⟩ := rest.find?_isSome.mp found
  obtain ⟨known, other⟩ := Tasks.mem_remove.mp left
  exact other ⟨queued'.trans queued.symm, distinct.id_of_for known inside own' own⟩

end Site

/-- A queue holds one task at most for a directory. It refuses a request for that directory while the
task is unfinished, takes one when the task has succeeded, and refuses all while the task is archived:
that lasts until the task is let go. -/
theorem refused_while_stored {s₀ s : Site} (empty : s₀.tasks = []) (run : ReflTransGen Site.Step s₀ s) (q : Queue)
    (p : Payload) :
    s.tasks.Pairwise (fun t u => t.queue = u.queue → ∀ r, ¬ (t.For r ∧ u.For r)) ∧
    (∀ t ∈ s.tasks, ∃ r : Payload, r.industryDir ≠ "" ∧ t.For r) ∧
    (q.isUnfinished s p = .ok true ↔ s.store.reachable = true ∧
      ∃ t ∈ s.tasks, t.queue = q.name ∧ t.For p ∧ t.state ≠ .archived) ∧
    ((q.enqueue s p).2 = .error (Tasks.alreadyQueued p.industryDir) ↔ p.industryDir ≠ "" ∧
      (q.isUnfinished s p = .ok true ∨ s.store.reachable = true ∧ s.Archived q p)) ∧
    (s.Archived q p → q.isUnfinished s p ≠ .ok true ∧ ∀ s', ReflTransGen Site.Work s s' → s'.Archived q p) ∧
    ∀ t ∈ s.tasks, t.queue = q.name → t.For p →
      (p.industryDir ≠ "" → s.store.reachable = true → (q.enqueue (s.release t) p).2 = .ok ()) ∧
      ∀ lastAttempt result,
        (result = .ok () → p.industryDir ≠ "" → s.store.reachable = true →
          (q.enqueue (s.finish t lastAttempt result) p).2 = .ok ()) ∧
        ∀ f, result = .error f → lastAttempt = true ∨ .skipRetry ∈ f.causes →
          (s.finish t lastAttempt result).Archived q p := by
  have distinct := Site.distinct_of_run empty run
  have unfinished : q.isUnfinished s p = .ok true ↔ s.store.reachable = true ∧
      ∃ t ∈ s.tasks, t.queue = q.name ∧ t.For p ∧ t.state ≠ .archived := by
    rw [← distinct.isUnfinished_iff, Queue.isUnfinished]
    cases s.store.reachable <;> simp
  refine ⟨?apart, ?requested, unfinished, ?refused, fun archived => ⟨?finished, fun s' later => ?kept⟩, ?ends⟩
  case apart =>
    refine (List.pairwise_map.mp distinct.apart).imp_of_mem fun first second apart queues r both => ?_
    exact apart (Prod.ext queues (distinct.id_of_for first second both.1 both.2))
  case requested =>
    intro t inside
    obtain ⟨r, directed, -, written⟩ := distinct.requested t inside
    exact ⟨r, directed, r, written, rfl⟩
  case refused =>
    rw [Queue.enqueue_conflict_iff, distinct.find?_isSome, unfinished, ← and_or_left]
    refine and_congr_right fun _ => and_congr_right fun _ => ⟨?_, ?_⟩
    · rintro ⟨t, inside, queued, own⟩
      by_cases finished : t.state = .archived
      · exact .inr ⟨t, inside, queued, own, finished⟩
      · exact .inl ⟨t, inside, queued, own, finished⟩
    · rintro (⟨t, inside, queued, own, -⟩ | ⟨t, inside, queued, own, -⟩) <;> exact ⟨t, inside, queued, own⟩
  case finished =>
    obtain ⟨t, inside, queued, own, finished⟩ := archived
    rw [ne_eq, unfinished]
    rintro ⟨-, u, known, queued', own', unfinished⟩
    have same := distinct.eq_of_id inside known (queued.trans queued'.symm) (distinct.id_of_for inside known own own')
    exact unfinished (same ▸ finished)
  case kept => exact Site.archived_of_work later distinct archived
  case ends =>
    intro t inside queued own
    refine ⟨Site.enqueue_released distinct inside queued own, fun lastAttempt result => ⟨?_, ?_⟩⟩
    · rintro rfl
      exact Site.enqueue_released distinct inside queued own
    · rintro f rfl final
      have archives : (lastAttempt || f.causes.contains .skipRetry) = true := by simpa using final
      refine ⟨{ t with state := .archived }, ?_, queued, own, rfl⟩
      rw [Site.finish, Tasks.close, archives]
      exact Tasks.mem_setState.mpr ⟨t, inside, if_pos ⟨rfl, rfl⟩⟩

end Requests

namespace Queue

def plant : Payload := { industryDir := "plant" }

def plantAgain : Payload := { industryDir := "./plant/" }

def yard : Queue := ⟨compileQueue⟩

def plantTask : Task where
  queue := compileQueue
  id := plant.uniqueId
  payload := (Tasks.completed ⟨0⟩ plant).encode

def queued : Site := (yard.enqueue {} plant).1

def running : Site := { queued with tasks := queued.tasks.setState compileQueue plant.uniqueId .active }

def noIndustry : Failure := Task.final (.of .noIndustry "no industry document")

def failed : Site := running.finish { plantTask with state := .active } false (.error noIndustry)

theorem run_failed : ReflTransGen Site.Step {} failed :=
  have picked : Site.Work queued running := .turn (t := plantTask) List.mem_cons_self (by decide) (by decide)
  ((ReflTransGen.single (.work (.request yard {} plant))).tail (.work picked)).tail
    (.work (.finish List.mem_cons_self rfl false (.error noIndustry)))

theorem refused_while_stored_archived :
    ({} : Site).tasks = [] ∧ ReflTransGen Site.Step {} failed ∧ failed.Archived yard plantAgain ∧
      (yard.enqueue failed plantAgain).2 = .error (Tasks.alreadyQueued "./plant/") := by
  have own : plantTask.For plantAgain := ⟨_, rfl, by decide +kernel⟩
  have archived : failed.Archived yard plantAgain := ⟨_, List.mem_cons_self, rfl, own, rfl⟩
  obtain ⟨-, -, -, refused, -, -⟩ := refused_while_stored rfl run_failed yard plantAgain
  exact ⟨rfl, run_failed, archived, refused.mpr ⟨by decide, .inr ⟨rfl, archived⟩⟩⟩

def here : Site := (yard.enqueue {} { industryDir := "." }).1

theorem failed_refused :
    (ReflTransGen Site.Step {} failed ∧ yard.isUnfinished failed plant = .ok false ∧
      (yard.enqueue failed plant).2 = .error (Tasks.alreadyQueued plant.industryDir)) ∧
    yard.isUnfinished here {} = .ok true ∧ (yard.enqueue here {}).2 = .error Tasks.missingDirectory := by
  exact ⟨⟨run_failed, rfl, rfl⟩, rfl, rfl⟩

end Queue

end Flowsheet
