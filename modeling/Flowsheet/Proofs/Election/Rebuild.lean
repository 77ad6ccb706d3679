import Flowsheet.Election.Rebuild
import Flowsheet.Proofs.Files

set_option autoImplicit false

namespace Flowsheet.Rebuild

variable {σ : Type}

def asked (dir : String) : Payload := { industryDir := dir, trigger := Payload.scheduled }

abbrev Attempt := Payload × Except Failure Unit

/-- The same queue, with a record of what it was asked for and how it answered. -/
def recorded (enqueue : Enqueue σ) : Enqueue (σ × List Attempt) := fun (q, seen) p =>
  let (q, r) := enqueue q p
  ((q, seen ++ [(p, r)]), r)

/-- The directories that come before the end of the context. -/
def reached (ends : Option Nat) (dirs : List String) : List String :=
  match ends with
  | none => dirs
  | some n => dirs.take n

def report (a : Attempt) : Option Failure :=
  match a.2 with
  | .ok _ => none
  | .error f => if f.hasCause .taskAlreadyQueued then none else some (f.within s!"industry {a.1.industryDir}")

def canceled : Failure := .of .canceled "context canceled"

def reports (ends : Option Nat) (dirs : List String) (seen : List Attempt) : List Failure :=
  seen.filterMap report ++ if ends.any (· < dirs.length) then [canceled] else []

section Requests

variable {ends : Option Nat} {n : Nat} {dir : String} {rest : List String}

theorem reached_cons (goesOn : ends.any (· ≤ n) = false) :
    reached (ends.map (· - n)) (dir :: rest) = dir :: reached (ends.map (· - (n + 1))) rest := by
  cases ends with
  | none => rfl
  | some k =>
    have left : k - n = k - (n + 1) + 1 := by
      simp only [Option.any_some, decide_eq_false_iff_not] at goesOn
      omega
    simp only [Option.map_some, left, reached, List.take_succ_cons]

theorem reports_cons (goesOn : ends.any (· ≤ n) = false) (a : Attempt) (seen : List Attempt) :
    reports (ends.map (· - n)) (dir :: rest) (a :: seen) =
      (report a).toList ++ reports (ends.map (· - (n + 1))) rest seen := by
  have ended : (ends.map (· - n)).any (· < (dir :: rest).length) = (ends.map (· - (n + 1))).any (· < rest.length) := by
    cases ends with
    | none => rfl
    | some k =>
      simp only [Option.any_some, decide_eq_false_iff_not] at goesOn
      simp only [Option.map_some, Option.any_some, List.length_cons, decide_eq_decide]
      omega
  rw [reports, ended, List.filterMap_cons]
  cases report a <;> rfl

theorem request_cons (enqueue : Enqueue σ) (q : σ) (goesOn : ends.any (· ≤ n) = false) :
    request enqueue ends n (dir :: rest) q =
      ((request enqueue ends (n + 1) rest (enqueue q (asked dir)).1).1,
        (report (asked dir, (enqueue q (asked dir)).2)).toList ++
          (request enqueue ends (n + 1) rest (enqueue q (asked dir)).1).2) := by
  rw [request, goesOn, show ({ industryDir := dir, trigger := Payload.scheduled } : Payload) = asked dir from rfl]
  rcases enqueue q (asked dir) with ⟨answered, r⟩
  cases r with
  | ok => rfl
  | error f => by_cases queued : f.hasCause .taskAlreadyQueued = true <;> simp [report, queued, asked]

theorem request_over (enqueue : Enqueue σ) (q : σ) (ended : ends.any (· ≤ n) = true) :
    request enqueue ends n (dir :: rest) q = (q, [canceled]) := by
  rw [request, ended]
  rfl

theorem request_recorded (enqueue : Enqueue σ) (ends : Option Nat) (n : Nat) (dirs : List String) (q : σ)
    (seen : List Attempt) : ∃ new : List Attempt,
      new.map (·.1) = (reached (ends.map (· - n)) dirs).map asked ∧
      request (recorded enqueue) ends n dirs (q, seen) =
        (((request enqueue ends n dirs q).1, seen ++ new), reports (ends.map (· - n)) dirs new) ∧
      (request enqueue ends n dirs q).2 = reports (ends.map (· - n)) dirs new := by
  induction dirs generalizing n q seen with
  | nil => exact ⟨[], by cases ends <;> simp [reached], by simp [request, reports], by simp [request, reports]⟩
  | cons dir rest ih =>
    cases ended : ends.any (· ≤ n) with
    | true =>
      obtain ⟨k, rfl, past⟩ := (Option.any_eq_true _ _).mp ended
      have none : k - n = 0 := by simpa [Nat.sub_eq_zero_iff_le] using past
      rw [request_over _ _ ended, request_over _ _ ended]
      exact ⟨[], by simp [reached, none], by simp [reports, none], by simp [reports, none]⟩
    | false =>
      have watched : recorded enqueue (q, seen) (asked dir) =
          (((enqueue q (asked dir)).1, seen ++ [(asked dir, (enqueue q (asked dir)).2)]),
            (enqueue q (asked dir)).2) := rfl
      obtain ⟨new, attempts, later, failures⟩ :=
        ih (n + 1) (enqueue q (asked dir)).1 (seen ++ [(asked dir, (enqueue q (asked dir)).2)])
      rw [request_cons _ _ ended, request_cons _ _ ended, watched, later, failures]
      refine ⟨(asked dir, (enqueue q (asked dir)).2) :: new, ?_, ?_, ?_⟩
      · rw [reached_cons ended, List.map_cons, List.map_cons, attempts]
      · rw [reports_cons ended, List.append_assoc, List.singleton_append]
      · rw [reports_cons ended]

end Requests

variable {ends : Option Nat} {dirs : List String} {seen : List Attempt} {files : Files}

/-- A success, or the answer that the directory waits already. -/
def Settled (a : Attempt) : Prop := a.2 = .ok () ∨ ∃ f, a.2 = .error f ∧ f.hasCause .taskAlreadyQueued = true

theorem report_eq_none {a : Attempt} : report a = none ↔ Settled a := by
  obtain ⟨p, r⟩ := a
  cases r with
  | ok => simp [report, Settled]
  | error f => simp [report, Settled]

theorem reached_eq_self : reached ends dirs = dirs ↔ ends.any (· < dirs.length) = false := by
  cases ends with
  | none => simp [reached]
  | some n =>
    simp only [reached, Option.any_some, decide_eq_false_iff_not, not_lt]
    exact ⟨fun same => by simpa using congrArg List.length same, List.take_of_length_le⟩

theorem reports_eq_nil : reports ends dirs seen = [] ↔ reached ends dirs = dirs ∧ ∀ a ∈ seen, Settled a := by
  rw [reports, List.append_eq_nil_iff, List.filterMap_eq_nil_iff, reached_eq_self, and_comm]
  refine and_congr ?_ (forall₂_congr fun _ _ => report_eq_none)
  cases ends.any (· < dirs.length) <;> simp

def result (fs : List Failure) : Except Failure Unit :=
  match Failure.collect fs with
  | none => .ok ()
  | some f => .error f

theorem run_of_industries (enqueue : Enqueue σ) (ends : Option Nat) {sources : String} (q : σ) (m : Metrics)
    (listed : files.industries sources = .ok dirs) : run enqueue ends true files sources q m =
      ((request enqueue ends 0 dirs q).1,
        m.rebuild (if (request enqueue ends 0 dirs q).2 = [] then "enqueued" else "failed"),
        result (request enqueue ends 0 dirs q).2) := by
  simp only [run, listed, result, Bool.not_true, Bool.false_eq_true, if_false]
  cases collected : Failure.collect (request enqueue ends 0 dirs q).2 with
  | none => simp [Failure.collect_eq_none.mp collected]
  | some f =>
    have some : (request enqueue ends 0 dirs q).2 ≠ [] := fun none => by
      rw [none] at collected
      cases collected
    simp [some]

theorem result_eq_ok {fs : List Failure} : result fs = .ok () ↔ fs = [] := by
  rw [← Failure.collect_eq_none, result]
  cases Failure.collect fs <;> simp

theorem result_eq_error {fs : List Failure} {f : Failure} : result fs = .error f ↔ Failure.collect fs = some f := by
  rw [result]
  cases Failure.collect fs <;> simp

/-- A rebuild asks for nothing unless it is the leader's. The leader's asks for each directory at most once, in
the order of their paths, up to the end of the context, and goes on whatever the answers are. It succeeds exactly
if it got to the end of the list and met no failure but that a directory waits already. Otherwise its failure
collects those failures in the order of the attempts, and last that of the context if it ended before. -/
theorem rebuild_reports (sound : files.Sound) (enqueue : Enqueue σ) (ends : Option Nat) (sources : String) (q : σ)
    (m : Metrics) :
    (∀ leads, ∃ seen, run (recorded enqueue) ends leads files sources (q, []) m =
      (((run enqueue ends leads files sources q m).1, seen), (run enqueue ends leads files sources q m).2)) ∧
    run (recorded enqueue) ends false files sources (q, []) m = ((q, []), m.rebuild "skipped", .ok ()) ∧
    (∀ f, files.industries sources = .error f → run (recorded enqueue) ends true files sources (q, []) m =
      ((q, []), m.rebuild "failed", .error (f.within "failed to discover industries"))) ∧
    ∀ dirs, files.industries sources = .ok dirs → dirs.Pairwise (fun a b => Text.bytes a < Text.bytes b) ∧
      ∃ q' seen m' r, run (recorded enqueue) ends true files sources (q, []) m = ((q', seen), m', r) ∧
        seen.map (·.1) = (reached ends dirs).map asked ∧
        (r = .ok () ↔ reached ends dirs = dirs ∧ ∀ a ∈ seen, Settled a) ∧
        (∀ f, r = .error f ↔ Failure.collect (reports ends dirs seen) = some f) ∧
        ∀ f, r = .error f → f.causes = (reports ends dirs seen).flatMap (·.causes) ∧
          f.message = "; ".intercalate ((reports ends dirs seen).map (·.message)) := by
  refine ⟨fun leads => ?_, rfl, fun f unlisted => ?_, fun dirs listed => ⟨Files.sorted_industries sound listed, ?_⟩⟩
  · cases leads with
    | false => exact ⟨[], rfl⟩
    | true =>
      cases listed : files.industries sources with
      | error f => exact ⟨[], by simp [run, listed]⟩
      | ok dirs =>
        obtain ⟨seen, -, watched, failures⟩ := request_recorded enqueue ends 0 dirs q []
        refine ⟨seen, ?_⟩
        rw [run_of_industries _ _ _ _ listed, run_of_industries _ _ _ _ listed, watched, failures]
        rfl
  · simp [run, unlisted]
  · obtain ⟨seen, attempts, watched, -⟩ := request_recorded enqueue ends 0 dirs q []
    have whole : ends.map (· - 0) = ends := by cases ends <;> rfl
    rw [whole] at attempts watched
    rw [run_of_industries _ _ _ _ listed, watched]
    refine ⟨_, seen, _, _, rfl, attempts, ?_, fun f => result_eq_error, fun f failed => ?_⟩
    · rw [result_eq_ok, reports_eq_nil]
    · exact Failure.of_collect_eq_some (result_eq_error.mp failed)

def region : Files where
  entries := ["Cement", "Quarry", "Steel"].map fun name => ([name], .directory)

def brokenDown : Failure := .of .external "scripted failure"

def choosy : Enqueue Nat := fun count p =>
  (count + 1, if p.industryDir = "Cement" then .ok () else if p.industryDir = "Quarry" then
    .error (Tasks.alreadyQueued p.industryDir) else .error brokenDown)

theorem industries_region : region.industries "." = .ok ["Cement", "Quarry", "Steel"] := by
  have located : region.locate "." = .ok ([], .directory) := by decide +kernel
  have below : region.below [] = region.entries := Files.below_of_sorted (by decide +kernel)
  simp only [Files.industries, located, below]
  decide +kernel

theorem rebuild_reports_region : region.Sound ∧
    ((run choosy none true region "." 0 .initial).2.2 = .error (brokenDown.within "industry Steel") ∧
      (run choosy (some 2) true region "." 0 .initial).2.2 = .error canceled) ∧
    ∃ seen, (run (recorded choosy) (some 2) true region "." (0, []) .initial).1.2 = seen ∧
      seen.map (·.1) = [asked "Cement", asked "Quarry"] := by
  have sound : region.Sound := by decide +kernel
  have listed := industries_region
  obtain ⟨-, -, -, leader⟩ := rebuild_reports sound choosy (some 2) "." 0 .initial
  obtain ⟨-, q, seen, m, r, watched, attempts, -⟩ := leader _ listed
  refine ⟨sound, ⟨?_, ?_⟩, seen, by rw [watched], attempts⟩
  · rw [run_of_industries _ _ _ _ listed]
    rfl
  · rw [run_of_industries _ _ _ _ listed]
    rfl

end Flowsheet.Rebuild
