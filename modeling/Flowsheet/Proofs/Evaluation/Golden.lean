import Flowsheet.Industry.Verify
import Flowsheet.Proofs.Evaluation.Provenance

set_option autoImplicit false

namespace Flowsheet

namespace Step

variable {N : Type}

def operation? : Step N → Option (Operation N)
  | .demand d => some d.toOperation
  | .output _ _ o => some o
  | .closing o => some o
  | .constant _ | .outcome _ _ | .preset _ _ => none

/-- Whether the golden values of a step are looked at. -/
def IsCompared : Step N → Prop
  | .demand d => d.tag = ""
  | .output _ _ _ | .closing _ => True
  | .constant _ | .outcome _ _ | .preset _ _ => False

theorem computed [Quantity N] {m : MetaProcess N} {s : Step N} {o : Operation N} {vs vs' : Values N}
    (computes : s.operation? = some o) (ran : s.run m vs = .ok vs') :
    ∃ v, o.formula.substitute vs.get? = .ok v ∧ vs' = vs.set o.name v := by
  have applied {owner : String} (done : Industry.apply owner vs o = .ok vs') :
      ∃ v, o.formula.substitute vs.get? = .ok v ∧ vs' = vs.set o.name v := by
    simpa only [Formula.substitute_eq_ok] using Industry.apply_eq_ok.mp done
  cases s with
  | demand d | output _ _ o' | closing o' =>
    cases computes
    exact applied ran
  | constant | outcome | preset => cases computes

end Step

namespace Industry

variable {N : Type}

/-- Every item of an industry, as the step that computes it. -/
def items (i : Industry N) (m : MetaProcess N) : List (Step N) :=
  m.demands.map .demand ++ i.processes.flatMap (fun q => q.2.operations.map (.output q.1 q.2)) ++
    m.closing.map .closing

section Places

variable {i : Industry N} {m : MetaProcess N} {queue : List String} {s : Step N}

theorem mem_steps_of_mem_items (distinct : i.ids.Nodup) (complete : queue.Perm i.ids) (outcome : N)
    (item : s ∈ i.items m) (used : ∀ d, s = .demand d → d.used ∈ i.ids) :
    s ∈ steps m (i.queued queue) outcome := by
  have queued {id : String} {p : Process N} (inside : (id, p) ∈ i.processes) :
      (id, p) ∈ i.queued queue :=
    mem_queued.mpr ⟨complete.mem_iff.mpr (List.mem_map_of_mem inside),
      (process?_eq_some_iff distinct).mpr inside⟩
  simp only [items, List.mem_append, List.mem_map, List.mem_flatMap] at item
  rcases item with (⟨d, demand, rfl⟩ | ⟨⟨id, p⟩, inside, o, operation, rfl⟩) | ⟨o, closing, rfl⟩
  · -- a demand runs with the process that uses it
    obtain ⟨⟨id, p⟩, inside, same⟩ := List.mem_map.mp (used d rfl)
    refine List.mem_append_left _ (List.mem_append_right _ ?_)
    refine List.mem_flatMap.mpr ⟨_, queued inside, ?_⟩
    simp [block, MetaProcess.demandsFor, demand, show d.used = id from same.symm]
  · exact List.mem_append_left _ (List.mem_append_right _ (output_mem_blocks (queued inside) operation))
  · exact List.mem_append_right _ (List.mem_map_of_mem closing)

theorem mem_owners_of_mem_items {o : Operation N} (item : s ∈ i.items m) (compared : s.IsCompared)
    (computes : s.operation? = some o) : ∃ owner os, (owner, os) ∈ i.owners m ∧ o ∈ os := by
  simp only [items, List.mem_append, List.mem_map, List.mem_flatMap] at item
  rcases item with (⟨d, demand, rfl⟩ | ⟨⟨id, p⟩, inside, o', operation, rfl⟩) | ⟨o', closing, rfl⟩
  all_goals cases computes
  · have plain : d.tag = "" := compared
    refine ⟨_, _, List.mem_cons_self, List.mem_append_left _ ?_⟩
    exact List.mem_map_of_mem (List.mem_filter.mpr ⟨demand, by simp [plain]⟩)
  · exact ⟨_, _, List.mem_cons_of_mem _ (List.mem_map_of_mem inside), operation⟩
  · exact ⟨_, _, List.mem_cons_self, List.mem_append_right _ closing⟩

end Places

section Verified

variable [Quantity N] {i : Industry N} {m : MetaProcess N} {outcome : N}

theorem mismatches_eq_nil {n : Nat} :
    i.mismatches m outcome n = [] ↔ ∃ values, i.evaluate outcome = .ok values ∧
      ∀ owner os, (owner, os) ∈ i.owners m → ∀ o ∈ os, ∀ expected, o.tests[n]? = some expected →
        Quantity.differs (Quantity.cents ((values.get? o.name).getD Quantity.zero)) expected = false := by
  unfold mismatches
  cases i.evaluate outcome with
  | error e => simp
  | ok values =>
    have compared (owner : String) (o : Operation N) : mismatch? m n outcome values owner o = none ↔
        ∀ expected, o.tests[n]? = some expected → Quantity.differs
          (Quantity.cents ((values.get? o.name).getD Quantity.zero)) expected = false := by
      unfold mismatch?
      cases o.tests[n]? <;> simp
    simp [List.flatMap_eq_nil_iff, List.filterMap_eq_nil_iff, compared]

theorem verify_eq_ok (set : i.metaProcess = some m) : i.verify = .ok () ↔
    ∀ n outcome, m.outcome.tests[n]? = some outcome → i.mismatches m outcome n = [] := by
  have collected : i.verify = .ok () ↔
      (m.outcome.tests.zipIdx.flatMap fun p => i.mismatches m p.1 p.2) = [] := by
    rw [← Failure.collect_eq_none]
    simp only [verify, requireMeta, set, bind, Except.bind]
    split
    next gathered => exact iff_of_true rfl gathered
    next f gathered =>
      refine iff_of_false (by simp) fun none => ?_
      have impossible := gathered.symm.trans none
      cases impossible
  rw [collected, List.flatMap_eq_nil_iff]
  simp only [Prod.forall, List.mem_zipIdx_iff_getElem?]
  exact ⟨fun all n x golden => all x n golden, fun all x n golden => all n x golden⟩

theorem queue_of_evaluate {values : Values N} (evaluated : i.evaluate outcome = .ok values) :
    ∃ queue, i.executionQueue = .ok queue := by
  cases ordered : i.executionQueue with
  | ok queue => exact ⟨queue, rfl⟩
  | error fault =>
    simp only [evaluate, ordered] at evaluated
    cases set : i.metaProcess with
    | none => simp [set] at evaluated
    | some m =>
      simp only [set] at evaluated
      split at evaluated <;> cases evaluated

theorem value_kept {ps : List (String × Process N)} {before after : List (Step N)} {s : Step N}
    {o : Operation N} {values : Values N} (ran : (steps m ps outcome).foldlM (Step.run m) [] = .ok values)
    (split : steps m ps outcome = before ++ s :: after) (computes : s.operation? = some o) :
    ∃ known v, Reaches m ps outcome before s known ∧ o.formula.substitute known.get? = .ok v ∧
      ((∀ t ∈ after, ¬ t.Disturbs o.name v) → values.get? o.name = some v) := by
  rw [split] at ran
  obtain ⟨known, earlier, rest⟩ := foldlM_append_eq_ok.mp ran
  obtain ⟨next, here, later⟩ := foldlM_cons_eq_ok.mp rest
  obtain ⟨v, computed, rfl⟩ := Step.computed computes here
  refine ⟨known, v, ⟨⟨after, split⟩, earlier⟩, computed, fun calm => ?_⟩
  exact Step.get?_foldlM (Values.get?_set_self known o.name v) calm later

end Verified

theorem golden_values_met {i : Industry ℚ} {m : MetaProcess ℚ} {n : Nat} {outcome : ℚ} (built : Built i)
    (set : i.metaProcess = some m) (verified : i.verify = .ok ())
    (golden : m.outcome.tests[n]? = some outcome) :
    ∃ queue values, i.executionQueue = .ok queue ∧ i.evaluate outcome = .ok values ∧
      ∀ s ∈ i.items m, (∀ d, s = .demand d → d.used ∈ i.ids) →
        s ∈ steps m (i.queued queue) outcome ∧ ∀ o before after, s.operation? = some o →
          steps m (i.queued queue) outcome = before ++ s :: after →
            ∃ known v, Reaches m (i.queued queue) outcome before s known ∧
              o.formula.substitute known.get? = .ok v ∧
              ((∀ t ∈ after, ¬ t.Disturbs o.name v) → values.get? o.name = some v) ∧
              (s.IsCompared → values.get? o.name = some v → ∀ expected, o.tests[n]? = some expected →
                |Rational.round (v * 100) / 100 - expected| ≤ 1 / 1000000000) := by
  obtain ⟨values, evaluated, met⟩ := mismatches_eq_nil.mp ((verify_eq_ok set).mp verified n outcome golden)
  obtain ⟨queue, ordered⟩ := queue_of_evaluate evaluated
  have complete := (executionQueue_eq_ok ordered).2
  refine ⟨queue, values, ordered, evaluated, fun s item used =>
    ⟨mem_steps_of_mem_items built.ids_nodup complete outcome item used, fun o before after computes split => ?_⟩⟩
  have ran : (steps m (i.queued queue) outcome).foldlM (Step.run m) [] = .ok values := by
    rw [evaluate_eq_foldlM set ordered] at evaluated
    split at evaluated
    · cases evaluated
    · exact evaluated
  obtain ⟨known, v, reached, computed, kept⟩ := value_kept ran split computes
  refine ⟨known, v, reached, computed, kept, fun compared final expected test => ?_⟩
  obtain ⟨owner, os, owned, inside⟩ := mem_owners_of_mem_items item compared computes
  have near := met owner os owned o inside expected test
  rw [final] at near
  simpa [Quantity.differs, Quantity.cents] using near

def press : Process ℚ where
  name := "press"
  shortName := "press"
  inputs := [{ name := "feed" }]
  outputs := [{ name := "oil", operation := "feed/3", args := [⟨"feed", .inputs, ""⟩],
                tests := [667 / 100, 1333 / 100] }]
  operations := [⟨{ name := "oil" }, .binary .div (.name "feed") (.number 3), [⟨"feed", .inputs, ""⟩],
    [667 / 100, 1333 / 100]⟩]

def pressRecord : IndustryRecord ℚ where
  name := "oilworks"
  outcome := { name := "goal", tests := [10, 20] }
  demands := [{ name := "feed", operation := "goal*2", used := "press", args := [⟨"goal", .outcome, ""⟩],
                tests := [20, 40] }]
  outputs := [{ name := "rest", operation := "goal - oil", tests := [333 / 100, 667 / 100],
                args := [⟨"goal", .outcome, ""⟩, ⟨"oil", .outputs, "press"⟩] }]

def oilworks : MetaProcess ℚ where
  toProcessRecord := pressRecord.toProcessRecord
  outcome := pressRecord.outcome
  demands := [⟨⟨{ name := "feed" }, .binary .mul (.name "goal") (.number 2), [⟨"goal", .outcome, ""⟩],
    [20, 40]⟩, "press", ""⟩]
  closing := [⟨{ name := "rest" }, .binary .sub (.name "goal") (.name "oil"),
    [⟨"goal", .outcome, ""⟩, ⟨"oil", .outputs, "press"⟩], [333 / 100, 667 / 100]⟩]

theorem golden_values_met_press :
    let i : Industry ℚ := ⟨some oilworks, [("press", press)], (0, 100)⟩
    i.verify = .ok () ∧ ∃ before known v values,
      Reaches oilworks (i.queued ["press"]) 10 before (.output "press" press press.operations[0]) known ∧
        press.operations[0].formula.substitute known.get? = .ok v ∧ i.evaluate 10 = .ok values ∧
          values.get? "oil" = some v ∧ |Rational.round (v * 100) / 100 - 667 / 100| ≤ 1 / 1000000000 := by
  intro i
  have compiled : ∀ q ∈ i.processes, q.2.toProcessRecord.compile = .ok q.2 := by
    simp only [i, List.forall_mem_cons, List.not_mem_nil, false_implies, implies_true, and_true]
    with_unfolding_all rfl
  have driven : pressRecord.compile = .ok oilworks := by cbv
  have built : Built i := built_of_compile (by decide) compiled driven rfl
  have verified : i.verify = .ok () := by cbv
  obtain ⟨queue, values, ordered, evaluated, met⟩ := golden_values_met (n := 0) built rfl verified rfl
  have alone : i.executionQueue = .ok ["press"] := by with_unfolding_all rfl
  obtain rfl := Except.ok.inj (alone.symm.trans ordered)
  have queued : i.queued ["press"] = [("press", press)] := by with_unfolding_all rfl
  have item : Step.output "press" press press.operations[0] ∈ i.items oilworks := by
    simp [items, i, press]
  obtain ⟨-, value⟩ := met _ item (by simp)
  obtain ⟨known, v, reached, computed, kept, near⟩ := value press.operations[0]
    [.outcome "goal" 10, .demand oilworks.demands[0], .preset press "feed"] [.closing oilworks.closing[0]]
    rfl (by rw [queued]; with_unfolding_all rfl)
  have final : values.get? "oil" = some v :=
    kept (by simp [Step.Disturbs, press, oilworks])
  exact ⟨verified, _, known, v, values, reached, computed, evaluated, final, near trivial final _ rfl⟩

def Overlooks (i : Industry ℚ) (s : Step ℚ) : Prop :=
  Built i ∧ i.check = .ok () ∧ i.verify = .ok () ∧
    ∃ m queue, ∃ n : Nat, ∃ outcome o before known v expected,
      i.metaProcess = some m ∧ s ∈ i.items m ∧ i.executionQueue = .ok queue ∧
        m.outcome.tests[n]? = some outcome ∧ s.operation? = some o ∧
          Reaches m (i.queued queue) outcome before s known ∧ o.formula.substitute known.get? = .ok v ∧
            o.tests[n]? = some expected ∧ 1 / 1000000000 < |Rational.round (v * 100) / 100 - expected|

def taggedRecord : IndustryRecord ℚ where
  name := "Plant"
  outcome := { name := "goal", tests := [10] }
  demands := [{ name := "x", operation := "5", used := "p", tag := "sum", tests := [999] }]

def taggedDriver : MetaProcess ℚ where
  toProcessRecord := taggedRecord.toProcessRecord
  outcome := taggedRecord.outcome
  demands := [⟨⟨{ name := "x" }, .number 5, [], [999]⟩, "p", "sum"⟩]
  closing := []

def conduit : Process ℚ where
  name := "conduit"
  shortName := "conduit"
  inputs := [{ name := "x" }]
  outputs := [{ name := "y", operation := "x", args := [⟨"x", .inputs, ""⟩] }]
  operations := [⟨{ name := "y" }, .name "x", [⟨"x", .inputs, ""⟩], []⟩]

theorem tagged_demand_overlooked :
    Overlooks ⟨some taggedDriver, [("p", conduit)], (0, 100)⟩ (.demand taggedDriver.demands[0]) := by
  have driven : taggedRecord.compile = .ok taggedDriver := by with_unfolding_all rfl
  have compiled : ∀ q ∈ [("p", conduit)], q.2.toProcessRecord.compile = .ok q.2 := by
    simp only [List.forall_mem_cons, List.not_mem_nil, false_implies, implies_true, and_true]
    with_unfolding_all rfl
  have queued : Industry.queued ⟨some taggedDriver, [("p", conduit)], (0, 100)⟩ ["p"] = [("p", conduit)] := by
    cbv
  have verified : Industry.verify ⟨some taggedDriver, [("p", conduit)], (0, 100)⟩ = .ok () := by
    with_unfolding_all rfl
  refine ⟨built_of_compile (by decide) compiled driven rfl, by cbv, verified, taggedDriver, ["p"], 0, 10, _,
    [.outcome "goal" 10], [("goal", 10)], 5, 999, rfl, by simp [items, taggedDriver], by cbv, rfl, rfl, ?_,
    by cbv, rfl, by decide +kernel⟩
  rw [queued]
  exact ⟨⟨_, by cbv⟩, by cbv⟩

def goldenDriver : MetaProcess ℚ := { driver with outcome := { name := "goal", tests := [10] } }

def goldenFixed (name text : String) (value golden : ℚ) : Process ℚ where
  name := name
  shortName := name
  outputs := [{ name := "y", operation := text, tests := [golden] }]
  operations := [⟨{ name := "y" }, .number value, [], [golden]⟩]

theorem overwritten_output_overlooked :
    Overlooks ⟨some goldenDriver, [("q", goldenFixed "first" "1" 1 2), ("r", goldenFixed "second" "2" 2 2)],
      (0, 100)⟩ (.output "q" (goldenFixed "first" "1" 1 2) (goldenFixed "first" "1" 1 2).operations[0]) := by
  have driven : ({ driver.toProcessRecord with outcome := goldenDriver.outcome } : IndustryRecord ℚ).compile =
      .ok goldenDriver := by cbv
  have compiled : ∀ q ∈ [("q", goldenFixed "first" "1" 1 2), ("r", goldenFixed "second" "2" 2 2)],
      q.2.toProcessRecord.compile = .ok q.2 := by
    simp only [List.forall_mem_cons, List.not_mem_nil, false_implies, implies_true, and_true]
    exact ⟨by with_unfolding_all rfl, by cbv⟩
  have queued : Industry.queued ⟨some goldenDriver, [("q", goldenFixed "first" "1" 1 2),
      ("r", goldenFixed "second" "2" 2 2)], (0, 100)⟩ ["q", "r"] =
      [("q", goldenFixed "first" "1" 1 2), ("r", goldenFixed "second" "2" 2 2)] := by cbv
  have verified : Industry.verify ⟨some goldenDriver, [("q", goldenFixed "first" "1" 1 2),
      ("r", goldenFixed "second" "2" 2 2)], (0, 100)⟩ = .ok () := by
    with_unfolding_all rfl
  refine ⟨built_of_compile (by decide) compiled driven rfl, by cbv, verified, goldenDriver, ["q", "r"], 0, 10, _,
    [.outcome "goal" 10], [("goal", 10)], 1, 2, rfl, by simp [items, goldenFixed], by cbv, rfl, rfl, ?_,
    by cbv, rfl, by decide +kernel⟩
  rw [queued]
  exact ⟨⟨_, by cbv⟩, by cbv⟩

theorem golden_values_overlooked :
    Overlooks ⟨some taggedDriver, [("p", conduit)], (0, 100)⟩ (.demand taggedDriver.demands[0]) ∧
      Overlooks ⟨some goldenDriver,
          [("q", goldenFixed "first" "1" 1 2), ("r", goldenFixed "second" "2" 2 2)], (0, 100)⟩
        (.output "q" (goldenFixed "first" "1" 1 2) (goldenFixed "first" "1" 1 2).operations[0]) :=
  ⟨tagged_demand_overlooked, overwritten_output_overlooked⟩

end Industry

end Flowsheet
