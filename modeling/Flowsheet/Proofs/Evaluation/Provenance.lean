import Flowsheet.Proofs.Evaluation.Steps
import Flowsheet.Proofs.Industry.Queue
import Flowsheet.Proofs.Script.SingleDefinition

set_option autoImplicit false

namespace Flowsheet

namespace Step

variable {N : Type}

/-- Whether a step may replace the value `v` of a name. Presets never replace a value. -/
def Disturbs (x : String) (v : N) : Step N → Prop
  | .constant c => c.name = x ∧ c.value ≠ v
  | .outcome y w => y = x ∧ w ≠ v
  | .demand d => d.name = x
  | .preset _ _ => False
  | .output _ _ o => o.name = x
  | .closing o => o.name = x

instance [DecidableEq N] (x : String) (v : N) : DecidablePred (Disturbs x v) := fun s =>
  match s with
  | .constant c => inferInstanceAs (Decidable (c.name = x ∧ c.value ≠ v))
  | .outcome y w => inferInstanceAs (Decidable (y = x ∧ w ≠ v))
  | .demand d => inferInstanceAs (Decidable (d.name = x))
  | .preset _ _ => inferInstanceAs (Decidable False)
  | .output _ _ o => inferInstanceAs (Decidable (o.name = x))
  | .closing o => inferInstanceAs (Decidable (o.name = x))

variable [Quantity N] {m : MetaProcess N} {vs vs' : Values N} {x : String} {v : N}

theorem get?_run {s : Step N} (held : vs.get? x = some v) (calm : ¬ s.Disturbs x v)
    (ran : s.run m vs = .ok vs') : vs'.get? x = some v := by
  have given {y : String} {w : N} (same : y = x → w = v) : (vs.set y w).get? x = some v := by
    by_cases here : x = y
    · rw [here, Values.get?_set_self, same here.symm]
    · rw [Values.get?_set_of_ne vs w here, held]
  have applied {owner : String} {o : Operation N} (other : ¬ o.name = x)
      (done : Industry.apply owner vs o = .ok vs') : vs'.get? x = some v := by
    obtain ⟨w, -, rfl⟩ := Industry.apply_eq_ok.mp done
    exact given fun same => absurd same other
  cases s with
  | constant c =>
    cases ran
    exact given fun same => not_not.mp fun differs => calm ⟨same, differs⟩
  | outcome y w =>
    cases ran
    exact given fun same => not_not.mp fun differs => calm ⟨same, differs⟩
  | demand d => exact applied calm ran
  | output id p o => exact applied calm ran
  | closing o => exact applied calm ran
  | preset p y =>
    cases ran
    unfold Industry.preset
    split
    · exact held
    next unknown =>
      have other : y ≠ x := by
        rintro rfl
        simp [Values.has, held] at unknown
      split
      · exact given fun same => absurd same other
      · exact held

theorem get?_foldlM {ss : List (Step N)} (held : vs.get? x = some v) (calm : ∀ s ∈ ss, ¬ s.Disturbs x v)
    (ran : ss.foldlM (Step.run m) vs = .ok vs') : vs'.get? x = some v := by
  induction ss generalizing vs with
  | nil =>
    cases ran
    exact held
  | cons s ss ih =>
    obtain ⟨between, first, rest⟩ := foldlM_cons_eq_ok.mp ran
    obtain ⟨here, later⟩ := List.forall_mem_cons.mp calm
    exact ih (get?_run held here first) later rest

def ownConstants (m : MetaProcess N) : Step N → List (Constant N)
  | .demand _ => m.constants
  | .output _ p _ => p.constants
  | .closing _ => m.constants
  | _ => []

end Step

namespace Industry

variable {N : Type} [Quantity N] {i : Industry N} {m : MetaProcess N} {ps : List (String × Process N)}
  {queue : List String} {outcome : N} {before : List (Step N)} {values : Values N}

theorem external_value_of_source {id x : String} {p : Process N} {o : Operation N} {input : Input N}
    (built : Built i) (set : i.metaProcess = some m) (checked : i.check = .ok ())
    (ordered : i.executionQueue = .ok queue)
    (reaches : Reaches m (i.queued queue) outcome before (.output id p o) values)
    (found : p.input? x = some input) (external : input.isExternal = true) :
    (∃ q source, i.process? input.origin = some q ∧ source ∈ q.operations ∧ source.name = x ∧
      .output input.origin q source ∈ before) ∧
      ∀ q source earlier later, source.name = x →
        before = earlier ++ .output input.origin q source :: later →
          ∃ known v, Reaches m (i.queued queue) outcome earlier (.output input.origin q source) known ∧
            source.formula.substitute known.get? = .ok v ∧
              ((∀ s ∈ later, ¬ s.Disturbs x v) → values.get? x = some v) := by
  constructor
  · have names := built.forall_process Process.names_of_compile
    have named : input.name = x := by simpa using List.find?_some found
    obtain ⟨after, split⟩ := reaches.split
    obtain ⟨front, _, first, _, here, -, rfl⟩ := split_output split
    obtain ⟨q, inside, process, output⟩ :=
      source_of_external names set checked ordered here (List.mem_of_find?_eq_some found) external
    obtain ⟨source, operation, same⟩ := List.mem_map.mp output
    refine ⟨q, source, process, operation, same.trans named, ?_⟩
    exact List.mem_append_right _ (List.mem_append_left _ (output_mem_blocks inside operation))
  · rintro q source earlier later rfl rfl
    obtain ⟨known, next, reached, computed, last⟩ := reaches.earlier
    obtain ⟨v, evaluated, rfl⟩ := apply_eq_ok.mp computed
    refine ⟨known, v, reached, Formula.substitute_eq_ok.mpr evaluated, fun calm => ?_⟩
    exact Step.get?_foldlM (Values.get?_set_self known source.name v) calm last

theorem external_value_of_source_works :
    ∃ before o values,
      Reaches works (millAndKiln.queued ["mill", "kiln"]) 10 before (.output "kiln" kiln o) values ∧
        o.name = "heat" ∧ values.get? "meal" = some 10 := by
  have ordered : millAndKiln.executionQueue = .ok ["mill", "kiln"] := by with_unfolding_all rfl
  have found : kiln.input? "meal" = some { name := "meal", origin := "mill" } := by cbv
  have ran : ((steps works (millAndKiln.queued ["mill", "kiln"]) 10).take 8).foldlM (Step.run works) [] =
      .ok [("fuel", 20), ("meal", 10), ("ore", 3), ("goal", 10), ("loss", 4), ("rate", 2)] := by cbv
  have reaches : Reaches works (millAndKiln.queued ["mill", "kiln"]) 10
      ((steps works (millAndKiln.queued ["mill", "kiln"]) 10).take 8)
      (.output "kiln" kiln kiln.operations[0]) _ :=
    ⟨⟨(steps works (millAndKiln.queued ["mill", "kiln"]) 10).drop 9, by rw [queued_millAndKiln]; cbv⟩, ran⟩
  obtain ⟨-, value⟩ := external_value_of_source built_millAndKiln rfl (by cbv) ordered reaches found rfl
  -- the mill computes its meal in the fifth step
  obtain ⟨known, v, reached, computed, same⟩ := value mill mill.operations[0]
    ((steps works (millAndKiln.queued ["mill", "kiln"]) 10).take 4)
    (((steps works (millAndKiln.queued ["mill", "kiln"]) 10).drop 5).take 3) (by cbv)
    (by rw [queued_millAndKiln]; cbv)
  have start : ((steps works (millAndKiln.queued ["mill", "kiln"]) 10).take 4).foldlM (Step.run works) [] =
      .ok [("ore", 3), ("goal", 10), ("loss", 4), ("rate", 2)] := by cbv
  obtain rfl := Except.ok.inj (start.symm.trans reached.ran)
  have ten : mill.operations[0].formula.substitute (Values.get?
      [("ore", 3), ("goal", 10), ("loss", 4), ("rate", 2)]) = .ok 10 := by cbv
  obtain rfl := Except.ok.inj (ten.symm.trans computed)
  refine ⟨_, _, _, reaches, by cbv, same ?_⟩
  rw [queued_millAndKiln]
  decide +kernel

def fixed (name text : String) (value : ℚ) : Process ℚ where
  name := name
  shortName := name
  outputs := [{ name := "y", operation := text }]
  operations := [⟨{ name := "y" }, .number value, [], []⟩]

def tap : Process ℚ where
  name := "tap"
  shortName := "tap"
  inputs := [{ name := "y", origin := "q" }]
  outputs := [{ name := "z", args := [⟨"y", .inputs, ""⟩], operation := "y" }]
  operations := [⟨{ name := "z" }, .name "y", [⟨"y", .inputs, ""⟩], []⟩]

theorem external_value_of_another_process :
    let i := plant [("q", fixed "first" "1" 1), ("r", fixed "second" "2" 2), ("p", tap)]
    Built i ∧ i.check = .ok () ∧ i.executionQueue = .ok ["q", "r", "p"] ∧
      i.evaluate 10 = .ok [("z", 2), ("y", 2), ("goal", 10)] ∧
        tap.input? "y" = some { name := "y", origin := "q" } ∧ "y" ∈ tap.methodArgs ∧
          driver.demandsFor "p" = [] ∧
            ∃ earlier source known before o values, source.name = "y" ∧
              Reaches driver (i.queued ["q", "r", "p"]) 10 earlier
                  (.output "q" (fixed "first" "1" 1) source) known ∧
                source.formula.substitute known.get? = .ok 1 ∧
                  Reaches driver (i.queued ["q", "r", "p"]) 10 before (.output "p" tap o) values ∧
                    values.get? "y" = some 2 := by
  intro i
  have compiled : ∀ q ∈ i.processes, q.2.toProcessRecord.compile = .ok q.2 := by
    simp only [i, plant, List.forall_mem_cons, List.not_mem_nil, false_implies, implies_true, and_true]
    exact ⟨by with_unfolding_all rfl, by cbv, by cbv⟩
  have queued : i.queued ["q", "r", "p"] =
      [("q", fixed "first" "1" 1), ("r", fixed "second" "2" 2), ("p", tap)] := by cbv
  have checked : i.check = .ok () := by with_unfolding_all rfl
  have ordered : i.executionQueue = .ok ["q", "r", "p"] := by with_unfolding_all rfl
  refine ⟨built_plant (by decide) compiled, checked, ordered, by cbv, by cbv, by decide +kernel, rfl, ?_⟩
  rw [queued]
  refine ⟨[.outcome "goal" 10], (fixed "first" "1" 1).operations[0], [("goal", 10)],
    [.outcome "goal" 10, .output "q" (fixed "first" "1" 1) (fixed "first" "1" 1).operations[0],
      .output "r" (fixed "second" "2" 2) (fixed "second" "2" 2).operations[0], .preset tap "y"],
    tap.operations[0], [("y", 2), ("goal", 10)], rfl, ⟨⟨_, by cbv⟩, by cbv⟩, by cbv,
    ⟨⟨[], by cbv⟩, by cbv⟩, by cbv⟩

theorem constant_declared_before {s : Step N} {c : Constant N}
    (reaches : Reaches m ps outcome before s values) (own : c ∈ s.ownConstants m) :
    .constant c ∈ before := by
  obtain ⟨after, split⟩ := reaches.split
  have declared : Step.constant c ∈ declarations m ps outcome := by
    cases s with
    | demand d => exact List.mem_append_left _ (List.mem_append_left _ (List.mem_map_of_mem own))
    | closing o => exact List.mem_append_left _ (List.mem_append_left _ (List.mem_map_of_mem own))
    | output id p o =>
      obtain ⟨earlier, later, _, _, here, -⟩ := split_output split
      have inside : (id, p) ∈ ps := by simp [here]
      refine List.mem_append_left _ (List.mem_append_right _ ?_)
      exact List.mem_flatMap.mpr ⟨_, inside, List.mem_map_of_mem own⟩
    | _ => cases own
  have fresh : s ∉ declarations m ps outcome := by
    intro early
    cases s with
    | demand | output | closing => simp [declarations] at early
    | _ => cases own
  obtain ⟨rest, rfl, -⟩ := split_declared fresh split
  exact List.mem_append_left _ declared

theorem constant_value_of_owner {s : Step N} {c : Constant N}
    (reaches : Reaches m ps outcome before s values) (own : c ∈ s.ownConstants m) :
    .constant c ∈ before ∧ ∀ earlier later, before = earlier ++ .constant c :: later →
      (∀ t ∈ later, ¬ t.Disturbs c.name c.value) → values.get? c.name = some c.value := by
  refine ⟨constant_declared_before reaches own, fun earlier later cut calm => ?_⟩
  subst cut
  obtain ⟨known, next, -, ⟨rfl⟩, last⟩ := reaches.earlier
  exact Step.get?_foldlM (Values.get?_set_self known c.name c.value) calm last

theorem constant_value_of_owner_works :
    ∃ before d values,
      Reaches works (millAndKiln.queued ["mill", "kiln"]) 10 before (.demand d) values ∧
        d.name = "fuel" ∧ values.get? "rate" = some 2 := by
  have ran : ((steps works (millAndKiln.queued ["mill", "kiln"]) 10).take 5).foldlM (Step.run works) [] =
      .ok [("meal", 10), ("ore", 3), ("goal", 10), ("loss", 4), ("rate", 2)] := by cbv
  have reaches : Reaches works (millAndKiln.queued ["mill", "kiln"]) 10
      ((steps works (millAndKiln.queued ["mill", "kiln"]) 10).take 5) (.demand works.demands[0]) _ :=
    ⟨⟨(steps works (millAndKiln.queued ["mill", "kiln"]) 10).drop 6, by rw [queued_millAndKiln]; cbv⟩, ran⟩
  obtain ⟨-, value⟩ := constant_value_of_owner reaches
    (show works.constants[0] ∈ works.constants from List.getElem_mem _)
  refine ⟨_, _, _, reaches, by cbv,
    value [] (((steps works (millAndKiln.queued ["mill", "kiln"]) 10).drop 1).take 4)
      (by rw [queued_millAndKiln]; cbv) ?_⟩
  rw [queued_millAndKiln]
  decide +kernel

def dosed (name output : String) (dose : ℚ) : Process ℚ where
  name := name
  shortName := name
  constants := [{ name := "k", value := dose }]
  outputs := [{ name := output, args := [⟨"k", .constants, ""⟩], operation := "k" }]
  operations := [⟨{ name := output }, .name "k", [⟨"k", .constants, ""⟩], []⟩]

theorem constant_value_of_another_process :
    let i := plant [("q", dosed "first" "y" 1), ("r", dosed "second" "z" 2)]
    Built i ∧ i.check = .ok () ∧ i.executionQueue = .ok ["q", "r"] ∧
      i.evaluate 10 = .ok [("z", 2), ("y", 2), ("goal", 10), ("k", 2)] ∧
        ∃ before o values,
          Reaches driver (i.queued ["q", "r"]) 10 before (.output "q" (dosed "first" "y" 1) o) values ∧
            ⟨"k", .constants, ""⟩ ∈ o.args ∧
              (dosed "first" "y" 1).constants = [{ name := "k", value := 1 }] ∧
                values.get? "k" = some 2 := by
  intro i
  have compiled : ∀ q ∈ i.processes, q.2.toProcessRecord.compile = .ok q.2 := by
    simp only [i, plant, List.forall_mem_cons, List.not_mem_nil, false_implies, implies_true, and_true]
    exact ⟨by with_unfolding_all rfl, by with_unfolding_all rfl⟩
  have queued : i.queued ["q", "r"] = [("q", dosed "first" "y" 1), ("r", dosed "second" "z" 2)] := by cbv
  refine ⟨built_plant (by decide) compiled, by cbv, by cbv, by cbv, ?_⟩
  rw [queued]
  refine ⟨(dosed "first" "y" 1).constants.map .constant ++ (dosed "second" "z" 2).constants.map .constant ++
    [.outcome "goal" 10], (dosed "first" "y" 1).operations[0], [("goal", 10), ("k", 2)],
    ⟨⟨_, by cbv⟩, by cbv⟩, List.mem_singleton_self _, rfl, by cbv⟩

end Industry

end Flowsheet
