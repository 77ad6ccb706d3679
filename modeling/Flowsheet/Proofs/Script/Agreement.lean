import Flowsheet.Proofs.Industry.Queue
import Flowsheet.Proofs.Script.Simulation

set_option autoImplicit false

namespace Flowsheet.Industry

section Evaluate

variable {N : Type} [Quantity N]

def Admits (i : Industry N) (outcome : N) : Prop :=
  (Quantity.lt outcome i.bounds.1 || Quantity.lt i.bounds.2 outcome) = false

theorem evaluate_eq_ok {i : Industry N} {m : MetaProcess N} {queue : List String} {outcome : N}
    {values : Values N} (set : i.metaProcess = some m) (ordered : i.executionQueue = .ok queue) :
    i.evaluate outcome = .ok values ↔
      i.Admits outcome ∧ ∃ between,
        (i.queued queue).foldlM (fun vs (id, p) => runProcess m vs id p)
            (initialValues m (i.queued queue) outcome) = .ok between ∧
          m.closing.foldlM (apply m.name) between = .ok values := by
  simp only [evaluate, set, ordered, Admits]
  cases Quantity.lt outcome i.bounds.1 || Quantity.lt i.bounds.2 outcome with
  | true =>
    simp only [if_true, Bool.true_eq_false, false_and, iff_false]
    intro failed
    cases failed
  | false =>
    simp only [Bool.false_eq_true, if_false, true_and]
    constructor
    · intro evaluated
      obtain ⟨_, ⟨rfl⟩, rest⟩ := bind_eq_ok.mp evaluated
      exact bind_eq_ok.mp rest
    · intro evaluated
      exact bind_eq_ok.mpr ⟨queue, rfl, bind_eq_ok.mpr evaluated⟩

def exposed (m : MetaProcess N) (ps : List (String × Process N)) : List Labels :=
  m.exposed ++ ps.flatMap fun (_, p) => p.exposed

end Evaluate

section Computed

variable {N : Type}

theorem mem_computedBy {m : MetaProcess N} {ps : List (String × Process N)} {computed : List String}
    {x : String} :
    x ∈ computedBy m computed ps ↔
      x ∈ computed ∨ ∃ q ∈ ps, x ∈ q.2.operations.map (·.name) ∨ x ∈ (m.demandsFor q.1).map (·.name) := by
  induction ps generalizing computed with
  | nil => simp [computedBy]
  | cons q ps ih =>
    rw [computedBy, ih]
    simp only [List.mem_append, List.mem_cons, exists_eq_or_imp, ← or_assoc]
    rw [or_comm (a := _ ∨ _) (b := x ∈ computed), ← or_assoc]

theorem mem_settledBy {m : MetaProcess N} {ps : List (String × Process N)} {settled : Values N}
    {r : String × N} :
    r ∈ settledBy m settled ps ↔
      r ∈ settled ∨ ∃ q ∈ ps, r ∈ q.2.standing ((m.demandsFor q.1).map (·.name)) := by
  induction ps generalizing settled with
  | nil => simp [settledBy]
  | cons q ps ih =>
    rw [settledBy, ih, List.mem_append]
    simp only [List.mem_cons, exists_eq_or_imp]
    rw [or_comm (a := r ∈ q.2.standing _), or_assoc]

theorem exposed_computed {m : MetaProcess N} {ps : List (String × Process N)}
    (used : ∀ d ∈ m.demands, ∃ q ∈ ps, q.1 = d.used) :
    ∀ l ∈ exposed m ps, l.name ∈ m.closing.map (·.name) ++ computedBy m [m.outcome.name] ps := by
  intro l member
  simp only [exposed, MetaProcess.exposed, MetaProcess.operations, MetaProcess.plainDemands,
    Process.exposed, List.mem_append, List.mem_cons, List.map_append, List.map_map, List.mem_map,
    List.mem_flatMap, List.mem_filter] at member
  rw [List.mem_append, mem_computedBy]
  rcases member with (rfl | ⟨d, ⟨inside, -⟩, rfl⟩ | ⟨o, inside, rfl⟩) | ⟨q, inside, o, operation, rfl⟩
  · exact .inr (.inl (by simp))
  · obtain ⟨q, queued, named⟩ := used d inside
    refine .inr (.inr ⟨q, queued, .inr (List.mem_map.mpr ⟨d, ?_, rfl⟩)⟩)
    exact List.mem_filter.mpr ⟨inside, by simp [named]⟩
  · exact .inl (List.mem_map.mpr ⟨o, inside, rfl⟩)
  · exact .inr (.inr ⟨q, inside, .inl (List.mem_map.mpr ⟨o, operation, rfl⟩)⟩)

theorem used_of_check {i : Industry N} {m : MetaProcess N} {queue : List String}
    (set : i.metaProcess = some m) (checked : i.check = .ok ())
    (ordered : i.executionQueue = .ok queue) :
    ∀ d ∈ m.demands, ∃ q ∈ i.queued queue, q.1 = d.used := by
  intro d member
  have demanded := (check_eq_ok set checked).2.1 d member
  obtain ⟨p, found⟩ := Option.isSome_iff_exists.mp (process_of_checkDemand demanded)
  have known : d.used ∈ i.ids := List.mem_map.mpr ⟨_, mem_processes_of_process? found, rfl⟩
  have queued := (executionQueue_eq_ok ordered).2.mem_iff.mpr known
  exact ⟨(d.used, p), mem_queued.mpr ⟨queued, found⟩, rfl⟩

end Computed

theorem Tracks.initial (constants : Values ℚ) (x : String) (v : ℚ) :
    Tracks constants [x] [] (constants.set x v) [(x, v)] := by
  have single (y : String) : Values.get? [(x, v)] y = if y = x then some v else none :=
    Values.get?_cons y x v []
  constructor
  · intro y
    by_cases same : y = x
    · simp [single, same]
    · simp [single, same]
  · intro y found
    by_cases same : y = x
    · simp [same]
    · simp [single, same] at found
  · simp
  · simp [single]

theorem Tracks.construct {m : MetaProcess ℚ} {ps : List (String × Process ℚ)} {outcome : ℚ}
    {attributes : Values ℚ} (formed : m.WellFormed) (compiled : ∀ q ∈ ps, q.2.WellFormed)
    (coherent : Coherent m ps) (ran : constructOwn m ps outcome = .ok attributes) :
    ∃ between values,
      ps.foldlM (fun vs (id, p) => runProcess m vs id p) (initialValues m ps outcome) = .ok between ∧
        m.closing.foldlM (apply m.name) between = .ok values ∧
          Tracks (constants m ps) (m.closing.map (·.name) ++ computedBy m [m.outcome.name] ps)
            (settledBy m [] ps) values attributes := by
  rw [constructOwn, bind_eq_ok] at ran
  obtain ⟨open', first, last⟩ := ran
  obtain ⟨between, evaluated, tracks⟩ :=
    (Tracks.initial (constants m ps) m.outcome.name outcome).blocks formed compiled
      (fun _ => mem_constantNames) coherent first
  obtain ⟨values, finished, final⟩ := tracks.operations m.name formed.closing coherent.closing
    (fun _ _ => mem_constantNames) (readsFirst_nil _ [] _) (by simp [Values.get?])
    (intact_nil [] _) last
  exact ⟨between, values, evaluated, finished, final⟩

def driver : MetaProcess ℚ where
  name := "Plant"
  outcome := { name := "goal" }
  demands := []
  closing := []

def plant (ps : List (String × Process ℚ)) : Industry ℚ where
  metaProcess := some driver
  processes := ps
  defaultBounds := (0, 100)

theorem built_plant {ps : List (String × Process ℚ)} (ids : (ps.map (·.1)).Nodup)
    (compiled : ∀ q ∈ ps, q.2.toProcessRecord.compile = .ok q.2) : Built (plant ps) := by
  have driven : ({ driver.toProcessRecord with outcome := driver.outcome } : IndustryRecord ℚ).compile =
      .ok driver := by cbv
  exact built_of_compile ids compiled driven rfl

def relay (name output : String) (value : ℚ) : Process ℚ where
  name := name
  shortName := name
  inputs := [{ name := "x", value := [value] }]
  outputs := [{ name := output, args := [⟨"x", .inputs, ""⟩], operation := "x" }]
  operations := [⟨{ name := output }, .name "x", [⟨"x", .inputs, ""⟩], []⟩]

theorem compile_relay (name output : String) (value : ℚ) :
    (relay name output value).toProcessRecord.compile = .ok (relay name output value) := by
  with_unfolding_all rfl

def counter : Process ℚ where
  name := "counter"
  shortName := "counter"
  inputs := [{ name := "x", value := [1] }]
  outputs := [{ name := "x", args := [⟨"x", .inputs, ""⟩], operation := "x + 1" },
    { name := "y", args := [⟨"x", .inputs, ""⟩], operation := "x" }]
  operations := [⟨{ name := "x" }, .binary .add (.name "x") (.number 1), [⟨"x", .inputs, ""⟩], []⟩,
    ⟨{ name := "y" }, .name "x", [⟨"x", .inputs, ""⟩], []⟩]

theorem compile_counter : counter.toProcessRecord.compile = .ok counter := by with_unfolding_all rfl

def meter : Process ℚ where
  name := "meter"
  shortName := "meter"
  constants := [{ name := "goal", value := 5 }]
  outputs := [{ name := "y", args := [⟨"goal", .constants, ""⟩], operation := "goal" }]
  operations := [⟨{ name := "y" }, .name "goal", [⟨"goal", .constants, ""⟩], []⟩]

theorem compile_meter : meter.toProcessRecord.compile = .ok meter := by with_unfolding_all rfl

theorem exposed_agree {i : Industry ℚ} {m : MetaProcess ℚ} {queue : List String} {outcome : ℚ}
    {values attributes : Values ℚ} (built : Built i) (set : i.metaProcess = some m)
    (checked : i.check = .ok ()) (ordered : i.executionQueue = .ok queue)
    (coherent : Coherent m (i.queued queue)) (evaluated : i.evaluate outcome = .ok values)
    (ran : constructOwn m (i.queued queue) outcome = .ok attributes) :
    ∀ l ∈ exposed m (i.queued queue),
      ∃ v, values.get? l.name = some v ∧ attributes.get? l.name = some v := by
  have formed := built.wellFormed
  have compiled : ∀ q ∈ i.queued queue, q.2.WellFormed := fun q member =>
    formed.processes q (mem_processes_of_process? (mem_queued.mp member).2)
  obtain ⟨between, values', first, last, tracks⟩ :=
    Tracks.construct (formed.metaProcess m set) compiled coherent ran
  obtain ⟨-, between', first', last'⟩ := (evaluate_eq_ok set ordered).mp evaluated
  -- the evaluation that follows the constructor is the one that was given
  obtain rfl : between' = between := Except.ok.inj (first'.symm.trans first)
  obtain rfl : values' = values := Except.ok.inj (last.symm.trans last')
  intro l member
  have computed := exposed_computed (used_of_check set checked ordered) l member
  obtain ⟨v, found⟩ := Option.isSome_iff_exists.mp (tracks.done l.name computed)
  exact ⟨v, tracks.value found, found⟩

theorem exposed_agree_relay :
    let i := plant [("p", relay "first" "y" 3), ("q", relay "second" "z" 3)]
    Coherent driver (i.queued ["p", "q"]) ∧
      i.evaluate 10 = .ok [("z", 3), ("y", 3), ("x", 3), ("goal", 10)] ∧
        constructOwn driver (i.queued ["p", "q"]) 10 =
            .ok [("z", 3), ("x", 3), ("y", 3), ("goal", 10)] ∧
          ∀ l ∈ exposed driver (i.queued ["p", "q"]), ∃ v,
            Values.get? [("z", 3), ("y", 3), ("x", 3), ("goal", (10 : ℚ))] l.name = some v ∧
              Values.get? [("z", 3), ("x", 3), ("y", 3), ("goal", (10 : ℚ))] l.name = some v := by
  intro i
  have built : Built i := built_plant (by decide) (by simp [compile_relay])
  have coherent : Coherent driver (i.queued ["p", "q"]) := by decide
  have evaluated : i.evaluate 10 = .ok [("z", 3), ("y", 3), ("x", 3), ("goal", 10)] := by cbv
  have ran : constructOwn driver (i.queued ["p", "q"]) 10 =
      .ok [("z", 3), ("x", 3), ("y", 3), ("goal", 10)] := by with_unfolding_all rfl
  exact ⟨coherent, evaluated, ran,
    exposed_agree built rfl (by cbv) (by with_unfolding_all rfl) coherent evaluated ran⟩

example : (plant [("p", counter)]).check = .ok () ∧
    (plant [("p", counter)]).evaluate 10 = .ok [("y", 2), ("x", 2), ("goal", 10)] ∧
      constructOwn driver ((plant [("p", counter)]).queued ["p"]) 10 =
        .ok [("y", 1), ("x", 2), ("goal", 10)] := by
  exact ⟨by cbv, by cbv, by cbv⟩

def Parts (i : Industry ℚ) (outcome : ℚ) : Prop :=
  ∃ m queue values attributes, Built i ∧ i.metaProcess = some m ∧ i.check = .ok () ∧
    i.executionQueue = .ok queue ∧ i.evaluate outcome = .ok values ∧
      constructOwn m (i.queued queue) outcome = .ok attributes ∧
        ∃ l ∈ exposed m (i.queued queue), values.get? l.name ≠ attributes.get? l.name

theorem relay_parts : Parts (plant [("p", relay "first" "y" 1), ("q", relay "second" "z" 2)]) 10 := by
  -- the evaluator keeps the first declared value, the class writes the second over it
  have built : Built (plant [("p", relay "first" "y" 1), ("q", relay "second" "z" 2)]) :=
    built_plant (by decide) (by simp [compile_relay])
  refine ⟨driver, ["p", "q"], [("z", 1), ("y", 1), ("x", 1), ("goal", 10)],
    [("z", 2), ("x", 2), ("y", 1), ("goal", 10)], built, rfl, ?_, ?_, ?_, ?_,
    { name := "z" }, by decide, by decide +kernel⟩
  all_goals with_unfolding_all rfl

theorem counter_parts : Parts (plant [("p", counter)]) 10 := by
  -- the evaluator reads the output, the class the parameter
  have built : Built (plant [("p", counter)]) := built_plant (by decide) (by simp [compile_counter])
  refine ⟨driver, ["p"], [("y", 2), ("x", 2), ("goal", 10)], [("y", 1), ("x", 2), ("goal", 10)], built,
    rfl, ?_, ?_, ?_, ?_, { name := "y" }, by decide, by decide +kernel⟩
  all_goals with_unfolding_all rfl

theorem meter_parts : Parts (plant [("p", meter)]) 10 := by
  -- the evaluator reads the outcome, the class the constant
  have built : Built (plant [("p", meter)]) := built_plant (by decide) (by simp [compile_meter])
  refine ⟨driver, ["p"], [("y", 10), ("goal", 10)], [("y", 5), ("goal", 10)], built, rfl, ?_, ?_, ?_, ?_,
    { name := "y" }, by decide, by decide +kernel⟩
  all_goals with_unfolding_all rfl

theorem incoherent_plants_part :
    Parts (plant [("p", relay "first" "y" 1), ("q", relay "second" "z" 2)]) 10 ∧
      Parts (plant [("p", counter)]) 10 ∧ Parts (plant [("p", meter)]) 10 :=
  ⟨relay_parts, counter_parts, meter_parts⟩

end Flowsheet.Industry
