import Mathlib.Data.List.Nodup
import Flowsheet.Proofs.Evaluation.Golden
import Flowsheet.Proofs.Script.Exposed
import Flowsheet.Proofs.Script.SingleDefinition

set_option autoImplicit false

namespace Flowsheet

variable {N : Type}

namespace Step

/-- The assignment that stands for a step in the generated class. -/
def assignment? : Step N → Option (Statement N)
  | .demand d => some (d.toOperation.assignment MetaProcess.isPrivate)
  | .output _ _ o => some (o.assignment fun a => a.kind = .outputs)
  | .closing o => some (o.assignment MetaProcess.isPrivate)
  | .constant _ | .outcome _ _ | .preset _ _ => none

def process? : Step N → Option String
  | .demand d => some d.used
  | .output id _ _ => some id
  | .constant _ | .outcome _ _ | .preset _ _ | .closing _ => none

end Step

namespace Statement

def assigned? : Statement N → Option String
  | .assign x _ => some x
  | .preset _ _ | .call _ _ => none

def isCall : Statement N → Bool
  | .call _ _ => true
  | .assign _ _ | .preset _ _ => false

-- The assignments of statements in which the calls are those of some processes, in this order: a call stands
-- for the body of the method of its process, and own values are left out.
def inlined : List (Process N) → List (Statement N) → List (Statement N)
  | _, [] => []
  | ps, .assign x e :: rest => .assign x e :: inlined ps rest
  | ps, .preset _ _ :: rest => inlined ps rest
  | p :: ps, .call _ _ :: rest => p.statements ++ inlined ps rest
  | [], .call _ _ :: rest => inlined [] rest

end Statement

namespace Industry

def applied (m : MetaProcess N) (ps : List (String × Process N)) (outcome : N) : List (Step N) :=
  (steps m ps outcome).filter (·.operation?.isSome)

section Applied

variable (m : MetaProcess N) (ps : List (String × Process N)) (outcome : N)

def computedIn (m : MetaProcess N) (q : String × Process N) : List (Step N) :=
  (m.demandsFor q.1).map .demand ++ q.2.operations.map (.output q.1 q.2)

theorem applied_eq : applied m ps outcome = ps.flatMap (computedIn m) ++ m.closing.map .closing := by
  have kept (xs : List (Step N)) (computes : ∀ s ∈ xs, s.operation?.isSome) :
      xs.filter (·.operation?.isSome) = xs := List.filter_eq_self.mpr computes
  have dropped (xs : List (Step N)) (idle : ∀ s ∈ xs, s.operation? = none) :
      xs.filter (·.operation?.isSome) = [] :=
    List.filter_eq_nil_iff.mpr fun s inside => by simp [idle s inside]
  have blocks (q : String × Process N) : (block m q).filter (·.operation?.isSome) = computedIn m q := by
    rw [block, List.filter_append, List.filter_append, kept _ (by simp [Step.operation?]),
      dropped _ (by simp [Step.operation?]), kept _ (by simp [Step.operation?]), List.append_nil, computedIn]
  have declared : ∀ s ∈ declarations m ps outcome, s.operation? = none := by
    simp only [declarations, List.mem_append, List.mem_map, List.mem_flatMap, List.mem_singleton]
    rintro s ((⟨_, -, rfl⟩ | ⟨_, -, _, -, rfl⟩) | rfl)
    all_goals rfl
  rw [applied, steps, List.filter_append, List.filter_append, List.filter_flatMap,
    dropped _ declared, kept _ (by simp [Step.operation?]), List.nil_append]
  simp only [blocks]

theorem inlined_assignments (isPrivate : Arg → Bool) (qs : List (Process N)) (os : List (Operation N))
    (rest : List (Statement N)) :
    Statement.inlined qs (os.map (·.assignment isPrivate) ++ rest) =
      os.map (·.assignment isPrivate) ++ Statement.inlined qs rest := by
  induction os with
  | nil => rfl
  | cons o os ih =>
    rw [List.map_cons, List.cons_append, List.cons_append, ← ih]
    rfl

theorem inlined_presets (qs : List (Process N)) (new : Values N) (rest : List (Statement N)) :
    Statement.inlined qs ((new.map fun (x, v) => .preset x v) ++ rest) = Statement.inlined qs rest := by
  induction new with
  | nil => rfl
  | cons entry new ih => exact ih

theorem inlined_block (q : String × Process N) (qs : List (Process N)) (rest : List (Statement N)) :
    Statement.inlined (q.2 :: qs)
        (m.opening q.1 ++ q.2.presets ((m.demandsFor q.1).map (·.name)) ++ [q.2.call] ++ rest) =
      (computedIn m q).filterMap Step.assignment? ++ Statement.inlined qs rest := by
  have computed : (computedIn m q).filterMap Step.assignment? = m.opening q.1 ++ q.2.statements := by
    rw [computedIn, List.filterMap_append, List.filterMap_map, List.filterMap_map]
    simp [Function.comp_def, Step.assignment?, MetaProcess.opening, Process.statements]
  rw [computed, MetaProcess.opening_eq, Process.presets_eq, List.append_assoc, List.append_assoc,
    inlined_assignments, inlined_presets, List.append_assoc]
  rfl

theorem inlined_constructor :
    Statement.inlined (ps.map (·.2)) (constructor m ps) =
      (applied m ps outcome).filterMap Step.assignment? := by
  have last : (m.closing.map Step.closing).filterMap Step.assignment? = m.ending := by
    simp [List.filterMap_map, Function.comp_def, Step.assignment?, MetaProcess.ending]
  rw [applied_eq, constructor, List.filterMap_append, last]
  induction ps with
  | nil =>
    have ended := inlined_assignments MetaProcess.isPrivate [] m.closing []
    rwa [List.append_nil, Statement.inlined, List.append_nil] at ended
  | cons q ps ih =>
    rw [List.flatMap_cons, List.flatMap_cons, List.filterMap_append, List.append_assoc _ _ m.ending,
      List.append_assoc _ _ m.ending, List.map_cons, inlined_block, ih]

theorem calls_constructor : (constructor m ps).filter (·.isCall) = ps.map (·.2.call) := by
  have assignments (isPrivate : Arg → Bool) (os : List (Operation N)) :
      (os.map (·.assignment isPrivate)).filter (·.isCall) = [] := by
    simp [List.filter_eq_nil_iff, Operation.assignment, Statement.isCall]
  have presets (new : Values N) : (new.map fun (x, v) => Statement.preset x v).filter (·.isCall) = [] := by
    simp only [List.filter_eq_nil_iff, List.mem_map]
    rintro _ ⟨entry, -, rfl⟩
    simp [Statement.isCall]
  rw [constructor, List.filter_append, MetaProcess.ending, assignments, List.append_nil, List.filter_flatMap]
  simp only [List.filter_append, MetaProcess.opening_eq, Process.presets_eq, assignments, presets,
    List.nil_append]
  rw [List.map_eq_flatMap]
  rfl

variable {m ps outcome}

theorem process?_computedIn {q : String × Process N} {s : Step N} (inside : s ∈ computedIn m q) :
    s.process? = some q.1 := by
  simp only [computedIn, List.mem_append, List.mem_map] at inside
  rcases inside with ⟨d, demanded, rfl⟩ | ⟨o, -, rfl⟩
  · have used := (List.mem_filter.mp demanded).2
    simpa [Step.process?] using used
  · rfl

theorem names_assigned (ss : List (Step N)) (computes : ∀ s ∈ ss, s.operation?.isSome) :
    (ss.filterMap Step.assignment?).filterMap Statement.assigned? = ss.map (·.name) := by
  rw [List.filterMap_filterMap, ← List.filterMap_eq_map]
  refine List.filterMap_congr fun s inside => ?_
  cases s with
  | demand | output | closing => rfl
  | constant | outcome | preset => cases computes _ inside

theorem name_exposed_applied (outcome : N) (used : ∀ d ∈ m.demands, ∃ q ∈ ps, q.1 = d.used) {l : Labels}
    (exposes : l ∈ exposed m ps) :
    l.name = m.outcome.name ∨ l.name ∈ (applied m ps outcome).map (·.name) := by
  have computed := exposed_computed used l exposes
  rw [List.mem_append, mem_computedBy, List.mem_singleton] at computed
  simp only [applied_eq, List.map_append, List.mem_append, List.map_flatMap, List.mem_flatMap, List.map_map,
    computedIn]
  rcases computed with closes | same | ⟨q, inside, output | demanded⟩
  · exact .inr (.inr closes)
  · exact .inl same
  · exact .inr (.inl ⟨q, inside, .inr output⟩)
  · exact .inr (.inl ⟨q, inside, .inl demanded⟩)

end Applied

section Once

variable [Quantity N] {i : Industry N} {m : MetaProcess N} {queue : List String} {outcome : N}

theorem nodup_applied (built : Built i) (set : i.metaProcess = some m)
    (ordered : i.executionQueue = .ok queue) : (applied m (i.queued queue) outcome).Nodup := by
  have distinct : m.Distinct :=
    built.forall_meta (fun compiled => (IndustryRecord.names_of_compile compiled).2.2) m set
  have outputs := built.forall_process Process.nodup_of_compile
  rw [applied_eq]
  refine List.nodup_append.mpr ⟨List.nodup_flatMap.mpr ⟨fun q inside => ?_, ?_⟩, ?_, ?_⟩
  · have demands := (distinct.demands.of_map _).filter fun d => d.used == q.1
    have operations := (outputs q (mem_processes_of_process? (mem_queued.mp inside).2)).of_map _
    refine List.nodup_append.mpr ⟨demands.map fun _ _ => Step.demand.inj,
      operations.map fun _ _ same => (Step.output.inj same).2.2, ?_⟩
    rintro s demanded t computed rfl
    obtain ⟨d, -, rfl⟩ := List.mem_map.mp demanded
    simp at computed
  · -- no step belongs to two processes
    refine (List.pairwise_map.mp (built.nodup_queued ordered)).imp fun {q r} differ s here there => ?_
    exact differ (Option.some.inj ((process?_computedIn here).symm.trans (process?_computedIn there)))
  · exact (distinct.closing.of_map _).map fun _ _ => Step.closing.inj
  · rintro s inside t closes rfl
    obtain ⟨q, -, here⟩ := List.mem_flatMap.mp inside
    obtain ⟨o, -, rfl⟩ := List.mem_map.mp closes
    cases process?_computedIn here

theorem mem_applied (built : Built i) (set : i.metaProcess = some m) (checked : i.check = .ok ())
    (ordered : i.executionQueue = .ok queue) {s : Step N} :
    s ∈ applied m (i.queued queue) outcome ↔ s ∈ i.items m := by
  constructor
  · intro inside
    simp only [applied_eq, computedIn, List.mem_append, List.mem_flatMap, List.mem_map] at inside
    simp only [items, List.mem_append, List.mem_flatMap, List.mem_map]
    rcases inside with ⟨q, queued, ⟨d, demanded, rfl⟩ | ⟨o, operation, rfl⟩⟩ | ⟨o, closing, rfl⟩
    · exact .inl (.inl ⟨d, (List.mem_filter.mp demanded).1, rfl⟩)
    · exact .inl (.inr ⟨q, mem_processes_of_process? (mem_queued.mp queued).2, o, operation, rfl⟩)
    · exact .inr ⟨o, closing, rfl⟩
  · intro item
    have used : ∀ d, s = .demand d → d.used ∈ i.ids := by
      rintro d rfl
      have demanded : d ∈ m.demands := by simpa [items] using item
      exact isSome_process?_iff.mp (process_of_checkDemand ((check_eq_ok set checked).2.1 d demanded))
    refine List.mem_filter.mpr ⟨mem_steps_of_mem_items built.ids_nodup (executionQueue_eq_ok ordered).2
      outcome item used, ?_⟩
    simp only [items, List.mem_append, List.mem_flatMap, List.mem_map] at item
    rcases item with (⟨d, -, rfl⟩ | ⟨q, -, o, -, rfl⟩) | ⟨o, -, rfl⟩
    all_goals rfl

theorem ran_of_evaluate {values : Values N} (set : i.metaProcess = some m)
    (ordered : i.executionQueue = .ok queue) (evaluated : i.evaluate outcome = .ok values) :
    (steps m (i.queued queue) outcome).foldlM (Step.run m) [] = .ok values := by
  rw [evaluate_eq_foldlM set ordered] at evaluated
  split at evaluated
  · cases evaluated
  · exact evaluated

end Once

section Text

variable [Quantity N] {m : MetaProcess N} {ps : List (String × Process N)}

theorem assigned_in_text (numbers : Script.NumbersOnLine N) (spelled : Script.Spelled m ps) (formed : m.WellFormed)
    (compiled : ∀ q ∈ ps, q.2.WellFormed) (used : ∀ d ∈ m.demands, ∃ q ∈ ps, q.1 = d.used) {l : Labels}
    (exposes : l ∈ exposed m ps) :
    l.name = m.outcome.name ∨ l.name ∈ Script.assignedNames (Statement.body (constructor m ps)) ∨
      ∃ q ∈ ps, l.name ∈ Script.assignedNames (Statement.body q.2.statements) := by
  have inConstructor {s : Statement N} (inside : s ∈ constructor m ps) (target : (Script.Line.of s).target? = some l.name) :=
    Script.mem_assignedNames numbers (spelled.isNamed_constructor formed) inside target
  have computed := exposed_computed used l exposes
  rw [List.mem_append, mem_computedBy, List.mem_singleton] at computed
  rcases computed with closes | same | ⟨q, inside, output | demanded⟩
  · obtain ⟨o, member, named⟩ := List.mem_map.mp closes
    have last : o.assignment MetaProcess.isPrivate ∈ constructor m ps :=
      List.mem_append_right _ (List.mem_map_of_mem member)
    exact .inr (.inl (inConstructor last (congrArg some named)))
  · exact .inl same
  · obtain ⟨o, member, named⟩ := List.mem_map.mp output
    exact .inr (.inr ⟨q, inside, Script.mem_assignedNames numbers
      (spelled.isNamed_method inside (compiled q inside)) (List.mem_map_of_mem member) (congrArg some named)⟩)
  · obtain ⟨d, member, named⟩ := List.mem_map.mp demanded
    have first : d.toOperation.assignment MetaProcess.isPrivate ∈ constructor m ps := by
      refine List.mem_append_left _ (List.mem_flatMap.mpr ⟨q, inside, ?_⟩)
      exact List.mem_append_left _ (List.mem_append_left _ (List.mem_map_of_mem (f := fun d : Requirement N =>
        d.toOperation.assignment MetaProcess.isPrivate) member))
    exact .inr (.inl (inConstructor first (congrArg some named)))

end Text

/-- A constructor that takes the steps of an evaluation, and whose text says so line by line. -/
structure Follows [Quantity N] (i : Industry N) (m : MetaProcess N) (ps : List (String × Process N))
    (outcome : N) (values : Values N) : Prop where
  ran : (steps m ps outcome).foldlM (Step.run m) [] = .ok values
  calls : (constructor m ps).filter (·.isCall) = ps.map (·.2.call)
  assignments : Statement.inlined (ps.map (·.2)) (constructor m ps) =
    (applied m ps outcome).filterMap Step.assignment?
  names : (Statement.inlined (ps.map (·.2)) (constructor m ps)).filterMap Statement.assigned? =
    (applied m ps outcome).map (·.name)
  once : (applied m ps outcome).Nodup
  items : ∀ s, s ∈ applied m ps outcome ↔ s ∈ i.items m
  outputs : ∀ q ∈ i.processes, q.2.operations.map (·.name) = q.2.outputs.map (·.name)
  declared : ∃ r : IndustryRecord N, r.compile = .ok m ∧
    m.demands.map (·.name) = r.demands.map (·.name) ∧
      m.closing.map (·.name) = r.metaDemands.map (·.name) ++ r.outputs.map (·.name)
  exposed : ∀ l, l ∈ getters m ps ∨ l ∈ unitEntries m ps →
    (l.name = m.outcome.name ∨ l.name ∈ (applied m ps outcome).map (·.name)) ∧
      (values.get? l.name).isSome
  text : Script.NumbersOnLine N → Script.Spelled m ps →
    Script.readLines (Statement.body (constructor m ps)) = some ((constructor m ps).map .of) ∧
      (∀ q ∈ ps, Script.readLines (Statement.body q.2.statements) = some (q.2.statements.map .of)) ∧
        ∀ l, l ∈ getters m ps ∨ l ∈ unitEntries m ps → l.name = m.outcome.name ∨
          l.name ∈ Script.assignedNames (Statement.body (constructor m ps)) ∨
            ∃ q ∈ ps, l.name ∈ Script.assignedNames (Statement.body q.2.statements)
  script : ∀ ts answers text, i.script ts answers = .ok text →
    ∃ filled, Rendered ts answers m ps filled ∧ ts.industry.fill answers ["industry"] filled = .ok text

theorem constructor_follows_evaluation [Quantity N] {i : Industry N} {m : MetaProcess N}
    {queue : List String} {outcome : N} {values : Values N} (built : Built i) (set : i.metaProcess = some m)
    (checked : i.check = .ok ()) (ordered : i.executionQueue = .ok queue)
    (evaluated : i.evaluate outcome = .ok values) : Follows i m (i.queued queue) outcome values := by
  have ran := ran_of_evaluate set ordered evaluated
  have documented : ∀ m ∈ i.metaProcess, ∃ r : IndustryRecord N, r.compile = .ok m :=
    built.forall_meta fun compiled => ⟨_, compiled⟩
  obtain ⟨r, compiled⟩ := documented m set
  obtain ⟨demands, closing, -⟩ := IndustryRecord.names_of_compile compiled
  have formed := built.wellFormed
  have compiledAll : ∀ q ∈ i.queued queue, q.2.WellFormed := fun q inside =>
    formed.processes q (mem_processes_of_process? (mem_queued.mp inside).2)
  refine ⟨ran, calls_constructor _ _, inlined_constructor _ _ _, ?_, nodup_applied built set ordered,
    fun s => mem_applied built set checked ordered, built.forall_process Process.names_of_compile,
    ⟨r, compiled, demands, closing⟩, fun l shown => ?_, fun numbers spelled => ⟨?_, fun q inside => ?_, fun l shown => ?_⟩,
    fun ts answers text => script_eq_ok set ordered⟩
  · rw [inlined_constructor]
    exact names_assigned _ fun s inside => (List.mem_filter.mp inside).2
  · have named := name_exposed_applied outcome (used_of_check set checked ordered)
      (mem_exposed_of_shown _ _ shown)
    refine ⟨named, ?_⟩
    rcases named with same | assigned
    · have known : (Step.outcome m.outcome.name outcome).Defines l.name := same.symm
      exact known.isSome_foldlM (by simp [steps, declarations]) ran
    · obtain ⟨s, inside, same⟩ := List.mem_map.mp assigned
      obtain ⟨member, computes⟩ := List.mem_filter.mp inside
      have known : s.Defines l.name := by
        cases s with
        | preset => cases computes
        | _ => exact same
      exact known.isSome_foldlM member ran
  · exact Script.readLines_body numbers (spelled.isNamed_constructor (formed.metaProcess m set))
  · exact Script.readLines_body numbers (spelled.isNamed_method inside (compiledAll q inside))
  · exact assigned_in_text numbers spelled (formed.metaProcess m set) compiledAll
      (used_of_check set checked ordered) (mem_exposed_of_shown _ _ shown)

theorem constructor_follows_works : ∃ values, millAndKiln.evaluate 10 = .ok values ∧
    Follows millAndKiln works (millAndKiln.queued ["mill", "kiln"]) 10 values ∧
      (applied works (millAndKiln.queued ["mill", "kiln"]) 10).map (·.name) =
        ["meal", "fuel", "heat", "share", "total"] ∧
        Script.readLines (Statement.body (constructor works (millAndKiln.queued ["mill", "kiln"]))) =
          some ((constructor works (millAndKiln.queued ["mill", "kiln"])).map .of) := by
  have evaluated : millAndKiln.evaluate 10 = .ok [("total", 27), ("share", 3), ("heat", 30), ("fuel", 20),
    ("meal", 10), ("ore", 3), ("goal", 10), ("loss", 4), ("rate", 2)] := by with_unfolding_all rfl
  have checked : millAndKiln.check = .ok () := by with_unfolding_all rfl
  have ordered : millAndKiln.executionQueue = .ok ["mill", "kiln"] := by with_unfolding_all rfl
  have follows := constructor_follows_evaluation built_millAndKiln rfl checked ordered evaluated
  have spelled : Script.Spelled works (millAndKiln.queued ["mill", "kiln"]) := by decide +kernel
  refine ⟨_, evaluated, follows, ?_, (follows.text Script.numbersOnLine_rat spelled).1⟩
  rw [queued_millAndKiln]
  rfl

end Industry

end Flowsheet
