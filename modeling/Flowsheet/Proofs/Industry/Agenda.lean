import Flowsheet.Proofs.Industry.Order

set_option autoImplicit false

namespace Flowsheet

namespace Edge

def parents (edges : List Edge) (id : String) : List String :=
  (edges.filter (·.target == id)).map (·.source)

def children (edges : List Edge) (id : String) : List String :=
  (edges.filter (·.source == id)).map (·.target)

theorem mem_parents {edges : List Edge} {x y : String} : x ∈ parents edges y ↔ Joins edges x y := by
  simp only [parents, Joins, List.mem_map, List.mem_filter, beq_iff_eq]
  constructor
  · rintro ⟨⟨x, y⟩, ⟨edge, rfl⟩, rfl⟩
    exact edge
  · exact fun edge => ⟨_, ⟨edge, rfl⟩, rfl⟩

theorem count_children (edges : List Edge) (x y : String) :
    (children edges x).count y = (parents edges y).count x := by
  simp only [children, parents, List.count, List.countP_map, List.countP_filter]
  apply List.countP_congr
  intro e _
  simp only [Function.comp_apply, Bool.and_eq_true, beq_iff_eq]
  exact and_comm

end Edge

-- What is left to order: the count of open dependencies of every process, and the processes that wait for
-- none.
@[ext] structure Agenda where
  waiting : List (String × Nat)
  ready : List String
deriving DecidableEq, Repr

namespace Agenda

def start (edges : List Edge) (ids : List String) : Agenda where
  waiting := ids.map fun id => (id, (Edge.parents edges id).length)
  ready := ids.filter fun id => (Edge.parents edges id).isEmpty

def release (a : Agenda) (id : String) : Agenda where
  waiting := a.waiting.map fun w => (w.1, if w.1 = id then w.2 - 1 else w.2)
  ready := if a.waiting.lookup id = some 1 then a.ready ++ [id] else a.ready

def sorted (ids : List String) (a : Agenda) : Agenda :=
  { a with ready := a.ready.mergeSort fun x y => ids.idxOf x ≤ ids.idxOf y }

def advance (ids dependents rest : List String) (a : Agenda) : Agenda :=
  (dependents.foldl release { a with ready := rest }).sorted ids

def load (a : Agenda) : Nat := a.ready.length + a.waiting.countP (0 < ·.2)

theorem load_release_le (a : Agenda) (id : String) : (a.release id).load ≤ a.load := by
  have fewer (ws : List (String × Nat)) :
      (ws.map fun w => (w.1, if w.1 = id then w.2 - 1 else w.2)).countP (0 < ·.2) ≤
        ws.countP (0 < ·.2) := by
    rw [List.countP_map]
    apply List.countP_mono_left
    intro w _
    simp only [Function.comp_apply, decide_eq_true_eq]
    split <;> omega
  simp only [load, release]
  split
  next last =>
    -- the count that comes to zero makes room for the process that gets ready
    obtain ⟨before, after, split, -⟩ := List.lookup_eq_some_iff.mp last
    have first := fewer before
    have later := fewer after
    simp only [split, List.map_append, List.map_cons, List.countP_append, List.countP_cons, if_true,
      List.length_append, List.length_cons, List.length_nil]
    simp only [Nat.sub_self, Nat.lt_irrefl, decide_false, Bool.false_eq_true, if_false,
      Nat.zero_lt_one, decide_true, if_true]
    omega
  next => exact Nat.add_le_add_left (fewer a.waiting) _

theorem load_advance_lt {ids dependents rest : List String} {a : Agenda} {id : String}
    (first : a.ready = id :: rest) : (a.advance ids dependents rest).load < a.load := by
  have released (b : Agenda) : (dependents.foldl release b).load ≤ b.load := by
    induction dependents generalizing b with
    | nil => exact Nat.le_refl _
    | cons d ds ih => exact (ih (b.release d)).trans (b.load_release_le d)
  have sorts (b : Agenda) : (b.sorted ids).load = b.load := by
    simp [sorted, load, List.length_mergeSort]
  have shorter : ({ a with ready := rest } : Agenda).load < a.load := by
    simp [load, first]
  rw [advance, sorts]
  exact Nat.lt_of_le_of_lt (released _) shorter

def drain (ids : List String) (dependents : String → List String) (a : Agenda) : List String :=
  match _first : a.ready with
  | [] => []
  | id :: rest => id :: drain ids dependents (a.advance ids (dependents id) rest)
termination_by a.load
decreasing_by exact load_advance_lt _first

theorem lookup_counts {ids : List String} {count : String → Nat} {id : String} {n : Nat} :
    (ids.map fun x => (x, count x)).lookup id = some n ↔ id ∈ ids ∧ count id = n := by
  induction ids with
  | nil => simp
  | cons x ids ih =>
    by_cases same : id = x
    · simp [same]
    · have differ : (id == x) = false := by simpa using same
      simp [List.lookup_cons, differ, same, ih]

structure Counts (ids : List String) (count : String → Nat) (a : Agenda) : Prop where
  waiting : a.waiting = ids.map fun x => (x, count x)
  idle : ∀ x ∈ a.ready, count x = 0
  distinct : a.ready.Nodup

variable {ids : List String} {count : String → Nat} {a : Agenda}

theorem Counts.mem_release (counts : Counts ids count a) (c x : String) :
    x ∈ (a.release c).ready ↔ x ∈ a.ready ∨ (x = c ∧ c ∈ ids ∧ count c = 1) := by
  simp only [release, counts.waiting, lookup_counts]
  split
  next last => simp [last]
  next other => simp [other]

theorem Counts.release (counts : Counts ids count a) (c : String) :
    Counts ids (fun x => if x = c then count x - 1 else count x) (a.release c) := by
  constructor
  · simp only [Agenda.release, counts.waiting, List.map_map]
    rfl
  · intro x member
    rcases (counts.mem_release c x).mp member with old | ⟨rfl, -, last⟩
    · have zero := counts.idle x old
      split <;> omega
    · simp [last]
  · simp only [Agenda.release, counts.waiting, lookup_counts]
    split
    next last =>
      have unready : c ∉ a.ready := fun inside => by
        have zero := counts.idle c inside
        omega
      refine List.nodup_append.mpr ⟨counts.distinct, by simp, ?_⟩
      rintro x old y new rfl
      exact unready (List.mem_singleton.mp new ▸ old)
    next => exact counts.distinct

theorem Counts.releases (counts : Counts ids count a) (cs : List String) :
    Counts ids (fun x => count x - cs.count x) (cs.foldl Agenda.release a) ∧
      ∀ x, x ∈ (cs.foldl Agenda.release a).ready ↔
        x ∈ a.ready ∨ (x ∈ ids ∧ 0 < count x ∧ count x ≤ cs.count x) := by
  induction cs generalizing a count with
  | nil =>
    refine ⟨by simpa using counts, fun x => ⟨.inl, ?_⟩⟩
    rintro (inside | ⟨-, positive, none⟩)
    · exact inside
    · rw [List.count_nil] at none
      omega
  | cons c cs ih =>
    obtain ⟨final, members⟩ := ih (counts.release c)
    have total (x : String) : (c :: cs).count x = cs.count x + if x = c then 1 else 0 := by
      by_cases same : x = c
      · simp [same]
      · simp [same, Ne.symm same]
    rw [List.foldl_cons]
    constructor
    · convert final using 2 with x
      rw [total]
      split <;> omega
    · intro x
      rw [members, counts.mem_release, total]
      -- A process is released by `c` or later, when the last of its dependencies is counted.
      by_cases same : x = c
      · subst same
        simp only [if_true, true_and]
        constructor
        · rintro ((old | ⟨known, one⟩) | ⟨known, positive, enough⟩)
          · exact .inl old
          · exact .inr ⟨known, by omega, by omega⟩
          · exact .inr ⟨known, by omega, by omega⟩
        · rintro (old | ⟨known, positive, enough⟩)
          · exact .inl (.inl old)
          · by_cases one : count x = 1
            · exact .inl (.inr ⟨known, one⟩)
            · exact .inr ⟨known, by omega, by omega⟩
      · simp [same]

def after (edges : List Edge) (ids done : List String) : Agenda where
  waiting := ids.map fun id => (id, (Edge.parents edges id).countP fun d => !done.contains d)
  ready := ids.filter (Industry.runnable (Edge.parents edges) done)

variable {edges : List Edge} {done rest cs : List String} {id : String}

theorem start_eq (edges : List Edge) (ids : List String) : start edges ids = after edges ids [] := by
  have fresh (id : String) : Industry.runnable (Edge.parents edges) [] id =
      (Edge.parents edges id).isEmpty := by
    rw [Bool.eq_iff_iff, Industry.runnable_iff, List.isEmpty_iff, List.eq_nil_iff_forall_not_mem]
    simp
  simp only [start, after, List.contains_nil, Bool.not_false, List.countP_true]
  congr 2
  funext id
  exact (fresh id).symm

theorem countP_open_eq_zero (done : List String) (ds : List String) :
    ds.countP (fun d => !done.contains d) = 0 ↔ ∀ d ∈ ds, d ∈ done := by
  simp [List.countP_eq_zero]

theorem countP_open_cons (fresh : id ∉ done) (ds : List String) :
    ds.countP (fun d => !(id :: done).contains d) =
      ds.countP (fun d => !done.contains d) - ds.count id := by
  induction ds with
  | nil => rfl
  | cons d ds ih =>
    have le : ds.count id ≤ ds.countP fun d => !done.contains d := by
      apply List.countP_mono_left
      intro x _ same
      rw [beq_iff_eq.mp same]
      simpa using fresh
    simp only [List.contains_cons] at ih ⊢
    rw [List.countP_cons, List.countP_cons, List.count_cons, ih]
    by_cases same : d = id
    · subst same
      have absent : done.contains d = false := by simpa using fresh
      simp only [absent, beq_self_eq_true, Bool.true_or, Bool.not_true, Bool.not_false,
        Bool.false_eq_true, if_false, if_true]
      omega
    · have differ : (d == id) = false := by simpa using same
      simp only [differ, Bool.false_or, Bool.false_eq_true, if_false]
      split <;> omega

theorem counts_after (distinct : ids.Nodup) : Counts ids
    (fun x => (Edge.parents edges x).countP fun d => !done.contains d) (after edges ids done) := by
  refine ⟨rfl, fun x member => ?_, distinct.filter _⟩
  rw [countP_open_eq_zero]
  exact (Industry.runnable_iff.mp (List.mem_filter.mp member).2).2

theorem mem_rest (distinct : ids.Nodup) (first : (after edges ids done).ready = id :: rest)
    (x : String) : x ∈ rest ↔ x ∈ ids ∧ x ∉ id :: done ∧
      (Edge.parents edges x).countP (fun d => !done.contains d) = 0 := by
  have once : (id :: rest).Nodup := first ▸ distinct.filter _
  have members : x ∈ id :: rest ↔ x ∈ ids ∧ x ∉ done ∧ ∀ d ∈ Edge.parents edges x, d ∈ done := by
    rw [← first, after, List.mem_filter, Industry.runnable_iff]
  rw [countP_open_eq_zero]
  by_cases same : x = id
  · subst same
    simp [(List.nodup_cons.mp once).1]
  · simpa [same] using members

theorem advance_after (distinct : ids.Nodup) (closed : ∀ x ∈ done, ∀ d ∈ Edge.parents edges x, d ∈ done)
    (first : (after edges ids done).ready = id :: rest) (dependents : cs.Perm (Edge.children edges id)) :
    (after edges ids done).advance ids cs rest = after edges ids (id :: done) := by
  have member : id ∈ ids.filter (Industry.runnable (Edge.parents edges) done) := by
    rw [show ids.filter _ = id :: rest from first]
    simp
  obtain ⟨fresh, satisfied⟩ := Industry.runnable_iff.mp (List.mem_filter.mp member).2
  have start : Counts ids (fun x => (Edge.parents edges x).countP fun d => !done.contains d)
      { after edges ids done with ready := rest } := by
    have counts : Counts ids _ (after edges ids done) := counts_after distinct
    refine ⟨counts.waiting, fun x inside => counts.idle x ?_, ?_⟩
    · rw [first]
      exact List.mem_cons_of_mem _ inside
    · exact (List.nodup_cons.mp (first ▸ counts.distinct)).2
  obtain ⟨final, members⟩ := start.releases cs
  -- Counting down takes one from a process for each time that it depends on `id`.
  have left (x : String) : (Edge.parents edges x).countP (fun d => !done.contains d) - cs.count x =
      (Edge.parents edges x).countP fun d => !(id :: done).contains d := by
    rw [countP_open_cons fresh, dependents.count_eq, Edge.count_children]
  have same (x : String) : x ∈ (cs.foldl release { after edges ids done with ready := rest }).ready ↔
      x ∈ ids.filter (Industry.runnable (Edge.parents edges) (id :: done)) := by
    rw [members, mem_rest distinct first, List.mem_filter, Industry.runnable_iff,
      ← countP_open_eq_zero, ← left x]
    constructor
    · rintro (⟨known, fresh, none⟩ | ⟨known, positive, enough⟩)
      · exact ⟨known, fresh, by omega⟩
      · -- what waits for a process neither has run nor runs now
        refine ⟨known, fun ran => ?_, by omega⟩
        have none : (Edge.parents edges x).countP (fun d => !done.contains d) = 0 := by
          rw [countP_open_eq_zero]
          rcases List.mem_cons.mp ran with rfl | ran
          · exact satisfied
          · exact closed x ran
        omega
    · rintro ⟨known, fresh, none⟩
      by_cases idle : (Edge.parents edges x).countP (fun d => !done.contains d) = 0
      · exact .inl ⟨known, fresh, idle⟩
      · exact .inr ⟨known, by omega, by omega⟩
  have ready := Industry.mergeSort_idxOf_eq distinct final.distinct same
  have waiting := final.waiting
  simp only [left] at waiting
  rw [advance, after]
  exact Agenda.ext waiting ready

theorem greedy_drain (distinct : ids.Nodup) {dependents : String → List String}
    (visits : ∀ id, (dependents id).Perm (Edge.children edges id))
    (closed : ∀ x ∈ done, ∀ d ∈ Edge.parents edges x, d ∈ done) :
    Industry.Greedy (Edge.parents edges) ids done (drain ids dependents (after edges ids done)) := by
  generalize here : after edges ids done = a
  fun_induction drain ids dependents a generalizing done with
  | case1 a none =>
    refine .stop (List.find?_eq_none.mpr fun x member => ?_)
    exact List.filter_eq_nil_iff.mp (here ▸ none : (after edges ids done).ready = []) x member
  | case2 a id rest first ih =>
    subst here
    have found : ids.find? (Industry.runnable (Edge.parents edges) done) = some id := by
      rw [← List.head?_filter]
      exact congrArg List.head? first
    have ready := (Industry.runnable_iff.mp (List.find?_some found)).2
    refine .take found (ih ?_ (advance_after distinct closed first (visits id)).symm)
    intro x ran d parent
    rcases List.mem_cons.mp ran with rfl | ran
    · exact List.mem_cons_of_mem _ (ready d parent)
    · exact List.mem_cons_of_mem _ (closed x ran d parent)

end Agenda

namespace Industry

variable {N : Type} {i : Industry N}

def executionQueueBy (visit : String → List String → List String) (i : Industry N) :
    Except GraphFault (List String) := do
  let edges ← i.graph
  if i.ids.contains "" then throw .blankId
  let queue := (Agenda.start edges i.ids).drain i.ids fun id => visit id (Edge.children edges id)
  if queue.length ≠ i.ids.length then
    throw (.unordered (i.ids.length - queue.length) i.ids.length)
  return queue

theorem drain_eq_schedule {visit : String → List String → List String}
    (visits : ∀ id children, (visit id children).Perm children) (distinct : i.ids.Nodup) :
    ((Agenda.start i.wishedEdges i.ids).drain i.ids fun id => visit id (Edge.children i.wishedEdges id)) =
      schedule i.dependencies [] i.ids := by
  have counted := Agenda.greedy_drain distinct (fun id => visits id (Edge.children i.wishedEdges id))
    (fun x ran => absurd ran List.not_mem_nil)
  rw [← Agenda.start_eq] at counted
  refine (greedy_queue distinct).unique (counted.congr fun id d => ?_)
  rw [Edge.mem_parents, joins_wishedEdges distinct, DependsOn]

theorem executionQueueBy_eq {visit : String → List String → List String}
    (visits : ∀ id children, (visit id children).Perm children) (distinct : i.ids.Nodup) :
    i.executionQueueBy visit = i.executionQueue := by
  rw [executionQueueBy, executionQueue]
  cases drawn : i.graph with
  | error fault => rfl
  | ok edges =>
    obtain ⟨rfl, -⟩ := graph_eq_ok.mp drawn
    simp only [bind, Except.bind, drain_eq_schedule visits distinct]

theorem executionQueue_earliest_order [Quantity N] (built : Built i) (named : "" ∉ i.ids) :
    ((∃ queue, i.executionQueue = .ok queue) ↔ i.Orderable) ∧
      (∀ queue, i.executionQueue = .ok queue →
        queue.Perm i.ids ∧ i.DependenciesFirst queue ∧
          (∀ other, Greedy i.dependencies i.ids [] other ↔ other = queue) ∧
            ∀ other, other.Perm i.ids → i.DependenciesFirst other →
              other = queue ∨ PartsEarlier i.ids queue other) ∧
        (∀ visit : String → List String → List String,
          (∀ id children, (visit id children).Perm children) →
            i.executionQueueBy visit = i.executionQueue) ∧
          ∀ left total, i.executionQueue ≠ .error (.unordered left total) := by
  have distinct := built.ids_nodup
  have greedy := greedy_queue distinct
  rw [executionQueue_eq_map distinct named]
  refine ⟨?_, fun queue ordered => ?_, fun visit visits => ?_, fun left total => ?_⟩
  · constructor
    · rintro ⟨queue, ordered⟩
      obtain ⟨edges, drawn, -⟩ := map_eq_ok.mp ordered
      exact ((graph_eq_ok_iff_orderable distinct named).mp drawn).2
    · intro orderable
      have drawn := (graph_eq_ok_iff_orderable distinct named).mpr ⟨rfl, orderable⟩
      exact ⟨_, map_eq_ok.mpr ⟨_, drawn, rfl⟩⟩
  · obtain ⟨edges, drawn, rfl⟩ := map_eq_ok.mp ordered
    have orderable := ((graph_eq_ok_iff_orderable distinct named).mp drawn).2
    have complete := greedy.perm distinct orderable
    refine ⟨complete, greedy.dependenciesFirst, fun other => ?_, fun other => ?_⟩
    · exact ⟨greedy.unique, fun same => same ▸ greedy⟩
    · exact greedy.least distinct complete
  · rw [executionQueueBy_eq visits distinct, executionQueue_eq_map distinct named]
  · intro failed
    cases drawn : i.graph with
    | error fault =>
      rw [drawn] at failed
      cases failed
      exact graph_ne_unordered i left total drawn
    | ok edges =>
      rw [drawn] at failed
      cases failed

def stage (sources : List String) : Process ℚ where
  inputs := sources.map fun s => { name := s, origin := s }
  operations := []

theorem executionQueue_earliest_order_stages :
    let i : Industry ℚ := { defaultBounds := (0, 100), processes :=
      [("c", stage ["a", "d"]), ("b", stage []), ("d", stage ["b"]), ("a", stage [])] }
    i.Orderable ∧ i.executionQueue = .ok ["b", "d", "a", "c"] ∧
      i.executionQueueBy (fun _ => List.reverse) = .ok ["b", "d", "a", "c"] ∧
        ∀ other, other.Perm i.ids → i.DependenciesFirst other →
          other = ["b", "d", "a", "c"] ∨ PartsEarlier i.ids ["b", "d", "a", "c"] other := by
  intro i
  have compiled : ∀ q ∈ i.processes, q.2.toProcessRecord.compile = .ok q.2 := by
    simp only [i, List.forall_mem_cons, List.not_mem_nil, false_implies, implies_true, and_true]
    exact ⟨by cbv, by cbv, by cbv, by cbv⟩
  have built : Built i := built_of_processes (by decide) compiled (0, 100)
  have ordered : i.executionQueue = .ok ["b", "d", "a", "c"] := by with_unfolding_all rfl
  obtain ⟨succeeds, order, visits, -⟩ := executionQueue_earliest_order built (by decide)
  obtain ⟨-, -, -, least⟩ := order _ ordered
  refine ⟨succeeds.mp ⟨_, ordered⟩, ordered, ?_, least⟩
  exact (visits _ fun _ children => children.reverse_perm).trans ordered

end Industry

end Flowsheet
