import Flowsheet.Industry.Dot
import Flowsheet.Proofs.Industry.Acceptance
import Flowsheet.Proofs.Industry.Agenda
import Flowsheet.Proofs.Industry.Levels

set_option autoImplicit false

namespace Flowsheet.Industry

variable {N : Type} {i : Industry N} {queue ids : List String} {id : String}

def edgesInto (i : Industry N) (ids : List String) : List Edge :=
  ids.flatMap fun id => (i.dependencies id).map fun d => ⟨d, id⟩

theorem mem_edgesInto {e : Edge} :
    e ∈ i.edgesInto ids ↔ e.target ∈ ids ∧ i.DependsOn e.target e.source := by
  simp only [edgesInto, List.mem_flatMap, List.mem_map, DependsOn]
  constructor
  · rintro ⟨id, member, d, depends, rfl⟩
    exact ⟨member, depends⟩
  · rintro ⟨member, depends⟩
    exact ⟨_, member, _, depends, rfl⟩

theorem nodup_dependencies (i : Industry N) (id : String) : (i.dependencies id).Nodup := by
  rw [dependencies]
  cases i.process? id with
  | none => exact .nil
  | some p => exact nodup_eraseDups _

theorem nodup_edgesInto (distinct : ids.Nodup) : (i.edgesInto ids).Nodup := by
  refine List.nodup_flatMap.mpr ⟨fun id _ => ?_, distinct.imp fun {x y} differ => ?_⟩
  · exact (i.nodup_dependencies id).map fun _ _ same => congrArg Edge.source same
  · intro e left right
    obtain ⟨_, -, rfl⟩ := List.mem_map.mp left
    obtain ⟨_, -, same⟩ := List.mem_map.mp right
    exact differ (congrArg Edge.target same).symm

theorem dependencies_of_mem (distinct : i.ids.Nodup) {p : Process N} (member : (id, p) ∈ i.processes) :
    i.dependencies id = p.dependencies := by
  rw [dependencies, (process?_eq_some_iff distinct).mpr member]
  rfl

theorem wishedEdges_eq (distinct : i.ids.Nodup) : i.wishedEdges = i.edgesInto i.ids := by
  rw [wishedEdges, edgesInto, ids, List.flatMap_map]
  refine List.flatMap_congr fun q member => ?_
  rw [dependencies_of_mem distinct member]

def users (i : Industry N) (id : String) : List String :=
  i.ids.filter fun x => (i.dependencies x).contains id

theorem mem_users {x : String} : x ∈ i.users id ↔ id ∈ i.dependencies x := by
  rw [users, List.mem_filter, List.contains_iff_mem, and_iff_right_iff_imp]
  exact mem_ids_of_dependsOn

theorem users_eq (distinct : i.ids.Nodup) :
    (i.processes.filter fun q => q.2.dependencies.contains id).map (·.1) = i.users id := by
  rw [users, ids, List.filter_map]
  congr 1
  refine List.filter_congr fun q member => ?_
  rw [Function.comp_apply, dependencies_of_mem distinct member]

/-- The users of a process as the edges of the graph show them: the targets of its edges, visited
in any sequence, then sorted. -/
def dependentsBy (visit : List String → List String) (i : Industry N) (id : String) :
    Except Failure (List String) := do
  let edges ← i.graph.mapError (·.failure)
  if id = "" || (i.process? id).isNone then
    throw (.of .unknownProcess s!"unknown process: {id}")
  return (visit (Edge.children edges id)).mergeSort fun x y => i.ids.idxOf x ≤ i.ids.idxOf y

theorem children_wishedEdges (id : String) (distinct : i.ids.Nodup) :
    (Edge.children i.wishedEdges id).Nodup ∧
      ∀ x, x ∈ Edge.children i.wishedEdges id ↔ x ∈ i.users id := by
  constructor
  · have once := (wishedEdges_eq distinct ▸ nodup_edgesInto distinct : i.wishedEdges.Nodup)
    refine (once.filter _).map_on fun e left f right same => ?_
    have source : e.source = f.source := by
      rw [beq_iff_eq.mp (List.mem_filter.mp left).2, beq_iff_eq.mp (List.mem_filter.mp right).2]
    cases e
    cases f
    congr
  · intro x
    rw [mem_users, ← DependsOn, ← joins_wishedEdges distinct, ← Edge.mem_parents]
    rw [← List.count_pos_iff, Edge.count_children, List.count_pos_iff]

section Ordered

variable (distinct : i.ids.Nodup)

include distinct

theorem dependents_eq_ok (ordered : i.executionQueue = .ok queue) (known : id ∈ i.ids) :
    i.dependents id = .ok (i.users id) := by
  obtain ⟨named, drawn⟩ := graph_of_queue ordered
  have registered : (i.process? id).isNone = false := by
    simpa using isSome_process?_iff.mpr known
  have blank : id ≠ "" := fun same => named (same ▸ known)
  rw [dependents, drawn, ← users_eq distinct]
  simp [Except.mapError, bind, Except.bind, blank, registered, pure, Except.pure]

theorem dependentsBy_eq {visit : List String → List String} (visits : ∀ children, (visit children).Perm children) :
    i.dependentsBy visit id = i.dependents id := by
  rw [dependentsBy, dependents]
  cases drawn : i.graph with
  | error fault => rfl
  | ok edges =>
    obtain ⟨rfl, -⟩ := graph_eq_ok.mp drawn
    obtain ⟨once, members⟩ := children_wishedEdges id distinct
    have sorted := mergeSort_idxOf_eq distinct ((visits _).nodup_iff.mpr once)
      fun x => (visits _).mem_iff.trans (members x)
    rw [users_eq distinct, users, ← sorted]
    rfl

end Ordered

theorem queued_perm (distinct : i.ids.Nodup) (ordered : i.executionQueue = .ok queue) :
    (i.queued queue).map (·.1) = queue ∧ (i.queued queue).Perm i.processes := by
  have permuted := (executionQueue_eq_ok ordered).2
  have named := ids_queued fun id member => permuted.mem_iff.mp member
  have once : (i.queued queue).Nodup := .of_map _ (named ▸ permuted.nodup_iff.mpr distinct)
  refine ⟨named, (List.perm_ext_iff_of_nodup once (.of_map _ distinct)).mpr fun ⟨id, p⟩ => ?_⟩
  rw [mem_queued, process?_eq_some_iff distinct, and_iff_right_iff_imp]
  exact fun member => permuted.mem_iff.mpr (List.mem_map_of_mem member)

def nodeText (id name : String) (boxed : Bool) : String :=
  let shape := if boxed then ", shape=box" else ""
  s!"  {Text.quote id} [label={Text.quote name}{shape}];\n"

def edgeText (source target : String) : String := s!"  {Text.quote source} -> {Text.quote target};\n"

def drawing (nodes edges : List String) : String :=
  "digraph industry \x7b\n  rankdir=LR;\n" ++ String.join (nodes ++ edges) ++ "\x7d"

theorem dot_eq_ok (distinct : i.ids.Nodup) (ordered : i.executionQueue = .ok queue) :
    i.dot = .ok (drawing
      ((i.queued queue).map fun q => nodeText q.1 q.2.name (i.depth q.1 = 0))
      ((i.edgesInto queue).map fun e => edgeText e.source e.target)) := by
  have shape : ∀ q ∈ i.queued queue,
      nodeLine q.1 q.2 = nodeText q.1 q.2.name (i.depth q.1 = 0) := by
    intro q member
    have here := dependencies_of_mem distinct ((queued_perm distinct ordered).2.mem_iff.mp member)
    have boxed : q.2.dependencies.isEmpty = decide (i.depth q.1 = 0) := by
      rw [Bool.eq_iff_iff, List.isEmpty_iff, decide_eq_true_iff,
        depth_eq_zero_iff (hasDepth_of_queue ordered), here]
    rw [← boxed]
    rfl
  rw [dot, ordered, edgesInto, List.map_flatMap, ← List.map_congr_left shape]
  simp only [List.map_map]
  rfl

theorem dependents_and_drawing [Quantity N] (built : Built i) (ordered : i.executionQueue = .ok queue) :
    (∀ x ∈ i.ids, ∃ users, i.dependents x = .ok users ∧ (∀ y, y ∈ users ↔ x ∈ i.dependencies y) ∧
      users.Nodup ∧ users.Sublist i.ids ∧
        ∀ visit : List String → List String, (∀ children, (visit children).Perm children) →
          i.dependentsBy visit x = .ok users) ∧
      ∃ (levels : List (String × Nat)) (nodes : List (String × Process N)) (edges : List Edge),
        i.levels = .ok levels ∧ nodes.map (·.1) = queue ∧ nodes.Perm i.processes ∧
          edges.Nodup ∧ (∀ e, e ∈ edges ↔ i.DependsOn e.target e.source) ∧
            i.dot = .ok (drawing
              (nodes.map fun q => nodeText q.1 q.2.name (levels.lookup q.1 = some 0))
              (edges.map fun e => edgeText e.source e.target)) := by
  have distinct := built.ids_nodup
  have permuted := (executionQueue_eq_ok ordered).2
  obtain ⟨named, complete⟩ := queued_perm distinct ordered
  constructor
  · intro x known
    have found := dependents_eq_ok distinct ordered known
    refine ⟨_, found, fun y => mem_users, distinct.filter _, List.filter_sublist, fun visit visits => ?_⟩
    exact (dependentsBy_eq distinct visits).trans found
  · refine ⟨_, _, i.edgesInto queue, levels_eq_ok ordered, named, complete, ?_, fun e => ?_, ?_⟩
    · exact nodup_edgesInto (permuted.nodup_iff.mpr distinct)
    · rw [mem_edgesInto, permuted.mem_iff, and_iff_right_iff_imp]
      exact mem_ids_of_dependsOn
    · rw [dot_eq_ok distinct ordered]
      have level : ∀ q ∈ i.queued queue, nodeText q.1 q.2.name (i.depth q.1 = 0) = nodeText q.1 q.2.name
          ((queue.map fun id => (id, i.depth id)).lookup q.1 = some 0) := by
        intro q member
        have inside : q.1 ∈ queue := named ▸ List.mem_map_of_mem member
        simp only [List.lookup_graph i.depth inside, Option.some.injEq]
      rw [List.map_congr_left level]

def stages (ps : List (String × List String)) : Industry ℚ where
  processes := ps.map fun q => (q.1, stage q.2)
  defaultBounds := (0, 100)

theorem compile_stage {sources : List String} (distinct : sources.Nodup) :
    (stage sources).toProcessRecord.compile = .ok (stage sources) := by
  have ranges : (stage sources).RangesHold := by
    refine ⟨nofun, fun input member => ?_, nofun⟩
    obtain ⟨source, -, rfl⟩ := List.mem_map.mp member
    exact nofun
  have names : (stage sources).checkNames = .ok () := by
    refine ProcessRecord.checkNames_eq_ok.mpr ⟨?_, .nil⟩
    rw [stage, List.map_map]
    simpa [Function.comp_def] using distinct
  exact ProcessRecord.compile_eq_ok.mpr ⟨ProcessRecord.validate_eq_ok.mpr ranges, names, rfl, .nil⟩

theorem built_stages {ps : List (String × List String)} (ids : (ps.map (·.1)).Nodup)
    (sources : ∀ q ∈ ps, q.2.Nodup) : Built (stages ps) := by
  refine built_of_processes (by simpa [Function.comp_def] using ids) (fun q member => ?_) (0, 100)
  obtain ⟨p, inside, rfl⟩ := List.mem_map.mp member
  exact compile_stage (sources p inside)

theorem dependents_and_drawing_stages :
    let i := stages [("c", ["a"]), ("a", []), ("d", ["a"])]
    i.executionQueue = .ok ["a", "c", "d"] ∧ i.dependents "a" = .ok ["c", "d"] ∧
      (∀ y, y ∈ ["c", "d"] ↔ "a" ∈ i.dependencies y) ∧ i.dependentsBy List.reverse "a" = .ok ["c", "d"] ∧
        ∃ (nodes : List (String × Process ℚ)) (edges : List Edge), nodes.map (·.1) = ["a", "c", "d"] ∧
          edges.Nodup ∧ (⟨"a", "d"⟩ : Edge) ∈ edges ∧ i.dot = .ok (drawing
            (nodes.map fun q => nodeText q.1 q.2.name
              (List.lookup q.1 [("a", 0), ("c", 1), ("d", 1)] = some 0))
            (edges.map fun e => edgeText e.source e.target)) := by
  intro i
  have built : Built i := built_stages (by decide) (by decide)
  have ordered : i.executionQueue = .ok ["a", "c", "d"] := by with_unfolding_all rfl
  have leveled : i.levels = .ok [("a", 0), ("c", 1), ("d", 1)] := by with_unfolding_all rfl
  have shown : i.dependents "a" = .ok ["c", "d"] := by with_unfolding_all rfl
  obtain ⟨converse, levels, nodes, edges, found, named, -, once, all, drawn⟩ :=
    dependents_and_drawing built ordered
  obtain ⟨users, here, both, -, -, visits⟩ := converse "a" (by decide)
  obtain rfl := Except.ok.inj (shown.symm.trans here)
  obtain rfl := Except.ok.inj (leveled.symm.trans found)
  refine ⟨ordered, shown, both, visits _ List.reverse_perm, nodes, edges, named, once, ?_, drawn⟩
  exact (all ⟨"a", "d"⟩).mpr ((both "d").mp (by decide))

end Flowsheet.Industry
