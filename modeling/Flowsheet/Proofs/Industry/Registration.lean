import Flowsheet.Proofs.Industry.Acceptance
import Flowsheet.Proofs.Industry.Agenda
import Flowsheet.Proofs.Industry.Consistency
import Flowsheet.Proofs.Industry.Levels

set_option autoImplicit false

namespace Flowsheet.Industry

variable {N : Type} {i : Industry N} {m : MetaProcess N} {ps : List (String × Process N)}

def registerAll (i : Industry N) (ps : List (String × Process N)) : Except Failure (Industry N) :=
  ps.foldlM (fun j q => j.addProcess q.1 q.2) i

def withProcesses (i : Industry N) (ps : List (String × Process N)) : Industry N := { i with processes := ps }

@[simp] theorem processes_withProcesses : (i.withProcesses ps).processes = ps := rfl

@[simp] theorem metaProcess_withProcesses : (i.withProcesses ps).metaProcess = i.metaProcess := rfl

theorem registerAll_eq_ok (distinct : ((i.processes ++ ps).map (·.1)).Nodup) :
    i.registerAll ps = .ok (i.withProcesses (i.processes ++ ps)) := by
  induction ps generalizing i with
  | nil =>
    rw [registerAll, List.append_nil]
    rfl
  | cons q ps ih =>
    have fresh : q.1 ∉ i.ids := by
      rw [List.map_append] at distinct
      exact fun taken => (List.nodup_append.mp distinct).2.2 q.1 taken q.1 (by simp) rfl
    rw [List.append_cons] at distinct ⊢
    exact foldlM_cons_eq_ok.mpr ⟨_, addProcess_eq_ok.mpr ⟨fresh, rfl⟩, ih distinct⟩

section Reordered

variable (permuted : ps.Perm i.processes)

include permuted

theorem ids_reordered : (i.withProcesses ps).ids.Perm i.ids := permuted.map _

theorem consistent_reordered : (i.withProcesses ps).Consistent m ↔ i.Consistent m := by
  have sourced (input : Input N) : (i.withProcesses ps).Sourced input ↔ i.Sourced input := by
    simp only [Sourced, processes_withProcesses, permuted.mem_iff]
  have awaited (d : Requirement N) : (i.withProcesses ps).Awaited d ↔ i.Awaited d := by
    simp only [Awaited, processes_withProcesses, permuted.mem_iff]
  simp only [consistent_iff, sourced, awaited, processes_withProcesses, permuted.mem_iff]

variable (distinct : i.ids.Nodup)

include distinct

theorem nodup_ids_reordered : (i.withProcesses ps).ids.Nodup :=
  (ids_reordered permuted).nodup_iff.mpr distinct

theorem process?_reordered (id : String) : (i.withProcesses ps).process? id = i.process? id := by
  refine Option.ext fun p => ?_
  rw [process?_eq_some_iff (nodup_ids_reordered permuted distinct), process?_eq_some_iff distinct]
  exact permuted.mem_iff

theorem dependsOn_reordered : (i.withProcesses ps).DependsOn = i.DependsOn := by
  funext id d
  rw [DependsOn, DependsOn, dependencies, process?_reordered permuted distinct, ← dependencies]

theorem depth_reordered : (i.withProcesses ps).depth = i.depth := by
  funext id
  rw [depth, chainLengths, dependsOn_reordered permuted distinct, ← chainLengths, ← depth]

theorem orderable_reordered : (i.withProcesses ps).Orderable ↔ i.Orderable := by
  have ids := ids_reordered permuted
  have alike := dependsOn_reordered permuted distinct
  constructor
  · rintro ⟨registered, acyclic⟩
    simp only [alike, ids.mem_iff] at registered acyclic
    exact ⟨registered, acyclic⟩
  · rintro ⟨registered, acyclic⟩
    simp only [← alike, ← ids.mem_iff] at registered acyclic
    exact ⟨registered, acyclic⟩

theorem exists_queue_reordered :
    (∃ queue, (i.withProcesses ps).executionQueue = .ok queue) ↔ ∃ queue, i.executionQueue = .ok queue := by
  rw [exists_queue_iff (nodup_ids_reordered permuted distinct), exists_queue_iff distinct,
    (ids_reordered permuted).mem_iff, orderable_reordered permuted distinct]

theorem levels_reordered : Alike (fun new old => ∀ id, new.lookup id = old.lookup id)
    (i.withProcesses ps).levels i.levels := by
  have both := exists_queue_reordered permuted distinct
  cases old : i.executionQueue with
  | error fault =>
    cases new : (i.withProcesses ps).executionQueue with
    | error fault' =>
      rw [levels, levels, old, new]
      exact .failed
    | ok queue =>
      obtain ⟨other, ordered⟩ := both.mp ⟨queue, new⟩
      rw [old] at ordered
      cases ordered
  | ok queue =>
    -- the queues may differ, but they hold the same processes, and depths are the same
    obtain ⟨other, new⟩ := both.mpr ⟨queue, old⟩
    have members (id : String) : id ∈ other ↔ id ∈ queue := by
      rw [(executionQueue_eq_ok new).2.mem_iff, (ids_reordered permuted).mem_iff,
        (executionQueue_eq_ok old).2.mem_iff]
    rw [levels_eq_ok old, levels_eq_ok new, depth_reordered permuted distinct]
    refine .done fun id => Option.ext fun n => ?_
    rw [Agenda.lookup_counts, Agenda.lookup_counts, members]

end Reordered

theorem check_exact_in_any_order [Quantity N] (built : Built i) :
    (i.check = .ok () ↔ ∃ m, i.metaProcess = some m ∧ i.Consistent m) ∧
      ∀ ps, ps.Perm i.processes → ∃ j, (i.withProcesses []).registerAll ps = .ok j ∧
        (j.check = .ok () ↔ i.check = .ok ()) ∧
          ((∃ queue, j.executionQueue = .ok queue) ↔ ∃ queue, i.executionQueue = .ok queue) ∧
            Alike (fun new old => ∀ id, new.lookup id = old.lookup id) j.levels i.levels := by
  have distinct := built.ids_nodup
  have names := built.forall_process (P := fun p => p.checkNames = .ok ()) fun compiled => by
    obtain ⟨-, names, record, -⟩ := ProcessRecord.compile_eq_ok.mp compiled
    rw [record]
    exact names
  refine ⟨check_iff_consistent distinct names, fun ps permuted => ?_⟩
  have once := nodup_ids_reordered permuted distinct
  refine ⟨i.withProcesses ps, registerAll_eq_ok once, ?_, exists_queue_reordered permuted distinct,
    levels_reordered permuted distinct⟩
  have checked := check_iff_consistent once fun q member => names q (permuted.mem_iff.mp member)
  rw [checked, check_iff_consistent distinct names]
  simp only [consistent_reordered permuted, metaProcess_withProcesses]

theorem check_exact_in_any_order_boiler :
    let i : Industry ℚ := ⟨some steamworks, [("boiler", boiler), ("well", well)], (0, 100)⟩
    i.Consistent steamworks ∧ i.levels = .ok [("well", 0), ("boiler", 1)] ∧
      ∃ j, (i.withProcesses []).registerAll [("well", well), ("boiler", boiler)] = .ok j ∧
        j.check = .ok () ∧ (∃ queue, j.executionQueue = .ok queue) ∧
          ∃ levels, j.levels = .ok levels ∧ levels.lookup "boiler" = some 1 := by
  intro i
  have compiled : ∀ q ∈ i.processes, q.2.toProcessRecord.compile = .ok q.2 := by
    simp [i, compile_well, compile_boiler]
  have built : Built i := built_of_compile (by decide) compiled compile_steamworks rfl
  have checked : i.check = .ok () := by cbv
  have ordered : i.executionQueue = .ok ["well", "boiler"] := by with_unfolding_all rfl
  have leveled : i.levels = .ok [("well", 0), ("boiler", 1)] := by with_unfolding_all rfl
  obtain ⟨exact, reorders⟩ := check_exact_in_any_order built
  obtain ⟨m, set, consistent⟩ := exact.mp checked
  obtain ⟨j, registered, accepts, orders, levels⟩ := reorders [("well", well), ("boiler", boiler)] (.swap _ _ _)
  cases set
  refine ⟨consistent, leveled, j, registered, accepts.mpr checked, orders.mpr ⟨_, ordered⟩, ?_⟩
  rw [leveled] at levels
  generalize j.levels = found at levels ⊢
  cases levels with
  | done same => exact ⟨_, rfl, same "boiler"⟩

end Flowsheet.Industry
