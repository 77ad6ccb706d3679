import Mathlib.Data.List.Perm.Basic
import Mathlib.Data.List.Perm.Subperm
import Flowsheet.Industry.Graph
import Flowsheet.Proofs.Industry.Consistency

set_option autoImplicit false

namespace Flowsheet.Industry

theorem schedule_subperm (dependencies : String → List String) (done pending : List String) :
    (schedule dependencies done pending).Subperm pending := by
  fun_induction schedule dependencies done pending with
  | case1 => exact List.nil_subperm
  | case2 done pending id found ih =>
    have member := List.mem_of_find?_eq_some found
    exact ((List.subperm_cons id).mpr ih).trans (List.perm_cons_erase member).symm.subperm

theorem dependencies_of_schedule {dependencies : String → List String}
    {done pending before after : List String} {id : String}
    (split : schedule dependencies done pending = before ++ id :: after) :
    ∀ d ∈ dependencies id, d ∈ done ∨ d ∈ before := by
  fun_induction schedule dependencies done pending generalizing before with
  | case1 => simp at split
  | case2 done pending first found ih =>
    cases before with
    | nil =>
      obtain rfl : first = id := by simpa using (List.cons.inj split).1
      intro d member
      -- it was chosen because all that it needs was done
      have ready := List.find?_some found
      exact .inl (by simpa using (List.all_eq_true.mp ready) d member)
    | cons other before =>
      obtain ⟨rfl, rest⟩ := List.cons.inj split
      intro d member
      rcases ih rest d member with earlier | earlier
      · rcases List.mem_cons.mp earlier with rfl | earlier
        · exact .inr (by simp)
        · exact .inl earlier
      · exact .inr (List.mem_cons_of_mem _ earlier)

variable {N : Type}

theorem executionQueue_eq_ok {i : Industry N} {queue : List String}
    (ordered : i.executionQueue = .ok queue) :
    queue = schedule i.dependencies [] i.ids ∧ queue.Perm i.ids := by
  simp only [executionQueue, bind_eq_ok] at ordered
  obtain ⟨_, -, rest⟩ := ordered
  split at rest
  · cases rest
  · split at rest
    · cases rest
    next complete =>
      cases rest
      refine ⟨rfl, (schedule_subperm _ _ _).perm_of_length_le ?_⟩
      omega

theorem mem_queued {i : Industry N} {queue : List String} {id : String} {p : Process N} :
    (id, p) ∈ i.queued queue ↔ id ∈ queue ∧ i.process? id = some p := by
  simp only [queued, List.mem_filterMap, Option.map_eq_some_iff, Prod.mk.injEq]
  constructor
  · rintro ⟨id', member, p', found, rfl, rfl⟩
    exact ⟨member, found⟩
  · rintro ⟨member, found⟩
    exact ⟨id, member, p, found, rfl, rfl⟩

theorem ids_queued {i : Industry N} {queue : List String} (known : ∀ id ∈ queue, id ∈ i.ids) :
    (i.queued queue).map (·.1) = queue := by
  induction queue with
  | nil => rfl
  | cons id queue ih =>
    obtain ⟨p, found⟩ := Option.isSome_iff_exists.mp (isSome_process?_iff.mpr (known id (by simp)))
    have rest := ih (fun d member => known d (List.mem_cons_of_mem _ member))
    simp only [queued] at rest
    simp [queued, found, rest]

theorem Built.nodup_queued [Quantity N] {i : Industry N} {queue : List String} (built : Built i)
    (ordered : i.executionQueue = .ok queue) : ((i.queued queue).map (·.1)).Nodup := by
  have complete := (executionQueue_eq_ok ordered).2
  rw [ids_queued fun id inside => complete.mem_iff.mp inside]
  exact complete.nodup_iff.mpr built.ids_nodup

theorem dependencies_queued {i : Industry N} {queue : List String}
    (ordered : i.executionQueue = .ok queue) {before after : List (String × Process N)} {id : String}
    {p : Process N} (split : i.queued queue = before ++ (id, p) :: after) :
    ∀ d ∈ p.dependencies, ∃ q, (d, q) ∈ before := by
  obtain ⟨scheduled, permuted⟩ := executionQueue_eq_ok ordered
  have ids := ids_queued (fun id member => permuted.mem_iff.mp member)
  rw [split, List.map_append, List.map_cons] at ids
  have member : (id, p) ∈ i.queued queue := by simp [split]
  have found : i.process? id = some p := (mem_queued.mp member).2
  intro d member
  have dependency : d ∈ i.dependencies id := by simpa [dependencies, found] using member
  rcases dependencies_of_schedule (scheduled ▸ ids.symm) d dependency with done | earlier
  · cases done
  · obtain ⟨⟨d', q⟩, inside, rfl⟩ := List.mem_map.mp earlier
    exact ⟨q, inside⟩

theorem check_eq_ok {i : Industry N} {m : MetaProcess N} (set : i.metaProcess = some m)
    (checked : i.check = .ok ()) :
    (∀ q ∈ i.processes, ∀ input ∈ q.2.inputs, i.checkInput q.2.name input = .ok ()) ∧
      (∀ d ∈ m.demands, i.checkDemand m.name d = .ok ()) ∧
      ∀ q ∈ i.processes, checkSupplied m q.1 q.2 = .ok () := by
  obtain ⟨m', set', -, rest⟩ := check_eq_ok_iff.mp checked
  obtain rfl := Option.some.inj (set.symm.trans set')
  exact rest

theorem output_of_checkInput {i : Industry N} {owner : String} {input : Input N}
    (checked : i.checkInput owner input = .ok ()) (external : input.isExternal = true) :
    ∃ q, i.process? input.origin = some q ∧ input.name ∈ q.outputs.map (·.name) := by
  obtain ⟨q, found, output, produced, -⟩ := checkInput_eq_ok_iff.mp checked external
  have named : output.name = input.name := by simpa using List.find?_some produced
  exact ⟨q, found, List.mem_map.mpr ⟨output, List.mem_of_find?_eq_some produced, named⟩⟩

theorem process_of_checkDemand {i : Industry N} {owner : String} {d : Requirement N}
    (checked : i.checkDemand owner d = .ok ()) : (i.process? d.used).isSome := by
  obtain ⟨p, found, -⟩ := checkDemand_eq_ok_iff.mp checked
  rw [found]
  rfl

def Supplied (m : MetaProcess N) (before : List (String × Process N)) (id : String)
    (p : Process N) : Prop :=
  ∀ x ∈ p.methodArgs,
    (∃ q ∈ before, x ∈ q.2.operations.map (·.name)) ∨ x ∈ (m.demandsFor id).map (·.name) ∨
      (p.ownValue? x).isSome

theorem ownValue?_isSome {p : Process N} {x : String} {input : Input N}
    (found : p.input? x = some input) (own : input.isExternal = false) (valued : input.value ≠ []) :
    (p.ownValue? x).isSome := by
  cases value : input.value with
  | nil => exact absurd value valued
  | cons v vs => simp [Process.ownValue?, found, own, value]

section Supply

variable {i : Industry N} {m : MetaProcess N} {queue : List String} {before after : List (String × Process N)}
  {id : String} {p : Process N}

theorem source_of_external
    (names : ∀ q ∈ i.processes, q.2.operations.map (·.name) = q.2.outputs.map (·.name))
    (set : i.metaProcess = some m) (checked : i.check = .ok ()) (ordered : i.executionQueue = .ok queue)
    (split : i.queued queue = before ++ (id, p) :: after) {input : Input N} (declared : input ∈ p.inputs)
    (external : input.isExternal = true) :
    ∃ q, (input.origin, q) ∈ before ∧ i.process? input.origin = some q ∧
      input.name ∈ q.operations.map (·.name) := by
  have member : (id, p) ∈ i.queued queue := by simp [split]
  have here : (id, p) ∈ i.processes := mem_processes_of_process? (mem_queued.mp member).2
  have dependency : input.origin ∈ p.dependencies := by
    rw [Process.dependencies, List.mem_eraseDups]
    exact List.mem_map.mpr ⟨input, List.mem_filter.mpr ⟨declared, external⟩, rfl⟩
  -- the process that stands earlier and the one that the check found are the same
  obtain ⟨q, earlier⟩ := dependencies_queued ordered split _ dependency
  obtain ⟨q', found', output⟩ :=
    output_of_checkInput ((check_eq_ok set checked).1 _ here input declared) external
  have there : i.process? input.origin = some q :=
    (mem_queued.mp (split ▸ List.mem_append_left _ earlier)).2
  obtain rfl : q' = q := Option.some.inj (found'.symm.trans there)
  refine ⟨_, earlier, there, ?_⟩
  rw [names _ (mem_processes_of_process? there)]
  exact output

theorem supplied_of_names
    (names : ∀ q ∈ i.processes, q.2.operations.map (·.name) = q.2.outputs.map (·.name))
    (set : i.metaProcess = some m) (checked : i.check = .ok ()) (ordered : i.executionQueue = .ok queue)
    (split : i.queued queue = before ++ (id, p) :: after) : Supplied m before id p := by
  have member : (id, p) ∈ i.queued queue := by simp [split]
  have here : (id, p) ∈ i.processes := mem_processes_of_process? (mem_queued.mp member).2
  intro x argument
  have source := checkSupplied_eq_ok_iff.mp ((check_eq_ok set checked).2.2 _ here) x argument
  simp only [isSupplied, Bool.or_eq_true, List.any_eq_true, beq_iff_eq] at source
  rcases source with own | ⟨d, demanded, named⟩
  · obtain ⟨input, found, kind⟩ := Option.any_eq_true _ _ |>.mp own
    have declared := List.mem_of_find?_eq_some found
    have named : input.name = x := by simpa using List.find?_some found
    by_cases external : input.isExternal = true
    · obtain ⟨q, earlier, -, output⟩ := source_of_external names set checked ordered split declared external
      exact .inl ⟨_, earlier, named ▸ output⟩
    · have valued : input.value ≠ [] := by simpa [external] using kind
      exact .inr (.inr (ownValue?_isSome found (by simpa using external) valued))
  · exact .inr (.inl (List.mem_map.mpr ⟨d, demanded, named⟩))

end Supply

theorem supplied_of_check {i : Industry ℚ} {m : MetaProcess ℚ} {queue : List String}
    (formed : i.WellFormed) (set : i.metaProcess = some m) (checked : i.check = .ok ())
    (ordered : i.executionQueue = .ok queue) {before after : List (String × Process ℚ)} {id : String}
    {p : Process ℚ} (split : i.queued queue = before ++ (id, p) :: after) : Supplied m before id p :=
  supplied_of_names (fun q member => (formed.processes q member).names) set checked ordered split

end Flowsheet.Industry
