import Mathlib.Data.List.Chain
import Mathlib.Order.ConditionallyCompletePartialOrder.Basic
import Mathlib.Order.Lattice.Nat
import Flowsheet.Proofs.Industry.Order

set_option autoImplicit false

namespace Flowsheet.Industry

variable {N : Type} {i : Industry N} {queue : List String} {id : String}

/-- The lengths of the chains that end at a process, where each process takes inputs from the one
behind it. -/
def chainLengths (i : Industry N) (id : String) : Set Nat :=
  {n | ∃ sources : List String, sources.length = n ∧ (id :: sources).IsChain i.DependsOn}

noncomputable def depth (i : Industry N) (id : String) : Nat := sSup (i.chainLengths id)

theorem zero_mem_chainLengths (i : Industry N) (id : String) : 0 ∈ i.chainLengths id :=
  ⟨[], rfl, .singleton id⟩

theorem succ_mem_chainLengths {n : Nat} :
    n + 1 ∈ i.chainLengths id ↔ ∃ d ∈ i.dependencies id, n ∈ i.chainLengths d := by
  constructor
  · rintro ⟨sources, length, chain⟩
    cases sources with
    | nil => cases length
    | cons d sources =>
      obtain ⟨depends, rest⟩ := List.isChain_cons_cons.mp chain
      exact ⟨d, depends, sources, Nat.succ.inj length, rest⟩
  · rintro ⟨d, depends, sources, rfl, chain⟩
    exact ⟨d :: sources, rfl, List.isChain_cons_cons.mpr ⟨depends, chain⟩⟩

theorem isGreatest_foldl_max (f : String → Nat) (ds : List String) (start : Nat) :
    IsGreatest {n | n = start ∨ ∃ d ∈ ds, n = f d} (ds.foldl (fun n d => max n (f d)) start) := by
  induction ds generalizing start with
  | nil => simp [IsGreatest, upperBounds]
  | cons d ds ih =>
    obtain ⟨attained, above⟩ := ih (max start (f d))
    rw [List.foldl_cons]
    constructor
    · rcases attained with first | ⟨e, member, value⟩
      · rcases Nat.le_total start (f d) with le | le
        · exact .inr ⟨d, by simp, first.trans (Nat.max_eq_right le)⟩
        · exact .inl (first.trans (Nat.max_eq_left le))
      · exact .inr ⟨e, List.mem_cons_of_mem _ member, value⟩
    · have first := above (.inl rfl)
      rintro n (rfl | ⟨e, member, rfl⟩)
      · exact (Nat.le_max_left _ _).trans first
      · rcases List.mem_cons.mp member with rfl | member
        · exact (Nat.le_max_right _ _).trans first
        · exact above (.inr ⟨e, member, rfl⟩)

/-- Every chain that ends at the process is at most as long as its depth, and one is as long. -/
def HasDepth (i : Industry N) (id : String) : Prop := IsGreatest (i.chainLengths id) (i.depth id)

theorem isGreatest_level
    (below : ∀ d ∈ i.dependencies id, i.HasDepth d) : IsGreatest (i.chainLengths id)
      ((i.dependencies id).foldl (fun n d => max n (i.depth d + 1)) 0) := by
  obtain ⟨attained, above⟩ := isGreatest_foldl_max (fun d => i.depth d + 1) (i.dependencies id) 0
  constructor
  · rcases attained with zero | ⟨d, depends, value⟩
    · rw [zero]
      exact i.zero_mem_chainLengths id
    · rw [value]
      exact succ_mem_chainLengths.mpr ⟨d, depends, (below d depends).1⟩
  · rintro (_ | n) chain
    · exact Nat.zero_le _
    · obtain ⟨d, depends, shorter⟩ := succ_mem_chainLengths.mp chain
      exact (Nat.succ_le_succ ((below d depends).2 shorter)).trans (above (.inr ⟨d, depends, rfl⟩))

theorem level_eq_depth {known : List String} (below : ∀ d ∈ i.dependencies id, d ∈ known ∧ i.HasDepth d) :
    i.level (known.map fun x => (x, i.depth x)) id = i.depth id ∧ i.HasDepth id := by
  have step : i.level (known.map fun x => (x, i.depth x)) id =
      (i.dependencies id).foldl (fun n d => max n (i.depth d + 1)) 0 := by
    refine List.foldl_ext _ _ _ fun n d depends => ?_
    rw [List.lookup_graph i.depth (below d depends).1, Option.getD_some]
  have greatest := isGreatest_level fun d depends => (below d depends).2
  rw [step, HasDepth, depth, greatest.csSup_eq]
  exact ⟨rfl, greatest⟩

theorem foldl_level (first : i.DependenciesFirst queue) :
    queue.foldl (fun known id => known ++ [(id, i.level known id)]) [] =
        queue.map (fun id => (id, i.depth id)) ∧ ∀ id ∈ queue, i.HasDepth id := by
  -- the levels found so far are those of the processes that stand earlier
  induction queue using List.reverseRecOn with
  | nil => exact ⟨rfl, nofun⟩
  | append_singleton before id ih =>
    obtain ⟨found, deep⟩ := ih fun front x back split =>
      first front x (back ++ [id]) (by rw [split, List.append_assoc, List.cons_append])
    have earlier (d : String) (depends : d ∈ i.dependencies id) : d ∈ before ∧ i.HasDepth d :=
      have inside := first before id [] rfl d depends
      ⟨inside, deep d inside⟩
    obtain ⟨level, here⟩ := level_eq_depth earlier
    rw [List.foldl_append, found, List.map_append]
    refine ⟨by rw [List.foldl_cons, List.foldl_nil, level, List.map_singleton], fun x member => ?_⟩
    rcases List.mem_append.mp member with old | new
    · exact deep x old
    · rw [List.mem_singleton.mp new]
      exact here

theorem dependenciesFirst_of_queue (ordered : i.executionQueue = .ok queue) : i.DependenciesFirst queue := by
  intro before id after split d depends
  have scheduled := (executionQueue_eq_ok ordered).1
  exact (dependencies_of_schedule (scheduled ▸ split) d depends).resolve_left List.not_mem_nil

theorem levels_eq_ok (ordered : i.executionQueue = .ok queue) :
    i.levels = .ok (queue.map fun id => (id, i.depth id)) := by
  rw [levels, ordered]
  exact congrArg Except.ok (foldl_level (dependenciesFirst_of_queue ordered)).1

theorem hasDepth_of_queue (ordered : i.executionQueue = .ok queue) (id : String) : i.HasDepth id := by
  by_cases known : id ∈ i.ids
  · have member := (executionQueue_eq_ok ordered).2.mem_iff.mpr known
    exact (foldl_level (dependenciesFirst_of_queue ordered)).2 id member
  · have none : ∀ d ∈ i.dependencies id, d ∈ [] ∧ i.HasDepth d :=
      fun d depends => absurd (mem_ids_of_dependsOn depends) known
    exact (level_eq_depth none).2

theorem mem_ids_of_dependency (ordered : i.executionQueue = .ok queue) {d : String}
    (depends : d ∈ i.dependencies id) : d ∈ i.ids := by
  have permuted := (executionQueue_eq_ok ordered).2
  obtain ⟨before, after, split⟩ := List.append_of_mem (permuted.mem_iff.mpr (mem_ids_of_dependsOn depends))
  refine permuted.mem_iff.mp (split ▸ List.mem_append_left _ ?_)
  exact dependenciesFirst_of_queue ordered before id after split d depends

section Depth

variable (deep : ∀ id, i.HasDepth id)

include deep

theorem depth_lt {d : String} (depends : d ∈ i.dependencies id) : i.depth d < i.depth id :=
  (deep id).2 (succ_mem_chainLengths.mpr ⟨d, depends, (deep d).1⟩)

theorem exists_dependency_of_depth {n : Nat} (value : i.depth id = n + 1) :
    ∃ d ∈ i.dependencies id, i.depth d = n := by
  have longest := (deep id).1
  rw [value] at longest
  obtain ⟨d, depends, chain⟩ := succ_mem_chainLengths.mp longest
  have least : n ≤ i.depth d := (deep d).2 chain
  have most := depth_lt deep depends
  exact ⟨d, depends, by omega⟩

theorem depth_eq_zero_iff : i.depth id = 0 ↔ i.dependencies id = [] := by
  constructor
  · intro zero
    refine List.eq_nil_iff_forall_not_mem.mpr fun d depends => ?_
    have deeper := depth_lt deep depends
    omega
  · intro none
    by_contra nonzero
    obtain ⟨n, value⟩ := Nat.exists_eq_succ_of_ne_zero nonzero
    obtain ⟨d, depends, -⟩ := exists_dependency_of_depth deep value
    rw [none] at depends
    cases depends

theorem isGreatest_depth (some : i.dependencies id ≠ []) :
    IsGreatest {n | ∃ d ∈ i.dependencies id, n = i.depth d + 1} (i.depth id) := by
  constructor
  · obtain ⟨n, value⟩ := Nat.exists_eq_succ_of_ne_zero (mt (depth_eq_zero_iff deep).mp some)
    obtain ⟨d, depends, below⟩ := exists_dependency_of_depth deep value
    exact ⟨d, depends, by omega⟩
  · rintro n ⟨d, depends, rfl⟩
    exact depth_lt deep depends

end Depth

theorem exists_depth_eq (ordered : i.executionQueue = .ok queue) (known : id ∈ i.ids) {n : Nat}
    (le : n ≤ i.depth id) : ∃ d ∈ i.ids, i.depth d = n := by
  have deep := hasDepth_of_queue ordered
  generalize value : i.depth id = top at le
  induction top generalizing id with
  | zero => exact ⟨id, known, by omega⟩
  | succ top ih =>
    by_cases last : n = top + 1
    · exact ⟨id, known, by omega⟩
    · obtain ⟨d, depends, below⟩ := exists_dependency_of_depth deep value
      exact ih (mem_ids_of_dependency ordered depends) below (by omega)

end Flowsheet.Industry
