import Flowsheet.Command.Listing
import Flowsheet.Proofs.Industry.Neighbours

set_option autoImplicit false

namespace Flowsheet.Command

theorem sections_perm {α : Type} {number : α → Nat} {xs : List α} {bound : Nat}
    (below : ∀ x ∈ xs, number x < bound) :
    ((List.range bound).map fun n => xs.filter fun x => number x = n).flatten.Perm xs := by
  induction bound generalizing xs with
  | zero =>
    have none : xs = [] := List.eq_nil_iff_forall_not_mem.mpr fun x member => Nat.not_lt_zero _ (below x member)
    simp [none]
  | succ bound ih =>
    -- the earlier sections are those of the members with a smaller number, the last has the others
    have small : ∀ x ∈ xs.filter fun x => number x < bound, number x < bound := by simp
    have rest := ih small
    have earlier : ((List.range bound).map fun n => (xs.filter fun x => number x < bound).filter fun x => number x = n) =
        (List.range bound).map fun n => xs.filter fun x => number x = n := by
      refine List.map_congr_left fun n member => ?_
      have less := List.mem_range.mp member
      rw [List.filter_filter]
      refine List.filter_congr fun x _ => ?_
      rw [← Bool.decide_and, decide_eq_decide]
      omega
    have last : (xs.filter fun x => !decide (number x < bound)) = xs.filter fun x => number x = bound := by
      refine List.filter_congr fun x member => ?_
      have most := below x member
      rw [← decide_not, decide_eq_decide]
      omega
    rw [List.range_succ, List.map_append, List.flatten_append, List.map_singleton, List.flatten_singleton,
      ← last, ← earlier]
    exact (rest.append_right _).trans (List.filter_append_perm _ xs)

variable {N : Type} {i : Industry N} {queue : List String}

def entryOf (i : Industry N) (q : String × Process N) : List String :=
  let list (lead : String) (ids : List String) : List String :=
    if ids.isEmpty then [] else [lead ++ ", ".intercalate ids]
  [s!"  • {q.1} ({q.2.name})"] ++ list "    ← depends on: " (i.dependencies q.1) ++
    list "    → used by: " (i.users q.1)

def printed (i : Industry N) (sections : List (List (String × Process N))) (queue : List String) : String :=
  let levels := sections.mapIdx fun n qs => ["", s!"Level {n}:"] ++ qs.flatMap (entryOf i)
  let all := ["Dependency Graph:", "================="] ++ levels.flatten ++
    ["", "Execution queue:", "================", " → ".intercalate queue]
  String.join (all.map (· ++ "\n"))

noncomputable def members (i : Industry N) (queue : List String) (level : Nat) : List (String × Process N) :=
  (i.queued queue).filter fun q => i.depth q.1 = level

noncomputable def deepest (i : Industry N) (queue : List String) : Nat := (queue.map i.depth).foldl max 0

section Ordered

variable (distinct : i.ids.Nodup) (ordered : i.executionQueue = .ok queue)

include distinct ordered

theorem levelLines_eq_ok {qs : List (String × Process N)} (known : ∀ q ∈ qs, q.1 ∈ i.ids) (level : Nat) :
    levelLines i qs level = .ok (if qs.isEmpty then [] else sectionLines level (qs.map (entryOf i))) := by
  have entries : qs.mapM (fun q => processLines i q.1 q.2.name) = .ok (qs.map (entryOf i)) := by
    refine mapM_of_ok fun q member => ?_
    rw [processLines, Industry.dependents_eq_ok distinct ordered (known q member)]
    rfl
  cases qs with
  | nil => rfl
  | cons q qs =>
    simp only [levelLines, entries]
    rfl

theorem graphText_eq_ok : graphText i = .ok (listing ((List.range (deepest i queue + 1)).map fun n =>
    if (members i queue n).isEmpty then [] else sectionLines n ((members i queue n).map (entryOf i))) queue) := by
  have permuted := (Industry.executionQueue_eq_ok ordered).2
  have level {id : String} (member : id ∈ queue) :
      ((queue.map fun x => (x, i.depth x)).lookup id).getD 0 = i.depth id := by
    rw [List.lookup_graph i.depth member, Option.getD_some]
  have top : (queue.map fun id => ((queue.map fun x => (x, i.depth x)).lookup id).getD 0) = queue.map i.depth :=
    List.map_congr_left fun id member => level member
  have sections (n : Nat) : ((i.queued queue).filter fun q =>
      ((queue.map fun x => (x, i.depth x)).lookup q.1).getD 0 = n) = members i queue n := by
    refine List.filter_congr fun q member => ?_
    rw [level (Industry.mem_queued.mp member).1]
  have lines : ∀ n ∈ List.range (deepest i queue + 1), levelLines i (members i queue n) n =
      .ok (if (members i queue n).isEmpty then [] else sectionLines n ((members i queue n).map (entryOf i))) := by
    refine fun n _ => levelLines_eq_ok distinct ordered (fun q member => ?_) n
    exact permuted.mem_iff.mp (Industry.mem_queued.mp (List.mem_filter.mp member).1).1
  rw [graphText, Industry.levels_eq_ok ordered, ordered]
  simp only [Except.mapError, bind, Except.bind]
  simp only [top, sections]
  rw [show (List.foldl max 0 (queue.map i.depth)) = deepest i queue from rfl, mapM_of_ok lines]
  rfl

theorem perm_members : ((List.range (deepest i queue + 1)).map (members i queue)).flatten.Perm i.processes := by
  have above := (Industry.isGreatest_foldl_max i.depth queue 0).2
  refine (sections_perm fun q member => ?_).trans (Industry.queued_perm distinct ordered).2
  have least := above (.inr ⟨q.1, (Industry.mem_queued.mp member).1, rfl⟩)
  rw [deepest, List.foldl_map]
  omega

omit distinct in
theorem members_ne_nil (some : queue ≠ []) {level : Nat} (le : level ≤ deepest i queue) :
    members i queue level ≠ [] := by
  have permuted := (Industry.executionQueue_eq_ok ordered).2
  -- some process is as deep as the deepest level, so every level above has one
  obtain ⟨id, known, deep⟩ : ∃ id ∈ i.ids, deepest i queue ≤ i.depth id := by
    obtain ⟨first, member⟩ := List.exists_mem_of_ne_nil _ some
    rcases (Industry.isGreatest_foldl_max i.depth queue 0).1 with zero | ⟨id, inside, value⟩
    · refine ⟨first, permuted.mem_iff.mp member, ?_⟩
      rw [deepest, List.foldl_map, zero]
      exact Nat.zero_le _
    · refine ⟨id, permuted.mem_iff.mp inside, ?_⟩
      rw [deepest, List.foldl_map, value]
  obtain ⟨d, registered, same⟩ := Industry.exists_depth_eq ordered known (le.trans deep)
  obtain ⟨p, found⟩ := Option.isSome_iff_exists.mp (Industry.isSome_process?_iff.mpr registered)
  refine List.ne_nil_of_mem (a := (d, p)) (List.mem_filter.mpr ⟨?_, by simpa using same⟩)
  exact Industry.mem_queued.mpr ⟨permuted.mem_iff.mpr registered, found⟩

theorem exists_sections : ∃ sections : List (List (String × Process N)),
    sections.flatten.Perm i.processes ∧
      (∀ level (inside : level < sections.length), sections[level] ≠ [] ∧
        sections[level].Sublist (i.queued queue) ∧ ∀ q ∈ sections[level], i.depth q.1 = level) ∧
      graphText i = .ok (printed i sections queue) := by
  have spelled (sections : List (List (String × Process N))) : printed i sections queue =
      listing (sections.mapIdx fun level qs => sectionLines level (qs.map (entryOf i))) queue := by
    simp only [printed, listing, sectionLines, List.flatMap_def]
  simp only [spelled]
  rw [graphText_eq_ok distinct ordered]
  by_cases none : queue = []
  · have empty : i.processes = [] := by
      have permuted := (Industry.queued_perm distinct ordered).2
      rw [none] at permuted
      exact permuted.nil_eq.symm
    refine ⟨[], by rw [empty]; exact .refl _, nofun, ?_⟩
    subst none
    rfl
  · refine ⟨_, perm_members distinct ordered, fun level inside => ?_, ?_⟩
    · rw [List.getElem_map, List.getElem_range]
      rw [List.length_map, List.length_range] at inside
      refine ⟨members_ne_nil ordered none (by omega), List.filter_sublist, fun q member => ?_⟩
      simpa using (List.mem_filter.mp member).2
    · congr 2
      refine List.ext_getElem (by simp) fun level short _ => ?_
      rw [List.length_map, List.length_range] at short
      have occupied := members_ne_nil ordered none (by omega : level ≤ deepest i queue)
      simp [occupied]

end Ordered

theorem levels_of_longest_chains [Quantity N] (built : i.Built) (ordered : i.executionQueue = .ok queue) :
    ∃ level : String → Nat, i.levels = .ok (queue.map fun id => (id, level id)) ∧ queue.Perm i.ids ∧
      (∀ id ∈ i.ids, IsGreatest (i.chainLengths id) (level id) ∧
        (level id = 0 ↔ i.dependencies id = []) ∧
        (i.dependencies id ≠ [] → IsGreatest {n | ∃ d ∈ i.dependencies id, n = level d + 1} (level id)) ∧
        (∀ d ∈ i.dependencies id, d ∈ i.ids ∧ level d < level id) ∧
        ∀ n ≤ level id, ∃ d ∈ i.ids, level d = n) ∧
      ∃ sections : List (List (String × Process N)), sections.flatten.Perm i.processes ∧
        (∀ n (inside : n < sections.length), sections[n] ≠ [] ∧
          sections[n].Sublist (i.queued queue) ∧ ∀ q ∈ sections[n], level q.1 = n) ∧
        graphText i = .ok (printed i sections queue) := by
  have deep := Industry.hasDepth_of_queue ordered
  refine ⟨i.depth, Industry.levels_eq_ok ordered, (Industry.executionQueue_eq_ok ordered).2, fun id known => ?_,
    exists_sections built.ids_nodup ordered⟩
  refine ⟨deep id, Industry.depth_eq_zero_iff deep, Industry.isGreatest_depth deep, fun d depends => ?_,
    fun n le => Industry.exists_depth_eq ordered known le⟩
  exact ⟨Industry.mem_ids_of_dependency ordered depends, Industry.depth_lt deep depends⟩

theorem levels_of_longest_chains_stages :
    let i := Industry.stages [("c", ["a", "b"]), ("b", ["a"]), ("a", [])]
    i.executionQueue = .ok ["a", "b", "c"] ∧ i.levels = .ok [("a", 0), ("b", 1), ("c", 2)] ∧
      IsGreatest (i.chainLengths "c") 2 ∧
        ∃ sections : List (List (String × Process ℚ)), sections.flatten.Perm i.processes ∧
          graphText i = .ok (printed i sections ["a", "b", "c"]) := by
  intro i
  have built : i.Built := Industry.built_stages (by decide) (by decide)
  have ordered : i.executionQueue = .ok ["a", "b", "c"] := by with_unfolding_all rfl
  have leveled : i.levels = .ok [("a", 0), ("b", 1), ("c", 2)] := by
    rw [Industry.levels, ordered]
    cbv
  obtain ⟨level, found, -, chains, sections, complete, -, text⟩ := levels_of_longest_chains built ordered
  obtain ⟨-, -, last⟩ : level "a" = 0 ∧ level "b" = 1 ∧ level "c" = 2 := by
    simpa using Except.ok.inj (found.symm.trans leveled)
  refine ⟨ordered, leveled, last ▸ (chains "c" (by decide)).1, sections, complete, text⟩

end Flowsheet.Command
