import Mathlib.Data.Fintype.Card
import Flowsheet.Proofs.Industry.Acyclic
import Flowsheet.Proofs.Industry.Queue

set_option autoImplicit false

namespace Flowsheet.Industry

open Relation

def runnable (dependencies : String → List String) (done : List String) (id : String) : Bool :=
  !done.contains id && (dependencies id).all done.contains

inductive Greedy (dependencies : String → List String) (ids : List String) :
    List String → List String → Prop where
  | stop {done : List String} (idle : ids.find? (runnable dependencies done) = none) :
      Greedy dependencies ids done []
  | take {done rest : List String} {id : String}
      (first : ids.find? (runnable dependencies done) = some id)
      (later : Greedy dependencies ids (id :: done) rest) : Greedy dependencies ids done (id :: rest)

section Greedy

variable {dependencies : String → List String} {ids done done' queue other : List String} {id : String}

theorem runnable_iff : runnable dependencies done id = true ↔
    id ∉ done ∧ ∀ d ∈ dependencies id, d ∈ done := by
  simp [runnable]

theorem runnable_congr {dependencies' : String → List String} (same : ∀ x, x ∈ done ↔ x ∈ done')
    (alike : ∀ x d, d ∈ dependencies x ↔ d ∈ dependencies' x) :
    runnable dependencies done = runnable dependencies' done' := by
  funext x
  rw [Bool.eq_iff_iff, runnable_iff, runnable_iff]
  simp only [same, alike]

theorem Greedy.congr {dependencies' : String → List String}
    (alike : ∀ x d, d ∈ dependencies x ↔ d ∈ dependencies' x)
    (greedy : Greedy dependencies ids done queue) : Greedy dependencies' ids done queue := by
  induction greedy with
  | stop idle => exact .stop (runnable_congr (fun _ => Iff.rfl) alike ▸ idle)
  | take first _ ih => exact .take (runnable_congr (fun _ => Iff.rfl) alike ▸ first) ih

theorem Greedy.unique (greedy : Greedy dependencies ids done queue)
    (also : Greedy dependencies ids done other) : other = queue := by
  induction greedy generalizing other with
  | stop idle =>
    cases also with
    | stop => rfl
    | take first => rw [idle] at first; cases first
  | take first _ ih =>
    cases also with
    | stop idle => rw [idle] at first; cases first
    | take first' later =>
      obtain rfl := Option.some.inj (first.symm.trans first')
      rw [ih later]

theorem Greedy.earliest (greedy : Greedy dependencies ids done queue) {before after : List String}
    (split : queue = before ++ id :: after) :
    ids.find? (runnable dependencies (before ++ done)) = some id := by
  induction greedy generalizing before with
  | stop => simp at split
  | @take done rest first found later ih =>
    cases before with
    | nil =>
      obtain ⟨rfl, -⟩ := List.cons.inj split
      exact found
    | cons other before =>
      obtain ⟨rfl, tail⟩ := List.cons.inj split
      rw [← ih tail, runnable_congr (fun x => ?_) (fun _ _ => Iff.rfl)]
      simp only [List.mem_append, List.mem_cons]
      tauto

theorem Greedy.idle (greedy : Greedy dependencies ids done queue) :
    ids.find? (runnable dependencies (queue ++ done)) = none := by
  induction greedy with
  | stop idle => exact idle
  | take _ _ ih =>
    rw [← ih, runnable_congr (fun x => ?_) (fun _ _ => Iff.rfl)]
    simp only [List.mem_append, List.mem_cons]
    tauto

theorem Greedy.fresh (greedy : Greedy dependencies ids done queue) : ∀ x ∈ queue, x ∈ ids ∧ x ∉ done := by
  intro x member
  obtain ⟨before, after, split⟩ := List.append_of_mem member
  have found := greedy.earliest split
  have ready := (runnable_iff.mp (List.find?_some found)).1
  exact ⟨List.mem_of_find?_eq_some found, fun old => ready (List.mem_append_right _ old)⟩

theorem Greedy.nodup (greedy : Greedy dependencies ids done queue) : queue.Nodup := by
  induction greedy with
  | stop => exact .nil
  | take _ later ih =>
    exact List.nodup_cons.mpr ⟨fun again => (later.fresh _ again).2 (by simp), ih⟩

theorem find?_pending : ((ids.filter fun x => !done.contains x).find? fun x =>
    (dependencies x).all done.contains) = ids.find? (runnable dependencies done) := by
  rw [List.find?_filter]
  congr 1
  funext x
  simp only [runnable, Bool.decide_and, Bool.decide_eq_true]

theorem greedy_schedule (distinct : ids.Nodup) : Greedy dependencies ids done
    (schedule dependencies done (ids.filter fun x => !done.contains x)) := by
  generalize left : (ids.filter fun x => !done.contains x) = pending
  fun_induction schedule dependencies done pending with
  | case1 done pending none =>
    rw [← left, find?_pending] at none
    exact .stop none
  | case2 done pending id found ih =>
    have rest : (ids.filter fun x => !(id :: done).contains x) = pending.erase id := by
      rw [← left, (distinct.filter _).erase_eq_filter, List.filter_filter]
      congr 1
      funext x
      rw [List.contains_cons, Bool.not_or, bne]
    rw [← left, find?_pending] at found
    exact .take found (ih rest)

theorem idxOf_le_of_find? {p : String → Bool} {x y : String} (found : ids.find? p = some x)
    (member : y ∈ ids) (holds : p y = true) : ids.idxOf x ≤ ids.idxOf y := by
  obtain ⟨here, before, after, rfl, earlier⟩ := List.find?_eq_some_iff_append.mp found
  have outside {z : String} (passes : p z = true) : z ∉ before := fun inside => by
    simpa [passes] using earlier z inside
  rw [List.idxOf_append_of_notMem (outside here), List.idxOf_append_of_notMem (outside holds),
    List.idxOf_cons_self]
  omega

theorem pairwise_idxOf_le (distinct : ids.Nodup) :
    ids.Pairwise fun x y => ids.idxOf x ≤ ids.idxOf y := by
  rw [List.pairwise_iff_getElem]
  intro m n hm hn lt
  rw [distinct.idxOf_getElem m hm, distinct.idxOf_getElem n hn]
  omega

theorem mergeSort_idxOf_eq {p : String → Bool} {xs : List String} (distinct : ids.Nodup) (once : xs.Nodup)
    (same : ∀ x, x ∈ xs ↔ x ∈ ids.filter p) :
    (xs.mergeSort fun x y => ids.idxOf x ≤ ids.idxOf y) = ids.filter p := by
  have sorts : (xs.mergeSort fun x y => ids.idxOf x ≤ ids.idxOf y).Pairwise
      fun x y => ids.idxOf x ≤ ids.idxOf y := by
    have sorts : (xs.mergeSort fun x y => ids.idxOf x ≤ ids.idxOf y).Pairwise
        fun x y => decide (ids.idxOf x ≤ ids.idxOf y) :=
      List.pairwise_mergeSort (by simpa using fun _ _ _ => Nat.le_trans)
        (by simpa using fun _ _ => Nat.le_total _ _) xs
    exact sorts.imp of_decide_eq_true
  have stands : (ids.filter p).Pairwise fun x y => ids.idxOf x ≤ ids.idxOf y :=
    (pairwise_idxOf_le distinct).filter p
  have permuted : (xs.mergeSort fun x y => ids.idxOf x ≤ ids.idxOf y).Perm (ids.filter p) :=
    (List.mergeSort_perm _ _).trans ((List.perm_ext_iff_of_nodup once (distinct.filter p)).mpr same)
  refine permuted.eq_of_pairwise (fun x y left _ le ge => ?_) sorts stands
  have member : x ∈ ids := (List.mem_filter.mp (permuted.mem_iff.mp left)).1
  exact (List.idxOf_inj member).mp (Nat.le_antisymm le ge)

end Greedy

def PartsEarlier (ids queue other : List String) : Prop :=
  ∃ before x y rest rest', queue = before ++ x :: rest ∧ other = before ++ y :: rest' ∧
    ids.idxOf x < ids.idxOf y

theorem eq_or_part {α : Type} {xs ys : List α} (length : xs.length = ys.length) :
    xs = ys ∨ ∃ before x y rest rest', xs = before ++ x :: rest ∧ ys = before ++ y :: rest' ∧ x ≠ y := by
  induction xs generalizing ys with
  | nil =>
    left
    exact (List.length_eq_zero_iff.mp length.symm).symm
  | cons x xs ih =>
    cases ys with
    | nil => simp at length
    | cons y ys =>
      by_cases same : x = y
      · subst same
        rcases ih (by simpa using length) with rfl | ⟨before, a, b, rest, rest', rfl, rfl, differ⟩
        · exact .inl rfl
        · exact .inr ⟨x :: before, a, b, rest, rest', rfl, rfl, differ⟩
      · exact .inr ⟨[], x, y, xs, ys, rfl, rfl, same⟩

variable {N : Type} {i : Industry N} {queue other : List String}

/-- Every process stands after the processes that it depends on. -/
def DependenciesFirst (i : Industry N) (queue : List String) : Prop :=
  ∀ before id after, queue = before ++ id :: after → ∀ d ∈ i.dependencies id, d ∈ before

theorem Greedy.dependenciesFirst (greedy : Greedy i.dependencies i.ids [] queue) :
    i.DependenciesFirst queue := by
  intro before id after split d dependency
  have ready := List.find?_some (greedy.earliest split)
  rw [List.append_nil] at ready
  exact (runnable_iff.mp ready).2 d dependency

theorem Greedy.least (greedy : Greedy i.dependencies i.ids [] queue) (distinct : i.ids.Nodup)
    (complete : queue.Perm i.ids) (permuted : other.Perm i.ids) (ordered : i.DependenciesFirst other) :
    other = queue ∨ PartsEarlier i.ids queue other := by
  rcases eq_or_part (complete.trans permuted.symm).length_eq with
    same | ⟨before, x, y, rest, rest', here, there, differ⟩
  · exact .inl same.symm
  · right
    refine ⟨before, x, y, rest, rest', here, there, ?_⟩
    have found := greedy.earliest here
    rw [List.append_nil] at found
    -- what the other queue goes on with could have run as well
    have fresh : y ∉ before := by
      have once : (before ++ y :: rest').Nodup := there ▸ permuted.nodup_iff.mpr distinct
      exact fun again => (List.nodup_append.mp once).2.2 y again y (by simp) rfl
    have ready : runnable i.dependencies before y = true :=
      runnable_iff.mpr ⟨fresh, ordered before y rest' there⟩
    have member : y ∈ i.ids := permuted.mem_iff.mp (by simp [there])
    have le := idxOf_le_of_find? found member ready
    have ne : i.ids.idxOf x ≠ i.ids.idxOf y := fun same =>
      differ ((List.idxOf_inj (List.mem_of_find?_eq_some found)).mp same)
    omega

theorem Orderable.wellFounded (orderable : i.Orderable) :
    WellFounded fun d id : { x // x ∈ i.ids } => TransGen i.DependsOn id.1 d.1 := by
  have trans : IsTrans { x // x ∈ i.ids } fun d id => TransGen i.DependsOn id.1 d.1 :=
    ⟨fun _ _ _ first second => second.trans first⟩
  have irrefl : Std.Irrefl fun d id : { x // x ∈ i.ids } => TransGen i.DependsOn id.1 d.1 :=
    ⟨fun x => orderable.acyclic x.1⟩
  exact Finite.wellFounded_of_trans_of_irrefl _

theorem Greedy.perm (greedy : Greedy i.dependencies i.ids [] queue) (distinct : i.ids.Nodup)
    (orderable : i.Orderable) : queue.Perm i.ids := by
  -- a process that is left out, all of whose dependencies are in, could still run
  have all (x : { x // x ∈ i.ids }) : x.1 ∈ queue := by
    induction x using orderable.wellFounded.induction with
    | _ x earlier =>
      by_contra left
      have ready : runnable i.dependencies queue x.1 = true := by
        refine runnable_iff.mpr ⟨left, fun d dependency => ?_⟩
        exact earlier ⟨d, orderable.registered x.1 d dependency⟩ (.single dependency)
      have idle := greedy.idle
      rw [List.append_nil] at idle
      exact List.find?_eq_none.mp idle x.1 x.2 ready
  refine (List.perm_ext_iff_of_nodup greedy.nodup distinct).mpr fun x => ⟨?_, fun known => all ⟨x, known⟩⟩
  exact fun member => (greedy.fresh x member).1

theorem greedy_queue (distinct : i.ids.Nodup) :
    Greedy i.dependencies i.ids [] (schedule i.dependencies [] i.ids) := by
  have greedy : Greedy i.dependencies i.ids [] _ := greedy_schedule distinct
  simpa using greedy

theorem executionQueue_eq_map (distinct : i.ids.Nodup) (named : "" ∉ i.ids) :
    i.executionQueue = i.graph.map fun _ => schedule i.dependencies [] i.ids := by
  cases drawn : i.graph with
  | error fault => simp [executionQueue, drawn, bind, Except.bind, Except.map]
  | ok edges =>
    have orderable := ((graph_eq_ok_iff_orderable distinct named).mp drawn).2
    have length := ((greedy_queue distinct).perm distinct orderable).length_eq
    simp [executionQueue, drawn, bind, Except.bind, Except.map, named, length, pure, Except.pure]

theorem graph_of_queue (ordered : i.executionQueue = .ok queue) :
    "" ∉ i.ids ∧ i.graph = .ok i.wishedEdges := by
  simp only [executionQueue, bind_eq_ok] at ordered
  obtain ⟨edges, drawn, rest⟩ := ordered
  obtain ⟨rfl, -⟩ := graph_eq_ok.mp drawn
  refine ⟨fun blank => ?_, drawn⟩
  rw [if_pos (List.contains_iff_mem.mpr blank)] at rest
  cases rest

theorem exists_queue_iff (distinct : i.ids.Nodup) :
    (∃ queue, i.executionQueue = .ok queue) ↔ "" ∉ i.ids ∧ i.Orderable := by
  constructor
  · rintro ⟨queue, ordered⟩
    obtain ⟨named, drawn⟩ := graph_of_queue ordered
    exact ⟨named, ((graph_eq_ok_iff_orderable distinct named).mp drawn).2⟩
  · rintro ⟨named, orderable⟩
    have drawn := (graph_eq_ok_iff_orderable distinct named).mpr ⟨rfl, orderable⟩
    rw [executionQueue_eq_map distinct named, drawn]
    exact ⟨_, rfl⟩

end Flowsheet.Industry
