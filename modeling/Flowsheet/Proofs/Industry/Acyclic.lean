import Mathlib.Logic.Relation
import Flowsheet.Industry.Graph
import Flowsheet.Proofs.Industry.Built

set_option autoImplicit false

namespace Flowsheet

open Relation

namespace Edge

def Joins (edges : List Edge) (x y : String) : Prop := ⟨x, y⟩ ∈ edges

def Acyclic (edges : List Edge) : Prop := ∀ x, ¬ TransGen (Joins edges) x x

theorem mem_expand {edges : List Edge} {nodes : List String} {y : String} :
    y ∈ expand edges nodes ↔ y ∈ nodes ∨ ∃ x ∈ nodes, Joins edges x y := by
  simp only [expand, List.mem_eraseDups, List.mem_append, List.mem_map, List.mem_filter,
    List.contains_iff_mem, Joins]
  constructor
  · rintro (inside | ⟨⟨x, y⟩, ⟨edge, source⟩, rfl⟩)
    · exact .inl inside
    · exact .inr ⟨x, source, edge⟩
  · rintro (inside | ⟨x, source, edge⟩)
    · exact .inl inside
    · exact .inr ⟨⟨x, y⟩, ⟨edge, source⟩, rfl⟩

theorem within_succ (edges : List Edge) (n : Nat) (nodes : List String) :
    within edges (n + 1) nodes = expand edges (within edges n nodes) := by
  induction n generalizing nodes with
  | zero => rfl
  | succ n ih => exact ih (expand edges nodes)

theorem path_of_mem_within {edges : List Edge} {n : Nat} {nodes : List String} {y : String}
    (member : y ∈ within edges n nodes) : ∃ x ∈ nodes, ReflTransGen (Joins edges) x y := by
  induction n generalizing y with
  | zero => exact ⟨y, member, .refl⟩
  | succ n ih =>
    rw [within_succ, mem_expand] at member
    rcases member with inside | ⟨z, inside, edge⟩
    · exact ih inside
    · obtain ⟨x, start, path⟩ := ih inside
      exact ⟨x, start, path.tail edge⟩

def Closed (edges : List Edge) (nodes : List String) : Prop :=
  ∀ x ∈ nodes, ∀ y, Joins edges x y → y ∈ nodes

theorem Closed.mem_of_path {edges : List Edge} {nodes : List String} (closed : Closed edges nodes)
    {x y : String} (path : ReflTransGen (Joins edges) x y) (start : x ∈ nodes) : y ∈ nodes := by
  induction path with
  | refl => exact start
  | tail _ edge inside => exact closed _ inside _ edge

def enteredBy (edges : List Edge) (nodes : List String) : Nat :=
  edges.countP fun e => nodes.contains e.target

theorem countP_lt_countP {α : Type} {p q : α → Bool} {xs : List α} (grows : ∀ x ∈ xs, p x → q x)
    {x : α} (member : x ∈ xs) (out : p x = false) (into : q x = true) : xs.countP p < xs.countP q := by
  obtain ⟨before, after, rfl⟩ := List.append_of_mem member
  have first : before.countP p ≤ before.countP q :=
    List.countP_mono_left fun y inside => grows y (by simp [inside])
  have last : after.countP p ≤ after.countP q :=
    List.countP_mono_left fun y inside => grows y (by simp [inside])
  simp only [List.countP_append, List.countP_cons, out, into, Bool.false_eq_true, if_false, if_true]
  omega

theorem enteredBy_lt_expand {edges : List Edge} {nodes : List String} {x y : String}
    (edge : Joins edges x y) (source : x ∈ nodes) (target : y ∉ nodes) :
    enteredBy edges nodes < enteredBy edges (expand edges nodes) := by
  apply countP_lt_countP _ edge
  · simpa using target
  · exact List.contains_iff_mem.mpr (mem_expand.mpr (.inr ⟨x, source, edge⟩))
  · intro e _ entered
    rw [List.contains_iff_mem] at entered ⊢
    exact mem_expand.mpr (.inl entered)

theorem closed_or_le_enteredBy (edges : List Edge) (nodes : List String) (n : Nat) :
    Closed edges (within edges n nodes) ∨ n ≤ enteredBy edges (within edges n nodes) := by
  induction n with
  | zero => exact .inr (Nat.zero_le _)
  | succ n ih =>
    by_cases closed : Closed edges (within edges n nodes)
    · left
      rw [within_succ]
      intro x member y edge
      rw [mem_expand] at member ⊢
      have inside : x ∈ within edges n nodes := by
        rcases member with inside | ⟨z, inside, earlier⟩
        · exact inside
        · exact closed z inside x earlier
      exact .inl (closed x inside y edge)
    · -- an edge that leads out of the set makes the next set larger
      have grown := ih.resolve_left closed
      simp only [Closed, not_forall] at closed
      obtain ⟨x, source, y, edge, target⟩ := closed
      have larger := enteredBy_lt_expand edge source target
      rw [within_succ]
      omega

theorem closed_within_length (edges : List Edge) (nodes : List String) :
    Closed edges (within edges edges.length nodes) := by
  rcases closed_or_le_enteredBy edges nodes edges.length with closed | full
  · exact closed
  · -- every edge ends in the set
    have all := List.countP_eq_length.mp (Nat.le_antisymm List.countP_le_length full)
    intro x _ y edge
    exact List.contains_iff_mem.mp (all ⟨x, y⟩ edge)

theorem subset_within (edges : List Edge) (n : Nat) (nodes : List String) :
    nodes ⊆ within edges n nodes := by
  induction n with
  | zero => exact List.Subset.refl nodes
  | succ n ih =>
    intro x member
    rw [within_succ]
    exact mem_expand.mpr (.inl (ih member))

theorem reaches_iff {edges : List Edge} {source target : String} :
    reaches edges source target = true ↔ ReflTransGen (Joins edges) source target := by
  rw [reaches, List.contains_iff_mem]
  constructor
  · intro member
    obtain ⟨x, start, path⟩ := path_of_mem_within member
    obtain rfl := List.mem_singleton.mp start
    exact path
  · intro path
    exact (closed_within_length edges [source]).mem_of_path path
      (subset_within edges edges.length [source] (by simp))

theorem Joins.append {edges : List Edge} {x y : String} (edge : Joins edges x y)
    (more : List Edge) : Joins (edges ++ more) x y := List.mem_append_left _ edge

theorem Acyclic.of_append {edges more : List Edge} (acyclic : Acyclic (edges ++ more)) :
    Acyclic edges := fun x loop => acyclic x (TransGen.mono (fun _ _ edge => edge.append more) _ _ loop)

theorem path_append_singleton {edges : List Edge} {e : Edge} {x y : String}
    (path : TransGen (Joins (edges ++ [e])) x y) :
    TransGen (Joins edges) x y ∨
      (ReflTransGen (Joins edges) x e.source ∧ ReflTransGen (Joins edges) e.target y) := by
  have one {x y : String} (edge : Joins (edges ++ [e]) x y) :
      Joins edges x y ∨ (x = e.source ∧ y = e.target) := by
    rcases List.mem_append.mp edge with old | new
    · exact .inl old
    · obtain rfl := List.mem_singleton.mp new
      exact .inr ⟨rfl, rfl⟩
  induction path with
  | single edge =>
    rcases one edge with old | ⟨rfl, rfl⟩
    · exact .inl (.single old)
    · exact .inr ⟨.refl, .refl⟩
  | tail _ edge ih =>
    rcases one edge with old | ⟨rfl, rfl⟩
    · rcases ih with path | ⟨into, out⟩
      · exact .inl (path.tail old)
      · exact .inr ⟨into, out.tail old⟩
    · rcases ih with path | ⟨into, -⟩
      · exact .inr ⟨path.to_reflTransGen, .refl⟩
      · exact .inr ⟨into, .refl⟩

theorem acyclic_append_singleton {edges : List Edge} {e : Edge} :
    Acyclic (edges ++ [e]) ↔
      Acyclic edges ∧ ¬ ReflTransGen (Joins edges) e.target e.source := by
  have last : Joins (edges ++ [e]) e.source e.target := List.mem_append_right _ (by simp)
  constructor
  · intro acyclic
    refine ⟨acyclic.of_append, fun back => ?_⟩
    have path : ReflTransGen (Joins (edges ++ [e])) e.target e.source :=
      ReflTransGen.mono (fun _ _ edge => edge.append [e]) _ _ back
    exact acyclic e.source (.head' last path)
  · rintro ⟨acyclic, noWayBack⟩ x loop
    rcases path_append_singleton loop with path | ⟨into, out⟩
    · exact acyclic x path
    · exact noWayBack (out.trans into)

end Edge

namespace Industry

variable {N : Type}

def Admissible (i : Industry N) (e : Edge) : Prop :=
  (i.process? e.source).isSome ∧ e.target ≠ ""

theorem addEdge_eq_ok {i : Industry N} {edges edges' : List Edge} {e : Edge} :
    i.addEdge edges e = .ok edges' ↔
      i.Admissible e ∧ ¬ ReflTransGen (Edge.Joins edges) e.target e.source ∧
        edges' = edges ++ [e] := by
  rw [addEdge, Admissible, ← Edge.reaches_iff]
  by_cases self : e.source = e.target
  · have loop : Edge.reaches edges e.target e.source = true := by
      rw [Edge.reaches_iff, self]
    simp [self, self ▸ loop]
  · cases found : i.process? e.source with
    | none => simp [self]
    | some p =>
      by_cases blank : e.target = ""
      · have other : e.source ≠ "" := fun same => self (same.trans blank.symm)
        simp [other, blank]
      · by_cases loop : Edge.reaches edges e.target e.source = true
        · simp [self, blank, loop]
        · simp only [self, blank, loop, if_false, Option.isNone_some, Bool.false_eq_true,
            Except.ok.injEq, Option.isSome_some, ne_eq, not_false_eq_true, true_and]
          exact eq_comm

theorem foldlM_addEdge_eq_ok {i : Industry N} {new old edges : List Edge} (acyclic : Edge.Acyclic old) :
    new.foldlM i.addEdge old = .ok edges ↔
      edges = old ++ new ∧ Edge.Acyclic (old ++ new) ∧ ∀ e ∈ new, i.Admissible e := by
  induction new generalizing old with
  | nil =>
    simp only [List.foldlM_nil, List.append_nil, List.not_mem_nil, false_implies, implies_true,
      and_true, acyclic]
    exact ⟨fun done => (Except.ok.inj done).symm, fun same => by rw [same]; rfl⟩
  | cons e new ih =>
    have shift : old ++ e :: new = (old ++ [e]) ++ new := by simp
    rw [foldlM_cons_eq_ok, shift]
    constructor
    · rintro ⟨between, first, rest⟩
      obtain ⟨admissible, noWayBack, rfl⟩ := addEdge_eq_ok.mp first
      obtain ⟨rfl, final, others⟩ :=
        (ih (Edge.acyclic_append_singleton.mpr ⟨acyclic, noWayBack⟩)).mp rest
      exact ⟨rfl, final, List.forall_mem_cons.mpr ⟨admissible, others⟩⟩
    · rintro ⟨rfl, final, admissible⟩
      obtain ⟨here, others⟩ := List.forall_mem_cons.mp admissible
      have next : Edge.Acyclic (old ++ [e]) := final.of_append
      have noWayBack := (Edge.acyclic_append_singleton.mp next).2
      exact ⟨_, addEdge_eq_ok.mpr ⟨here, noWayBack, rfl⟩, (ih next).mpr ⟨rfl, final, others⟩⟩

theorem graph_eq_ok {i : Industry N} {edges : List Edge} :
    i.graph = .ok edges ↔
      edges = i.wishedEdges ∧ Edge.Acyclic i.wishedEdges ∧ ∀ e ∈ i.wishedEdges, i.Admissible e := by
  have empty : Edge.Acyclic [] := by
    intro x loop
    obtain ⟨y, edge, -⟩ := TransGen.head'_iff.mp loop
    cases edge
  exact foldlM_addEdge_eq_ok empty

theorem graph_ne_unordered (i : Industry N) (left total : Nat) :
    i.graph ≠ .error (.unordered left total) := by
  intro failed
  obtain ⟨_, e, _, edges, -, -, step⟩ := foldlM_eq_error.mp failed
  unfold addEdge at step
  split_ifs at step
  all_goals cases step

def DependsOn (i : Industry N) (id d : String) : Prop := d ∈ i.dependencies id

/-- Every dependency is a process of the industry, and no process depends on itself, not even
through others. -/
structure Orderable (i : Industry N) : Prop where
  registered : ∀ id d, i.DependsOn id d → d ∈ i.ids
  acyclic : ∀ id, ¬ TransGen i.DependsOn id id

theorem joins_wishedEdges {i : Industry N} (distinct : i.ids.Nodup) {d id : String} :
    Edge.Joins i.wishedEdges d id ↔ i.DependsOn id d := by
  simp only [Edge.Joins, wishedEdges, List.mem_flatMap, List.mem_map, Edge.mk.injEq, DependsOn,
    dependencies]
  constructor
  · rintro ⟨⟨id, p⟩, member, d, dependency, rfl, rfl⟩
    simpa [(process?_eq_some_iff distinct).mpr member] using dependency
  · intro dependency
    cases found : i.process? id with
    | none => simp [found] at dependency
    | some p =>
      exact ⟨(id, p), (process?_eq_some_iff distinct).mp found, d, by simpa [found] using dependency,
        rfl, rfl⟩

theorem mem_ids_of_dependsOn {i : Industry N} {id d : String} (depends : i.DependsOn id d) :
    id ∈ i.ids := by
  rw [← isSome_process?_iff]
  cases found : i.process? id with
  | none => simp [DependsOn, dependencies, found] at depends
  | some p => rfl

theorem graph_eq_ok_iff_orderable {i : Industry N} (distinct : i.ids.Nodup) (named : "" ∉ i.ids)
    {edges : List Edge} : i.graph = .ok edges ↔ edges = i.wishedEdges ∧ i.Orderable := by
  have joins : Edge.Joins i.wishedEdges = Function.swap i.DependsOn := by
    funext d id
    exact propext (joins_wishedEdges distinct)
  have acyclic : Edge.Acyclic i.wishedEdges ↔ ∀ id, ¬ TransGen i.DependsOn id id := by
    rw [Edge.Acyclic, joins]
    simp only [transGen_swap]
  have admissible : (∀ e ∈ i.wishedEdges, i.Admissible e) ↔
      ∀ id d, i.DependsOn id d → d ∈ i.ids := by
    constructor
    · intro all id d depends
      have edge : (⟨d, id⟩ : Edge) ∈ i.wishedEdges := (joins_wishedEdges distinct).mpr depends
      exact isSome_process?_iff.mp (all _ edge).1
    · rintro all ⟨d, id⟩ edge
      have depends : i.DependsOn id d := (joins_wishedEdges distinct).mp edge
      refine ⟨isSome_process?_iff.mpr (all id d depends), fun blank => named ?_⟩
      exact blank ▸ mem_ids_of_dependsOn depends
  rw [graph_eq_ok, acyclic, admissible]
  constructor
  · rintro ⟨rfl, loopless, known⟩
    exact ⟨rfl, known, loopless⟩
  · rintro ⟨rfl, known, loopless⟩
    exact ⟨rfl, loopless, known⟩

end Industry

end Flowsheet
