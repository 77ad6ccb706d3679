import Flowsheet.Industry.Basic
import Flowsheet.Proofs.Formula.Language
import Flowsheet.Proofs.Industry.Reading
import Flowsheet.Lookup

set_option autoImplicit false

namespace Flowsheet

structure Operation.WellFormed {N : Type} (o : Operation N) : Prop where
  declared : ∀ x ∈ o.formula.identifiers, ∃ a ∈ o.args, a.name = x
  spelled : ∀ x ∈ o.formula.identifiers, Formula.IsIdentifier x

theorem Operation.Reads.wellFormed {N : Type} [Quantity N] {item : Item N} {o : Operation N}
    (reads : o.Reads item) : o.WellFormed :=
  ⟨reads.declared, fun x used =>
    Formula.isIdentifier_of_parseBytes reads.formula x (Formula.mem_identifiers.mp used)⟩

structure Process.WellFormed {N : Type} (p : Process N) : Prop where
  operations : ∀ o ∈ p.operations, o.WellFormed
  names : p.operations.map (·.name) = p.outputs.map (·.name)

theorem Process.operations_of_compile {N : Type} [Quantity N] {r : ProcessRecord N} {p : Process N}
    (compiled : r.compile = .ok p) :
    List.Forall₂ (fun output o => o.Reads output.toItem) r.outputs p.operations :=
  (ProcessRecord.compile_eq_ok.mp compiled).2.2.2.imp fun _ _ both => both.1

theorem names_of_reads {N α : Type} [Quantity N] {xs : List α} {os : List (Operation N)} {item : α → Item N}
    (pairs : List.Forall₂ (fun x o => o.Reads (item x)) xs os) : os.map (·.name) = xs.map fun x => (item x).name := by
  induction pairs with
  | nil => rfl
  | cons first _ ih => rw [List.map_cons, List.map_cons, ih, first.name]

theorem Process.names_of_compile {N : Type} [Quantity N] {r : ProcessRecord N} {p : Process N}
    (compiled : r.compile = .ok p) : p.operations.map (·.name) = p.outputs.map (·.name) := by
  rw [names_of_reads (Process.operations_of_compile compiled), (ProcessRecord.compile_eq_ok.mp compiled).2.2.1]

theorem Process.wellFormed_of_compile {N : Type} [Quantity N] {r : ProcessRecord N} {p : Process N}
    (compiled : r.compile = .ok p) : p.WellFormed := by
  refine ⟨fun o member => ?_, Process.names_of_compile compiled⟩
  obtain ⟨output, -, reads⟩ := exists_left_of_mem (Process.operations_of_compile compiled) member
  exact reads.wellFormed

structure MetaProcess.WellFormed {N : Type} (m : MetaProcess N) : Prop where
  demands : ∀ d ∈ m.demands, d.toOperation.WellFormed
  closing : ∀ o ∈ m.closing, o.WellFormed

theorem MetaProcess.WellFormed.demandsFor {N : Type} {m : MetaProcess N} (formed : m.WellFormed)
    (id : String) : ∀ o ∈ (m.demandsFor id).map (·.toOperation), o.WellFormed := by
  intro o member
  obtain ⟨d, inside, rfl⟩ := List.mem_map.mp member
  exact formed.demands d (List.mem_filter.mp inside).1

theorem MetaProcess.wellFormed_of_compile {N : Type} [Quantity N] {r : IndustryRecord N} {m : MetaProcess N}
    (compiled : r.compile = .ok m) : m.WellFormed := by
  obtain ⟨-, -, -, -, ⟨-, demands⟩, -, closing⟩ := IndustryRecord.compile_eq_ok.mp compiled
  constructor
  · intro q member
    obtain ⟨d, -, reads, -⟩ := exists_left_of_mem demands member
    exact reads.wellFormed
  · intro o member
    obtain ⟨item, -, reads⟩ := exists_left_of_mem closing member
    exact reads.wellFormed

namespace Industry

section Lookup

variable {N : Type} {i j : Industry N} {id : String} {p : Process N}

theorem mem_processes_of_process? (found : i.process? id = some p) : (id, p) ∈ i.processes :=
  mem_of_lookup found

theorem process?_eq_some_iff (distinct : i.ids.Nodup) :
    i.process? id = some p ↔ (id, p) ∈ i.processes := by
  refine ⟨mem_processes_of_process?, fun member => ?_⟩
  obtain ⟨before, after, split⟩ := List.append_of_mem member
  refine List.lookup_eq_some_iff.mpr ⟨before, after, split, fun q inside => ?_⟩
  rw [ids, split, List.map_append, List.map_cons] at distinct
  have apart := (List.nodup_append.mp distinct).2.2 q.1 (List.mem_map_of_mem inside) id (by simp)
  exact bne_iff_ne.mpr (Ne.symm apart)

theorem isSome_process?_iff : (i.process? id).isSome ↔ id ∈ i.ids := by
  rw [process?, List.lookup_isSome_iff, ids, List.mem_map]
  constructor
  · rintro ⟨q, member, same⟩
    exact ⟨q, member, (beq_iff_eq.mp same).symm⟩
  · rintro ⟨q, member, rfl⟩
    exact ⟨q, member, beq_self_eq_true _⟩

theorem addProcess_eq_ok :
    i.addProcess id p = .ok j ↔ id ∉ i.ids ∧ j = { i with processes := i.processes ++ [(id, p)] } := by
  simp only [addProcess, isSome_process?_iff]
  by_cases taken : id ∈ i.ids
  · simp [taken]
  · simp only [taken, if_false, not_false_eq_true, true_and, Except.ok.injEq]
    exact eq_comm

end Lookup

/-- The industries that adding compiled processes and setting a compiled meta-process gives. -/
inductive Built {N : Type} [Quantity N] : Industry N → Prop where
  | empty (bounds : N × N) : Built { defaultBounds := bounds }
  | add {i j : Industry N} {id : String} {r : ProcessRecord N} {p : Process N} (earlier : Built i)
      (compiled : r.compile = .ok p) (added : i.addProcess id p = .ok j) : Built j
  | setMeta {i : Industry N} {r : IndustryRecord N} {m : MetaProcess N} (earlier : Built i)
      (compiled : r.compile = .ok m) : Built (i.setMeta m)

theorem built_of_processes {N : Type} [Quantity N] {ps : List (String × Process N)}
    (ids : (ps.map (·.1)).Nodup) (compiled : ∀ q ∈ ps, q.2.toProcessRecord.compile = .ok q.2)
    (bounds : N × N) : Built { processes := ps, defaultBounds := bounds } := by
  -- processes are added at the end
  induction ps using List.reverseRecOn with
  | nil => exact .empty bounds
  | append_singleton ps q ih =>
    simp only [List.map_append, List.nodup_append] at ids
    have fresh : q.1 ∉ ps.map (·.1) := fun member => ids.2.2 q.1 member q.1 (by simp) rfl
    have rest := ih ids.1 (fun q' member => compiled q' (List.mem_append_left _ member))
    have added : addProcess { processes := ps, defaultBounds := bounds } q.1 q.2 =
        .ok { processes := ps ++ [q], defaultBounds := bounds } := addProcess_eq_ok.mpr ⟨fresh, rfl⟩
    exact rest.add (compiled q (by simp)) added

theorem built_of_compile {N : Type} [Quantity N] {i : Industry N} {r : IndustryRecord N}
    {m : MetaProcess N} (ids : i.ids.Nodup) (processes : ∀ q ∈ i.processes, q.2.toProcessRecord.compile = .ok q.2)
    (compiled : r.compile = .ok m) (set : i.metaProcess = some m) : Built i := by
  obtain ⟨metaProcess, ps, bounds⟩ := i
  obtain rfl : metaProcess = some m := set
  exact (built_of_processes ids processes bounds).setMeta compiled

structure WellFormed {N : Type} (i : Industry N) : Prop where
  ids : i.ids.Nodup
  processes : ∀ q ∈ i.processes, q.2.WellFormed
  metaProcess : ∀ m ∈ i.metaProcess, m.WellFormed

section Parts

variable {N : Type} [Quantity N] {i : Industry N}

theorem Built.ids_nodup (built : Built i) : i.ids.Nodup := by
  induction built with
  | empty bounds => simp [ids]
  | @add i j id _ p _ _ added distinct =>
    obtain ⟨fresh, rfl⟩ := addProcess_eq_ok.mp added
    have appended : (i.ids ++ [id]).Nodup := List.nodup_append.mpr
      ⟨distinct, by simp, by rintro x member _ (⟨⟩ | ⟨_, ⟨⟩⟩) rfl; exact fresh member⟩
    simpa [ids] using appended
  | setMeta _ _ distinct => exact distinct

theorem Built.forall_process {P : Process N → Prop}
    (compiled : ∀ {r : ProcessRecord N} {p : Process N}, r.compile = .ok p → P p) (built : Built i) :
    ∀ q ∈ i.processes, P q.2 := by
  induction built with
  | empty bounds => simp
  | add _ read added all =>
    obtain ⟨-, rfl⟩ := addProcess_eq_ok.mp added
    intro q member
    rcases List.mem_append.mp member with old | new
    · exact all q old
    · rw [List.mem_singleton.mp new]
      exact compiled read
  | setMeta _ _ all => exact all

theorem Built.forall_meta {P : MetaProcess N → Prop}
    (compiled : ∀ {r : IndustryRecord N} {m : MetaProcess N}, r.compile = .ok m → P m)
    (built : Built i) : ∀ m ∈ i.metaProcess, P m := by
  induction built with
  | empty bounds => simp
  | add _ _ added all =>
    obtain ⟨-, rfl⟩ := addProcess_eq_ok.mp added
    exact all
  | setMeta _ read _ =>
    rintro m ⟨rfl⟩
    exact compiled read

theorem Built.wellFormed (built : Built i) : i.WellFormed :=
  ⟨built.ids_nodup, built.forall_process Process.wellFormed_of_compile,
    built.forall_meta MetaProcess.wellFormed_of_compile⟩

end Parts

end Industry

end Flowsheet
