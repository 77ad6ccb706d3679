import Flowsheet.Proofs.Industry.Built

set_option autoImplicit false

namespace Flowsheet

variable {N : Type}

structure MetaProcess.Distinct (m : MetaProcess N) : Prop where
  demands : (m.demands.map (·.name)).Nodup
  closing : (m.closing.map (·.name)).Nodup
  operations : (m.operations.map (·.name)).Nodup

variable [Quantity N]

theorem Process.nodup_of_compile {r : ProcessRecord N} {p : Process N} (compiled : r.compile = .ok p) :
    (p.operations.map (·.name)).Nodup := by
  obtain ⟨-, names, record, -⟩ := ProcessRecord.compile_eq_ok.mp compiled
  rw [Process.names_of_compile compiled, record]
  exact (ProcessRecord.checkNames_eq_ok.mp names).2

theorem Requirement.names_of_reads {demands : List (Demand N)} {qs : List (Requirement N)}
    (pairs : List.Forall₂ (fun d q => q.Reads d) demands qs) : qs.map (·.name) = demands.map (·.name) := by
  induction pairs with
  | nil => rfl
  | cons first _ ih => rw [List.map_cons, List.map_cons, ih, first.1.name]

theorem IndustryRecord.names_of_compile {r : IndustryRecord N} {m : MetaProcess N}
    (compiled : r.compile = .ok m) :
    m.demands.map (·.name) = r.demands.map (·.name) ∧
      m.closing.map (·.name) = r.metaDemands.map (·.name) ++ r.outputs.map (·.name) ∧ m.Distinct := by
  obtain ⟨-, -, -, -, ⟨unlike, demands⟩, closes, closing⟩ := IndustryRecord.compile_eq_ok.mp compiled
  have named := Requirement.names_of_reads demands
  have names := names_of_reads closing
  refine ⟨named, by simp [names, closingItems], named ▸ unlike.1, names ▸ closes.1, ?_⟩
  have plain : ((MetaProcess.plainDemands m.demands).map (·.name)).Sublist (m.demands.map (·.name)) := by
    rw [MetaProcess.plainDemands, List.map_map]
    exact List.filter_sublist.map _
  rw [MetaProcess.operations, List.map_append, names,
    ← fresh_iff_nodup_append (plain.nodup (named ▸ unlike.1))]
  exact closes

end Flowsheet
