import Flowsheet.Industry.Check
import Flowsheet.Proofs.Industry.Built

set_option autoImplicit false

namespace Flowsheet.Industry

variable {N : Type} {i : Industry N} {m : MetaProcess N} {owner id : String}

theorem checkInput_eq_ok_iff {input : Input N} : i.checkInput owner input = .ok () ↔
    (input.isExternal → ∃ p, i.process? input.origin = some p ∧
      ∃ output, p.output? input.name = some output ∧ output.units = input.units) := by
  rw [checkInput]
  cases input.isExternal with
  | false => simp
  | true =>
    cases i.process? input.origin with
    | none => simp
    | some p => cases output : p.output? input.name <;> simp [output]

theorem checkDemand_eq_ok_iff {d : Requirement N} : i.checkDemand owner d = .ok () ↔
    ∃ p, i.process? d.used = some p ∧ ∃ input, p.input? d.name = some input ∧ input.units = d.units := by
  rw [checkDemand]
  cases i.process? d.used with
  | none => simp
  | some p => cases input : p.input? d.name <;> simp [input, eq_comm]

theorem checkSupplied_eq_ok_iff {p : Process N} :
    checkSupplied m id p = .ok () ↔ ∀ x ∈ p.methodArgs, isSupplied m id p x = true := by
  have none : (p.methodArgs.find? fun x => !isSupplied m id p x) = none ↔
      ∀ x ∈ p.methodArgs, isSupplied m id p x = true := by
    simp only [List.find?_eq_none, Bool.not_eq_true', Bool.not_eq_false]
  rw [checkSupplied, ← none]
  cases p.methodArgs.find? fun x => !isSupplied m id p x <;> simp

theorem check_eq_ok_iff : i.check = .ok () ↔ ∃ m, i.metaProcess = some m ∧
    (∀ input ∈ m.inputs, i.checkInput m.name input = .ok ()) ∧
      (∀ q ∈ i.processes, ∀ input ∈ q.2.inputs, i.checkInput q.2.name input = .ok ()) ∧
        (∀ d ∈ m.demands, i.checkDemand m.name d = .ok ()) ∧
          ∀ q ∈ i.processes, checkSupplied m q.1 q.2 = .ok () := by
  rw [check, requireMeta]
  cases i.metaProcess with
  | none => simp [bind, Except.bind]
  | some m =>
    rw [bind_eq_ok]
    simp only [Except.ok.injEq, Option.some.injEq, exists_eq_left', then_eq_ok, forM_eq_ok]

/-- What an input from another process needs there: an output of its name, in its units. -/
def Sourced (i : Industry N) (input : Input N) : Prop :=
  input.isExternal → ∃ p, (input.origin, p) ∈ i.processes ∧
    ∃ output ∈ p.outputs, output.name = input.name ∧ output.units = input.units

/-- What a demand needs in the process that uses it: an input of its name, in its units. -/
def Awaited (i : Industry N) (d : Requirement N) : Prop :=
  ∃ p, (d.used, p) ∈ i.processes ∧ ∃ input ∈ p.inputs, input.name = d.name ∧ input.units = d.units

/-- An argument comes from another process, has a value of its own, or is demanded. -/
def Valued (m : MetaProcess N) (id : String) (p : Process N) (x : String) : Prop :=
  (∃ input ∈ p.inputs, input.name = x ∧ (input.isExternal ∨ input.value ≠ [])) ∨
    ∃ d ∈ m.demands, d.used = id ∧ d.name = x

@[mk_iff] structure Consistent (i : Industry N) (m : MetaProcess N) : Prop where
  sources : ∀ input ∈ m.inputs, i.Sourced input
  inputs : ∀ q ∈ i.processes, ∀ input ∈ q.2.inputs, i.Sourced input
  demands : ∀ d ∈ m.demands, i.Awaited d
  arguments : ∀ q ∈ i.processes, ∀ x ∈ q.2.methodArgs, Valued m q.1 q.2 x

theorem isSupplied_iff {p : Process N} (names : p.checkNames = .ok ()) {x : String} :
    isSupplied m id p x = true ↔ Valued m id p x := by
  have own : (p.input? x).any (fun input => input.isExternal || !input.value.isEmpty) = true ↔
      ∃ input ∈ p.inputs, input.name = x ∧ (input.isExternal ∨ input.value ≠ []) := by
    simp only [Option.any_eq_true, ProcessRecord.input?,
      find?_name_eq_some_iff (ProcessRecord.checkNames_eq_ok.mp names).1, Bool.or_eq_true,
      Bool.not_eq_true', List.isEmpty_eq_false_iff, and_assoc]
  have demanded : (m.demandsFor id).any (·.name == x) = true ↔ ∃ d ∈ m.demands, d.used = id ∧ d.name = x := by
    simp only [MetaProcess.demandsFor, List.any_eq_true, List.mem_filter, beq_iff_eq, and_assoc]
  rw [isSupplied, Bool.or_eq_true, own, demanded, Valued]

section Distinct

variable (distinct : i.ids.Nodup) (names : ∀ q ∈ i.processes, q.2.checkNames = .ok ())

include distinct names

theorem checkInput_eq_ok {input : Input N} : i.checkInput owner input = .ok () ↔ i.Sourced input := by
  rw [checkInput_eq_ok_iff, Sourced]
  refine imp_congr_right fun _ => exists_congr fun p => ?_
  rw [process?_eq_some_iff distinct]
  refine and_congr_right fun member => ?_
  simp only [ProcessRecord.output?, and_assoc,
    find?_name_eq_some_iff (ProcessRecord.checkNames_eq_ok.mp (names _ member)).2]

theorem checkDemand_eq_ok {d : Requirement N} : i.checkDemand owner d = .ok () ↔ i.Awaited d := by
  rw [checkDemand_eq_ok_iff, Awaited]
  refine exists_congr fun p => ?_
  rw [process?_eq_some_iff distinct]
  refine and_congr_right fun member => ?_
  simp only [ProcessRecord.input?, and_assoc,
    find?_name_eq_some_iff (ProcessRecord.checkNames_eq_ok.mp (names _ member)).1]

theorem check_iff_consistent : i.check = .ok () ↔ ∃ m, i.metaProcess = some m ∧ i.Consistent m := by
  have supplied (m : MetaProcess N) : (∀ q ∈ i.processes, checkSupplied m q.1 q.2 = .ok ()) ↔
      ∀ q ∈ i.processes, ∀ x ∈ q.2.methodArgs, Valued m q.1 q.2 x := by
    refine forall₂_congr fun q member => ?_
    rw [checkSupplied_eq_ok_iff]
    exact forall₂_congr fun x _ => isSupplied_iff (names q member)
  simp only [check_eq_ok_iff, checkInput_eq_ok distinct names, checkDemand_eq_ok distinct names, supplied,
    consistent_iff]

end Distinct

end Flowsheet.Industry
