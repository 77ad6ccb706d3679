import Mathlib.Data.List.Forall2
import Flowsheet.Proofs.Formula.Canonical
import Flowsheet.Proofs.Industry.Built
import Flowsheet.Proofs.Industry.Distinct

set_option autoImplicit false

namespace Flowsheet

structure FirstOccurrences (xs ys : List String) : Prop where
  nodup : ys.Nodup
  mem : ∀ x, x ∈ ys ↔ x ∈ xs
  order : ys.Pairwise fun x y => xs.idxOf x < xs.idxOf y

theorem firstOccurrences_eraseDups (xs : List String) : FirstOccurrences xs xs.eraseDups :=
  ⟨nodup_eraseDups xs, fun _ => List.mem_eraseDups, inOrder_eraseDups xs⟩

variable {N : Type} [Quantity N]

def Range.Holds (r : Range N) (declared : List N) : Prop :=
  ∃ lo hi, r = [lo, hi] ∧ Quantity.lt hi lo = false ∧
    ∀ v ∈ declared, Quantity.le lo v = true ∧ Quantity.le v hi = true

theorem checkRange_eq_ok {what name owner shown : String} {range : Option (Range N)} {declared : List N} :
    checkRange what name owner range shown declared = .ok () ↔ ∀ r ∈ range, r.Holds declared := by
  cases range with
  | none => simp [checkRange]
  | some r =>
    simp only [checkRange, then_eq_ok, mapError_eq_ok, Range.validate_eq_ok_iff, Option.mem_some_iff,
      forall_eq', Range.Holds]
    have within {lo hi : N} : (declared.all (Range.contains [lo, hi]) = true) ↔
        ∀ v ∈ declared, Quantity.le lo v = true ∧ Quantity.le v hi = true := by
      simp [Range.contains]
    constructor
    · rintro ⟨⟨lo, hi, rfl, ordered⟩, inside⟩
      split at inside
      next all => exact ⟨lo, hi, rfl, ordered, within.mp all⟩
      · cases inside
    · rintro ⟨lo, hi, rfl, ordered, inside⟩
      exact ⟨⟨lo, hi, rfl, ordered⟩, if_pos (within.mpr inside)⟩

/-- Every range of a process is sound, and met by what is declared. -/
structure ProcessRecord.RangesHold (r : ProcessRecord N) : Prop where
  constants : ∀ c ∈ r.constants, ∀ range ∈ c.range, Range.Holds range [c.value]
  inputs : ∀ input ∈ r.inputs, ∀ range ∈ input.range, Range.Holds range input.value
  outputs : ∀ output ∈ r.outputs, ∀ range ∈ output.range, Range.Holds range output.value.toList

theorem ProcessRecord.validate_eq_ok {r : ProcessRecord N} : r.validate = .ok () ↔ r.RangesHold := by
  simp only [validate, then_eq_ok, forM_eq_ok, Constant.validate, Input.validate, Output.validate,
    checkRange_eq_ok]
  exact ⟨fun ⟨constants, inputs, outputs⟩ => ⟨constants, inputs, outputs⟩,
    fun ⟨constants, inputs, outputs⟩ => ⟨constants, inputs, outputs⟩⟩

theorem IndustryRecord.validate_eq_ok {r : IndustryRecord N} :
    r.validate = .ok () ↔ r.RangesHold ∧ r.outcome.name ≠ "" ∧ ∀ range ∈ r.outcome.range, Range.Holds range [] := by
  rw [validate, then_eq_ok, ProcessRecord.validate_eq_ok]
  refine and_congr_right fun _ => ?_
  by_cases unnamed : r.outcome.name = ""
  · simp [unnamed]
  · cases range : r.outcome.range with
    | none => simp [unnamed]
    | some bounds =>
      simp only [unnamed, if_false, mapError_eq_ok, Range.validate_eq_ok_iff, ne_eq, not_false_eq_true,
        true_and, Option.mem_some_iff, forall_eq', Range.Holds, List.not_mem_nil, false_implies,
        implies_true, and_true]

/-- What a process is read from: each output gives its operation, in order. -/
structure Process.ReadFrom (r : ProcessRecord N) (p : Process N) : Prop where
  record : p.toProcessRecord = r
  operations : List.Forall₂ (fun output o => o.Reads output.toItem) r.outputs p.operations
  names : (p.operations.map (·.name)).Nodup
  lookup : ∀ x o, p.operation? x = some o ↔ o ∈ p.operations ∧ o.name = x
  arguments : ∀ o ∈ p.operations, r.Declares o.args
  dependencies : FirstOccurrences ((r.inputs.map (·.origin)).filter (· ≠ "")) p.dependencies

-- What a meta-process is read from: demands give requirements, and the operations are those of the demands
-- without a tag, then those of the meta-demands and of the outputs, which close it.
structure MetaProcess.ReadFrom (r : IndustryRecord N) (m : MetaProcess N) : Prop where
  record : m.toProcessRecord = r.toProcessRecord
  outcome : m.outcome = r.outcome
  demands : List.Forall₂ (fun d q => q.Reads d) r.demands m.demands
  demandNames : (m.demands.map (·.name)).Nodup
  closing : List.Forall₂ (fun item o => o.Reads item) (r.metaDemands ++ r.outputs.map (·.toItem)) m.closing
  operations : ∃ plain, m.operations = plain ++ m.closing ∧
    List.Forall₂ (fun d o => o.Reads d.toItem) (r.demands.filter (·.tag = "")) plain
  names : (m.operations.map (·.name)).Nodup
  lookup : ∀ x o, m.operation? x = some o ↔ o ∈ m.operations ∧ o.name = x

structure ProcessRecord.Acceptable (r : ProcessRecord N) : Prop where
  ranges : r.RangesHold
  readable : ∀ output ∈ r.outputs, output.toItem.Readable
  arguments : ∀ output ∈ r.outputs, r.Declares output.args
  inputs : (r.inputs.map (·.name)).Nodup
  outputs : (r.outputs.map (·.name)).Nodup

structure IndustryRecord.Acceptable (r : IndustryRecord N) : Prop where
  ranges : r.RangesHold
  outcome : r.outcome.name ≠ ""
  outcomeRange : ∀ range ∈ r.outcome.range, Range.Holds range []
  readable : ∀ item ∈ r.demands.map (·.toItem) ++ r.metaDemands ++ r.outputs.map (·.toItem), item.Readable
  inputs : (r.inputs.map (·.name)).Nodup
  outputs : (r.outputs.map (·.name)).Nodup
  demands : (r.demands.map (·.name)).Nodup
  operations : ((r.demands.filter (·.tag = "")).map (·.name) ++ r.metaDemands.map (·.name) ++
    r.outputs.map (·.name)).Nodup

theorem Process.readFrom_of_compile {r : ProcessRecord N} {p : Process N} (compiled : r.compile = .ok p) :
    p.ReadFrom r := by
  have names := Process.nodup_of_compile compiled
  obtain ⟨-, -, record, pairs⟩ := ProcessRecord.compile_eq_ok.mp compiled
  refine ⟨record, Process.operations_of_compile compiled, names, fun x o => find?_name_eq_some_iff names,
    fun o member => ?_, ?_⟩
  · obtain ⟨output, -, reads, declared⟩ := exists_left_of_mem pairs member
    rw [reads.args]
    exact declared
  · rw [Process.dependencies, record]
    convert firstOccurrences_eraseDups _ using 2
    rw [List.filter_map]
    congr 1
    refine List.filter_congr fun input _ => ?_
    rw [Function.comp_apply, Input.isExternal, decide_not, bne, beq_eq_decide]

theorem ProcessRecord.exists_compile_iff {r : ProcessRecord N} : (∃ p, r.compile = .ok p) ↔ r.Acceptable := by
  simp only [ProcessRecord.compile_eq_ok, ProcessRecord.validate_eq_ok, ProcessRecord.checkNames_eq_ok]
  constructor
  · rintro ⟨p, ranges, ⟨inputs, outputs⟩, -, pairs⟩
    have each := exists_forall₂_iff.mp ⟨_, pairs⟩
    refine ⟨ranges, fun output member => ?_, fun output member => ?_, inputs, outputs⟩
    · obtain ⟨o, reads, -⟩ := each output member
      exact Item.readable_iff.mpr ⟨o, reads⟩
    · obtain ⟨o, -, declared⟩ := each output member
      exact declared
  · intro acceptable
    have each : ∀ output ∈ r.outputs, ∃ o : Operation N, o.Reads output.toItem ∧ r.Declares output.args := by
      intro output member
      obtain ⟨o, reads⟩ := Item.readable_iff.mp (acceptable.readable output member)
      exact ⟨o, reads, acceptable.arguments output member⟩
    obtain ⟨operations, pairs⟩ := exists_forall₂_iff.mpr each
    exact ⟨{ r with operations }, acceptable.ranges, ⟨acceptable.inputs, acceptable.outputs⟩, rfl, pairs⟩

theorem MetaProcess.plainDemands_reads {demands : List (Demand N)} {qs : List (Requirement N)}
    (pairs : List.Forall₂ (fun d q => q.Reads d) demands qs) :
    List.Forall₂ (fun d o => o.Reads d.toItem) (demands.filter (·.tag = "")) (plainDemands qs) := by
  have kept {d : Demand N} {q : Requirement N} (reads : q.Reads d) :
      decide (d.tag = "") = true ↔ (q.tag == "") = true := by
    rw [reads.2.2, beq_iff_eq, decide_eq_true_iff]
  rw [plainDemands, List.forall₂_map_right_iff]
  have filtered := List.rel_filter (R := fun d q => Requirement.Reads d q) (fun _ _ => kept) pairs
  exact filtered.imp fun _ _ reads => reads.1

theorem MetaProcess.readFrom_of_compile {r : IndustryRecord N} {m : MetaProcess N}
    (compiled : r.compile = .ok m) : m.ReadFrom r := by
  have distinct := (IndustryRecord.names_of_compile compiled).2.2
  obtain ⟨-, -, record, outcome, ⟨-, demands⟩, -, closing⟩ := IndustryRecord.compile_eq_ok.mp compiled
  exact ⟨record, outcome, demands, distinct.demands, closing, ⟨_, rfl, plainDemands_reads demands⟩,
    distinct.operations, fun x o => find?_name_eq_some_iff distinct.operations⟩

theorem MetaProcess.names_plainDemands {demands : List (Demand N)} {qs : List (Requirement N)}
    (pairs : List.Forall₂ (fun d q => q.Reads d) demands qs) :
    (plainDemands qs).map (·.name) = (demands.filter (·.tag = "")).map (·.name) :=
  names_of_reads (plainDemands_reads pairs)

theorem IndustryRecord.fresh_closing_iff {N : Type} {r : IndustryRecord N} (demands : (r.demands.map (·.name)).Nodup) :
    Fresh ((r.demands.filter (·.tag = "")).map (·.name)) (r.closingItems.map (·.name)) ↔
      ((r.demands.filter (·.tag = "")).map (·.name) ++ r.metaDemands.map (·.name) ++
        r.outputs.map (·.name)).Nodup := by
  rw [fresh_iff_nodup_append ((List.filter_sublist.map _).nodup demands), closingItems, List.map_append,
    List.append_assoc, List.map_map]
  rfl

theorem IndustryRecord.exists_compile_iff {r : IndustryRecord N} : (∃ m, r.compile = .ok m) ↔ r.Acceptable := by
  simp only [IndustryRecord.compile_eq_ok, IndustryRecord.validate_eq_ok, ProcessRecord.checkNames_eq_ok]
  constructor
  · rintro ⟨m, ⟨ranges, outcome, outcomeRange⟩, ⟨inputs, outputs⟩, -, -, ⟨unlike, demands⟩, closes, closing⟩
    rw [MetaProcess.names_plainDemands demands, fresh_closing_iff unlike.1] at closes
    refine ⟨ranges, outcome, outcomeRange, fun item member => ?_, inputs, outputs, unlike.1, closes⟩
    rw [List.append_assoc, List.mem_append] at member
    rcases member with demanded | closed
    · obtain ⟨d, inside, rfl⟩ := List.mem_map.mp demanded
      exact Requirement.exists_reads.mp (exists_forall₂_iff.mp ⟨_, demands⟩ d inside)
    · exact Item.readable_iff.mpr (exists_forall₂_iff.mp ⟨_, closing⟩ item closed)
  · intro acceptable
    have readable := acceptable.readable
    simp only [List.append_assoc, List.forall_mem_append, List.forall_mem_map] at readable
    obtain ⟨qs, demands⟩ := exists_forall₂_iff.mpr fun d inside =>
      Requirement.exists_reads.mpr (readable.1 d inside)
    obtain ⟨os, closing⟩ : ∃ os, List.Forall₂ (fun item (o : Operation N) => o.Reads item) r.closingItems os := by
      refine exists_forall₂_iff.mpr fun item inside => Item.readable_iff.mp ?_
      rcases List.mem_append.mp inside with aggregate | output
      · exact readable.2.1 item aggregate
      · obtain ⟨o, produced, rfl⟩ := List.mem_map.mp output
        exact readable.2.2 o produced
    refine ⟨{ r.toProcessRecord with outcome := r.outcome, demands := qs, closing := os },
      ⟨acceptable.ranges, acceptable.outcome, acceptable.outcomeRange⟩,
      ⟨acceptable.inputs, acceptable.outputs⟩, rfl, rfl, ⟨⟨acceptable.demands, by simp⟩, demands⟩, ?_, closing⟩
    rw [MetaProcess.names_plainDemands demands, fresh_closing_iff acceptable.demands]
    exact acceptable.operations

theorem compile_iff_acceptable :
    (∀ r : ProcessRecord N, ((∃ p, r.compile = .ok p) ↔ r.Acceptable) ∧
      ∀ p, r.compile = .ok p → p.ReadFrom r) ∧
    ∀ r : IndustryRecord N, ((∃ m, r.compile = .ok m) ↔ r.Acceptable) ∧
      ∀ m, r.compile = .ok m → m.ReadFrom r :=
  ⟨fun _ => ⟨ProcessRecord.exists_compile_iff, fun _ => Process.readFrom_of_compile⟩,
    fun _ => ⟨IndustryRecord.exists_compile_iff, fun _ => MetaProcess.readFrom_of_compile⟩⟩

def well : Process ℚ where
  name := "Well"
  outputs := [{ name := "water", operation := "8" }, { name := "salt", operation := "1", units := "t" }]
  operations := [⟨{ name := "water" }, .number 8, [], []⟩, ⟨{ name := "salt", units := "t" }, .number 1, [], []⟩]

def boiler : Process ℚ where
  name := "Boiler"
  inputs := [{ name := "water", origin := "well" }, { name := "fuel", value := [7], range := some [0, 50] },
    { name := "salt", origin := "well", units := "t" }, { name := "load" }]
  outputs := [{ name := "steam", operation := "water*fuel + load", range := some [0, 100], value := some 60,
                args := [⟨"water", .inputs, ""⟩, ⟨"fuel", .inputs, ""⟩, ⟨"load", .inputs, ""⟩] }]
  operations := [⟨{ name := "steam" },
    .binary .add (.binary .mul (.name "water") (.name "fuel")) (.name "load"),
    [⟨"water", .inputs, ""⟩, ⟨"fuel", .inputs, ""⟩, ⟨"load", .inputs, ""⟩], []⟩]

def steamworksRecord : IndustryRecord ℚ where
  name := "Steamworks"
  outcome := { name := "heat", range := some [1, 9] }
  demands := [{ name := "load", operation := "heat*2", used := "boiler", tag := "peak",
                args := [⟨"heat", .outcome, ""⟩] }]
  metaDemands := [{ name := "load", operation := "heat*3", args := [⟨"heat", .outcome, ""⟩] }]
  outputs := [{ name := "total", operation := "steam", args := [⟨"steam", .outputs, "boiler"⟩] }]

def steamworks : MetaProcess ℚ where
  toProcessRecord := steamworksRecord.toProcessRecord
  outcome := { name := "heat", range := some [1, 9] }
  demands := [⟨⟨{ name := "load" }, .binary .mul (.name "heat") (.number 2), [⟨"heat", .outcome, ""⟩], []⟩,
    "boiler", "peak"⟩]
  closing := [⟨{ name := "load" }, .binary .mul (.name "heat") (.number 3), [⟨"heat", .outcome, ""⟩], []⟩,
    ⟨{ name := "total" }, .name "steam", [⟨"steam", .outputs, "boiler"⟩], []⟩]

theorem compile_well : well.toProcessRecord.compile = .ok well := by with_unfolding_all rfl

theorem compile_boiler : boiler.toProcessRecord.compile = .ok boiler := by cbv

theorem compile_steamworks : steamworksRecord.compile = .ok steamworks := by with_unfolding_all rfl

theorem compile_iff_acceptable_boiler :
    boiler.toProcessRecord.Acceptable ∧ FirstOccurrences ["well", "well"] boiler.dependencies ∧
      boiler.dependencies = ["well"] ∧ steamworksRecord.Acceptable ∧ steamworks.ReadFrom steamworksRecord := by
  obtain ⟨processes, industries⟩ := compile_iff_acceptable (N := ℚ)
  obtain ⟨accepts, follows⟩ := processes boiler.toProcessRecord
  obtain ⟨acceptsMeta, followsMeta⟩ := industries steamworksRecord
  exact ⟨accepts.mp ⟨_, compile_boiler⟩, (follows _ compile_boiler).dependencies, by decide,
    acceptsMeta.mp ⟨_, compile_steamworks⟩, followsMeta _ compile_steamworks⟩

end Flowsheet
