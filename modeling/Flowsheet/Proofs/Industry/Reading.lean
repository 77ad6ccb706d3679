import Mathlib.Data.List.Nodup
import Mathlib.Data.List.Perm.Basic
import Flowsheet.Industry.MetaProcess
import Flowsheet.Proofs.Result

set_option autoImplicit false

namespace Flowsheet

def Fresh (seen names : List String) : Prop := names.Nodup ∧ ∀ x ∈ names, x ∉ seen

theorem fresh_cons {seen names : List String} {x : String} :
    Fresh seen (x :: names) ↔ x ∉ seen ∧ Fresh (x :: seen) names := by
  have apart : (∀ y ∈ names, ¬ y = x) ↔ x ∉ names :=
    ⟨fun all inside => all x inside rfl, fun outside y inside same => outside (same ▸ inside)⟩
  rw [Fresh, Fresh, List.nodup_cons, List.forall_mem_cons]
  simp only [List.mem_cons, not_or, imp_and, forall_and, apart]
  tauto

theorem fresh_iff_nodup_append {seen names : List String} (distinct : seen.Nodup) :
    Fresh seen names ↔ (seen ++ names).Nodup := by
  rw [Fresh, List.nodup_append]
  constructor
  · rintro ⟨once, apart⟩
    exact ⟨distinct, once, fun x inside y other same => apart y other (same ▸ inside)⟩
  · rintro ⟨-, once, apart⟩
    exact ⟨once, fun x other inside => apart x inside x other rfl⟩

theorem find?_name_eq_some_iff {α : Type} {name : α → String} {xs : List α} (distinct : (xs.map name).Nodup)
    {x : String} {a : α} : xs.find? (fun b => name b == x) = some a ↔ a ∈ xs ∧ name a = x := by
  constructor
  · intro found
    exact ⟨List.mem_of_find?_eq_some found, by simpa using List.find?_some found⟩
  · rintro ⟨member, rfl⟩
    cases found : xs.find? (fun b => name b == name a) with
    | none =>
      have absent := List.find?_eq_none.mp found a member
      simp at absent
    | some other =>
      have named : name other = name a := by simpa using List.find?_some found
      rw [List.inj_on_of_nodup_map distinct (List.mem_of_find?_eq_some found) member named]

theorem firstRepeated_eq_none {seen names : List String} :
    firstRepeated seen names = none ↔ Fresh seen names := by
  induction names generalizing seen with
  | nil => simp [firstRepeated, Fresh]
  | cons x names ih =>
    rw [firstRepeated, fresh_cons, ← ih]
    by_cases known : x ∈ seen <;> simp [known]

theorem checkDistinct_eq_ok {what owner : String} {names : List String} :
    checkDistinct what owner names = .ok () ↔ names.Nodup := by
  have fresh : firstRepeated [] names = none ↔ names.Nodup := by simp [firstRepeated_eq_none, Fresh]
  rw [checkDistinct, ← fresh]
  cases firstRepeated [] names <;> simp

theorem ProcessRecord.checkNames_eq_ok {N : Type} {r : ProcessRecord N} :
    r.checkNames = .ok () ↔ (r.inputs.map (·.name)).Nodup ∧ (r.outputs.map (·.name)).Nodup := by
  rw [checkNames, then_eq_ok, checkDistinct_eq_ok, checkDistinct_eq_ok]

variable {N : Type} [Quantity N] {owner : String} {seen : List String}

structure Operation.Reads (item : Item N) (o : Operation N) : Prop where
  labels : o.toLabels = item.toLabels
  formula : Formula.parse item.operation = .ok o.formula
  args : o.args = item.args
  tests : o.tests = item.tests
  declared : ∀ x ∈ o.formula.identifiers, ∃ a ∈ o.args, a.name = x

def Item.Readable (item : Item N) : Prop :=
  ∃ e : Formula N, Formula.parse item.operation = .ok e ∧ ∀ x ∈ e.identifiers, ∃ a ∈ item.args, a.name = x

theorem Operation.Reads.name {item : Item N} {o : Operation N} (reads : o.Reads item) : o.name = item.name :=
  congrArg Labels.name reads.labels

theorem Operation.undeclared_eq_nil {N : Type} {e : Formula N} {args : List Arg} :
    undeclared e args = [] ↔ ∀ x ∈ e.identifiers, ∃ a ∈ args, a.name = x := by
  simp [undeclared]

theorem Operation.compile_eq_ok {item : Item N} {o : Operation N} :
    Operation.compile owner item = .ok o ↔ o.Reads item := by
  constructor
  · intro compiled
    unfold Operation.compile at compiled
    split at compiled
    · cases compiled
    next e parsed =>
      split at compiled
      next none =>
        cases compiled
        exact ⟨rfl, parsed, rfl, rfl, undeclared_eq_nil.mp none⟩
      · cases compiled
  · rintro ⟨labels, parsed, args, tests, declared⟩
    have none := undeclared_eq_nil.mpr declared
    rw [args] at none
    rw [Operation.compile, parsed]
    simp only [none]
    rw [← labels, ← args, ← tests]

theorem Item.readable_iff {item : Item N} : item.Readable ↔ ∃ o : Operation N, o.Reads item := by
  constructor
  · rintro ⟨e, parsed, declared⟩
    exact ⟨⟨item.toLabels, e, item.args, item.tests⟩, rfl, parsed, rfl, rfl, declared⟩
  · rintro ⟨o, reads⟩
    exact ⟨o.formula, reads.formula, reads.args ▸ reads.declared⟩

def Requirement.Reads (d : Demand N) (q : Requirement N) : Prop :=
  q.toOperation.Reads d.toItem ∧ q.used = d.used ∧ q.tag = d.tag

theorem Requirement.exists_reads {d : Demand N} : (∃ q : Requirement N, q.Reads d) ↔ d.toItem.Readable := by
  rw [Item.readable_iff]
  constructor
  · rintro ⟨q, reads, -⟩
    exact ⟨q.toOperation, reads⟩
  · rintro ⟨o, reads⟩
    exact ⟨{ o with used := d.used, tag := d.tag }, reads, rfl, rfl⟩

namespace MetaProcess

theorem compileDemands_eq_ok {demands : List (Demand N)} {qs : List (Requirement N)} :
    compileDemands owner seen demands = .ok qs ↔
      Fresh seen (demands.map (·.name)) ∧ List.Forall₂ (fun d q => q.Reads d) demands qs := by
  induction demands generalizing seen qs with
  | nil =>
    rw [compileDemands, List.forall₂_nil_left_iff, Except.ok.injEq]
    simp [Fresh, eq_comm]
  | cons d demands ih =>
    rw [compileDemands, List.map_cons, fresh_cons, List.forall₂_cons_left_iff]
    by_cases known : d.name ∈ seen
    · simp [known]
    · simp only [List.contains_iff_mem, known, if_false, not_false_eq_true, true_and, bind_eq_ok,
        Operation.compile_eq_ok, ih]
      constructor
      · rintro ⟨o, reads, others, ⟨fresh, pairs⟩, last⟩
        cases last
        exact ⟨fresh, _, others, ⟨reads, rfl, rfl⟩, pairs, rfl⟩
      · rintro ⟨fresh, q, others, ⟨reads, used, tag⟩, pairs, rfl⟩
        refine ⟨q.toOperation, reads, others, ⟨fresh, pairs⟩, ?_⟩
        rw [← used, ← tag]
        rfl

theorem compileClosing_eq_ok {items : List (Item N)} {os : List (Operation N)} :
    compileClosing owner seen items = .ok os ↔
      Fresh seen (items.map (·.name)) ∧ List.Forall₂ (fun item o => o.Reads item) items os := by
  induction items generalizing seen os with
  | nil =>
    rw [compileClosing, List.forall₂_nil_left_iff, Except.ok.injEq]
    simp [Fresh, eq_comm]
  | cons item items ih =>
    rw [compileClosing, List.map_cons, fresh_cons, List.forall₂_cons_left_iff, bind_eq_ok]
    simp only [Operation.compile_eq_ok]
    constructor
    · rintro ⟨o, reads, rest⟩
      split at rest
      · cases rest
      next unseen =>
        simp only [bind_eq_ok, ih] at rest
        obtain ⟨others, ⟨fresh, pairs⟩, last⟩ := rest
        cases last
        rw [reads.name] at unseen fresh
        exact ⟨⟨by simpa using unseen, fresh⟩, o, others, reads, pairs, rfl⟩
    · rintro ⟨⟨unseen, fresh⟩, o, others, reads, pairs, rfl⟩
      rw [← reads.name] at unseen fresh
      refine ⟨o, reads, ?_⟩
      rw [if_neg (by simpa using unseen), bind_eq_ok]
      exact ⟨others, ih.mpr ⟨fresh, pairs⟩, rfl⟩

end MetaProcess

def ProcessRecord.Declares {N : Type} (r : ProcessRecord N) (args : List Arg) : Prop :=
  ∀ a ∈ args, a.kind = .inputs → ∃ input ∈ r.inputs, input.name = a.name

theorem Process.checkArgs_eq_ok {N : Type} {r : ProcessRecord N} {o : Operation N} :
    checkArgs r o = .ok () ↔ r.Declares o.args := by
  have declared (x : String) : (r.input? x).isNone = false ↔ ∃ input ∈ r.inputs, input.name = x := by
    simp [ProcessRecord.input?]
  unfold checkArgs
  split
  next none =>
    refine ⟨fun _ a member kind => ?_, fun _ => rfl⟩
    have kept := List.find?_eq_none.mp none a member
    exact (declared a.name).mp (by simpa [kind, Option.isSome_iff_ne_none] using kept)
  next a found =>
    refine ⟨nofun, fun all => ?_⟩
    have kept := List.find?_some found
    simp only [Bool.and_eq_true, decide_eq_true_eq] at kept
    have known := (declared a.name).mpr (all a (List.mem_of_find?_eq_some found) kept.1)
    rw [known] at kept
    cases kept.2

theorem Process.compileOutput_eq_ok {r : ProcessRecord N} {output : Output N} {o : Operation N} :
    compileOutput r output = .ok o ↔ o.Reads output.toItem ∧ r.Declares output.args := by
  rw [compileOutput, bind_eq_ok]
  simp only [then_eq_ok, Operation.compile_eq_ok, checkArgs_eq_ok]
  constructor
  · rintro ⟨o', reads, declared, last⟩
    cases last
    exact ⟨reads, reads.args ▸ declared⟩
  · rintro ⟨reads, declared⟩
    exact ⟨o, reads, reads.args ▸ declared, rfl⟩

theorem ProcessRecord.compile_eq_ok {r : ProcessRecord N} {p : Process N} :
    r.compile = .ok p ↔ r.validate = .ok () ∧ r.checkNames = .ok () ∧ p.toProcessRecord = r ∧
      List.Forall₂ (fun output o => o.Reads output.toItem ∧ r.Declares output.args) r.outputs p.operations := by
  rw [compile, then_eq_ok, then_eq_ok, bind_eq_ok]
  simp only [mapM_eq_ok, Process.compileOutput_eq_ok]
  refine and_congr_right fun _ => and_congr_right fun _ => ?_
  constructor
  · rintro ⟨operations, pairs, last⟩
    cases last
    exact ⟨rfl, pairs⟩
  · rintro ⟨rfl, pairs⟩
    exact ⟨p.operations, pairs, rfl⟩

def IndustryRecord.closingItems {N : Type} (r : IndustryRecord N) : List (Item N) :=
  r.metaDemands ++ r.outputs.map (·.toItem)

theorem IndustryRecord.compile_eq_ok {r : IndustryRecord N} {m : MetaProcess N} :
    r.compile = .ok m ↔ r.validate = .ok () ∧ r.checkNames = .ok () ∧
      m.toProcessRecord = r.toProcessRecord ∧ m.outcome = r.outcome ∧
        (Fresh [] (r.demands.map (·.name)) ∧ List.Forall₂ (fun d q => q.Reads d) r.demands m.demands) ∧
          Fresh ((MetaProcess.plainDemands m.demands).map (·.name)) (r.closingItems.map (·.name)) ∧
            List.Forall₂ (fun item o => o.Reads item) r.closingItems m.closing := by
  rw [compile, then_eq_ok, then_eq_ok]
  simp only [bind_eq_ok, MetaProcess.compileDemands_eq_ok, MetaProcess.compileClosing_eq_ok]
  refine and_congr_right fun _ => and_congr_right fun _ => ?_
  constructor
  · rintro ⟨demands, demanded, closing, closed, last⟩
    cases last
    exact ⟨rfl, rfl, demanded, closed⟩
  · obtain ⟨record, outcome, demands, closing⟩ := m
    rintro ⟨rfl, rfl, demanded, closed⟩
    exact ⟨demands, demanded, closing, closed, rfl⟩

end Flowsheet
