import Mathlib.Data.List.Nodup
import Flowsheet.Record.Decode
import Flowsheet.Proofs.Yaml.Decoder

set_option autoImplicit false

namespace Flowsheet

namespace Yaml.Node

theorem Keyed.nodup {entries : List (Value × Node)} (keyed : Keyed entries) : (entries.map (·.1)).Nodup := by
  obtain ⟨names, keys, distinct⟩ := keyed
  rw [keys]
  exact distinct.map fun _ _ => Value.text.inj

theorem Keyed.unique {entries : List (Value × Node)} (keyed : Keyed entries) {k : String} {m n : Node}
    (first : (.text k, m) ∈ entries) (second : (.text k, n) ∈ entries) : m = n := by
  exact congrArg Prod.snd (List.inj_on_of_nodup_map keyed.nodup first second rfl)

end Yaml.Node

namespace Record

open Yaml Yaml.Node

variable {α σ γ : Type}

theorem put_eq_ok {read : Node → Decoder (Option α)} {set : α → σ → σ} {n : Node} {g : σ → σ}
    {t t' : Tally} (done : put read set n t = .ok (g, t')) :
    ∃ r, read n t = .ok (r, t') ∧ g = (r.map set).getD id := by
  obtain ⟨r, u, found, done⟩ := Decoder.bind_eq_ok.mp done
  cases r with
  | none =>
    obtain ⟨rfl, rfl⟩ := Decoder.pure_eq_ok.mp done
    exact ⟨none, found, rfl⟩
  | some a =>
    obtain ⟨rfl, rfl⟩ := Decoder.pure_eq_ok.mp done
    exact ⟨some a, found, rfl⟩

def Leaves (part : σ → γ) (reader : Node → Decoder (σ → σ)) : Prop :=
  ∀ n g t t', reader n t = .ok (g, t') → ∀ s, part (g s) = part s

theorem leaves_put {read : Node → Decoder (Option α)} {set : α → σ → σ} {part : σ → γ}
    (apart : ∀ a s, part (set a s) = part s) : Leaves part (put read set) := by
  intro n g t t' done s
  obtain ⟨r, -, rfl⟩ := put_eq_ok done
  cases r with
  | none => rfl
  | some a => exact apart a s

structure Sets (field : String → Field σ) (part : σ → γ) (k : String) (read : Node → Decoder (Option α))
    (value : α → γ) : Prop where
  here : ∃ set, field k = some (put read set) ∧ ∀ a s, part (set a s) = value a
  apart : ∀ name ≠ k, ∀ reader, field name = some reader → Leaves part reader

variable {field base : String → Field σ} {part : σ → γ} {k : String} {read : Node → Decoder (Option α)} {value : α → γ}

theorem Sets.extended (sets : Sets base part k read value) (same : field k = base k)
    (more : ∀ name reader, field name = some reader → base name = some reader ∨ Leaves part reader) :
    Sets field part k read value := by
  obtain ⟨set, known, sees⟩ := sets.here
  refine ⟨⟨set, same.trans known, sees⟩, fun name other reader found => ?_⟩
  rcases more name reader found with older | leaves
  · exact sets.apart name other reader older
  · exact leaves

theorem part_of_enter (sets : Sets field part k read value) {e : Value × Node} (other : e.1 ≠ .text k) {s s' : σ}
    {t t' : Tally} (step : enter field s e t = .ok (s', t')) : part s' = part s := by
  obtain ⟨key, v⟩ := e
  cases key with
  | text name =>
    unfold enter at step
    cases known : field name with
    | none =>
      simp only [known] at step
      obtain ⟨rfl, -⟩ := Decoder.pure_eq_ok.mp step
      rfl
    | some reader =>
      simp only [known] at step
      obtain ⟨g, u, change, step⟩ := Decoder.bind_eq_ok.mp step
      obtain ⟨rfl, -⟩ := Decoder.pure_eq_ok.mp step
      exact sets.apart name (fun same => other (same ▸ rfl)) reader known v g t u change s
  | _ =>
    obtain ⟨rfl, -⟩ := Decoder.pure_eq_ok.mp step
    rfl

theorem part_of_others (sets : Sets field part k read value) {entries : List (Value × Node)}
    (others : ∀ e ∈ entries, e.1 ≠ .text k) {s s' : σ} {t t' : Tally}
    (done : entries.foldlM (enter field) s t = .ok (s', t')) : part s' = part s :=
  Decoder.foldlM_keeps (fun r => part r = part s)
    (fun e inside _ _ _ _ held step => (part_of_enter sets (others e inside) step).trans held) rfl done

theorem part_of_entry (sets : Sets field part k read value) {entries : List (Value × Node)} {n : Node}
    (keyed : Keyed entries) (entry : (.text k, n) ∈ entries) {start s : σ} {t t' : Tally}
    (done : entries.foldlM (enter field) start t = .ok (s, t')) :
    ∃ r u u', read n u = .ok (r, u') ∧ part s = (r.map value).getD (part start) := by
  obtain ⟨before, after, rfl⟩ := List.append_of_mem entry
  obtain ⟨early, u, first, done⟩ := Decoder.foldlM_append_eq_ok.mp done
  obtain ⟨here, u', step, last⟩ := Decoder.foldlM_cons_eq_ok.mp done
  have nodup := keyed.nodup
  rw [List.map_append, List.map_cons, List.nodup_append, List.nodup_cons] at nodup
  have earlier : ∀ e ∈ before, e.1 ≠ .text k := fun e inside =>
    nodup.2.2 e.1 (List.mem_map_of_mem inside) _ List.mem_cons_self
  have later : ∀ e ∈ after, e.1 ≠ .text k := fun e inside same =>
    nodup.2.1.1 (List.mem_map.mpr ⟨e, inside, same⟩)
  obtain ⟨set, known, sees⟩ := sets.here
  unfold enter at step
  simp only [known] at step
  obtain ⟨g, w, change, step⟩ := Decoder.bind_eq_ok.mp step
  obtain ⟨rfl, -⟩ := Decoder.pure_eq_ok.mp step
  obtain ⟨r, found, rfl⟩ := put_eq_ok change
  refine ⟨r, u, w, found, ?_⟩
  rw [part_of_others sets later last, ← part_of_others sets earlier first]
  cases r with
  | none => rfl
  | some a => exact sees a early

theorem part_of_entries (sets : Sets field part k read value) {entries : List (Value × Node)}
    (keyed : Keyed entries) {start s : σ} {t t' : Tally} (done : entries.foldlM (enter field) start t = .ok (s, t')) :
    part s = part start ∨
      ∃ n r u u', (.text k, n) ∈ entries ∧ read n u = .ok (r, u') ∧ part s = (r.map value).getD (part start) := by
  by_cases present : ∃ n, (.text k, n) ∈ entries
  · obtain ⟨n, entry⟩ := present
    obtain ⟨r, u, u', found, set⟩ := part_of_entry sets keyed entry done
    exact .inr ⟨n, r, u, u', entry, found, set⟩
  · refine .inl (part_of_others sets (fun e inside same => present ⟨e.2, ?_⟩) done)
    rw [← same]
    exact inside

variable {change : (Labels → Labels) → σ → σ} {labelsOf : σ → Labels}

theorem sets_label (focus : ∀ f s, labelsOf (change f s) = f (labelsOf s)) :
    Sets (labels change) (fun s => (labelsOf s).name) "name" text? id := by
  refine ⟨⟨_, rfl, fun a s => by rw [focus]; rfl⟩, fun name other reader known => ?_⟩
  unfold labels at known
  split at known
  · exact absurd rfl other
  · cases known
    exact leaves_put fun a s => by rw [focus]
  · cases known
    exact leaves_put fun a s => by rw [focus]
  · cases known

theorem sets_itemName {change : (Item Float → Item Float) → σ → σ} {itemOf : σ → Item Float}
    (focus : ∀ f s, itemOf (change f s) = f (itemOf s)) :
    Sets (itemFields change) (fun s => (itemOf s).name) "name" text? id := by
  have labelled : Sets (labels fun f => change fun i => { i with toLabels := f i.toLabels })
      (fun s => (itemOf s).name) "name" text? id := sets_label fun f s => congrArg Item.toLabels (focus _ s)
  refine labelled.extended rfl fun name reader known => ?_
  unfold itemFields at known
  split at known
  case h_4 => exact .inl known
  all_goals
    cases known
    exact .inr (leaves_put fun a s => by rw [focus])

theorem processField_eq_some {change : (ProcessRecord Float → ProcessRecord Float) → σ → σ} {name : String}
    {reader : Node → Decoder (σ → σ)} (known : processField change name = some reader) :
    ∃ (α : Type) (read : Node → Decoder (Option α)) (set : α → ProcessRecord Float → ProcessRecord Float),
      reader = put read (fun a => change (set a)) ∧ ∀ a p,
        (name ≠ "id" → (set a p).id = p.id) ∧ (name ≠ "constants" → (set a p).constants = p.constants) ∧
          (name ≠ "inputs" → (set a p).inputs = p.inputs) ∧ (name ≠ "outputs" → (set a p).outputs = p.outputs) := by
  unfold processField at known
  split at known
  case h_11 => cases known
  all_goals
    cases known
    exact ⟨_, _, _, rfl, fun a p => by simp⟩

section Process

variable {change : (ProcessRecord Float → ProcessRecord Float) → σ → σ} {recordOf : σ → ProcessRecord Float}

theorem sets_id (focus : ∀ f s, recordOf (change f s) = f (recordOf s)) :
    Sets (processField change) (fun s => (recordOf s).id) "id" text? id where
  here := ⟨_, rfl, fun a s => by rw [focus]; rfl⟩
  apart := by
    intro name other reader known
    obtain ⟨α, read, set, rfl, keeps⟩ := processField_eq_some known
    exact leaves_put fun a s => by rw [focus, (keeps a _).1 other]

theorem sets_constants (focus : ∀ f s, recordOf (change f s) = f (recordOf s)) :
    Sets (processField change) (fun s => (recordOf s).constants) "constants" (list? constant?) (·.getD []) where
  here := ⟨_, rfl, fun a s => by rw [focus]⟩
  apart := by
    intro name other reader known
    obtain ⟨α, read, set, rfl, keeps⟩ := processField_eq_some known
    exact leaves_put fun a s => by rw [focus, (keeps a _).2.1 other]

theorem sets_inputs (focus : ∀ f s, recordOf (change f s) = f (recordOf s)) :
    Sets (processField change) (fun s => (recordOf s).inputs) "inputs" (list? input?) (·.getD []) where
  here := ⟨_, rfl, fun a s => by rw [focus]⟩
  apart := by
    intro name other reader known
    obtain ⟨α, read, set, rfl, keeps⟩ := processField_eq_some known
    exact leaves_put fun a s => by rw [focus, (keeps a _).2.2.1 other]

theorem sets_outputs (focus : ∀ f s, recordOf (change f s) = f (recordOf s)) :
    Sets (processField change) (fun s => (recordOf s).outputs) "outputs" (list? output?) (·.getD []) where
  here := ⟨_, rfl, fun a s => by rw [focus]⟩
  apart := by
    intro name other reader known
    obtain ⟨α, read, set, rfl, keeps⟩ := processField_eq_some known
    exact leaves_put fun a s => by rw [focus, (keeps a _).2.2.2 other]

end Process

theorem process_fields :
    Sets (processField id) (·.constants) "constants" (list? constant?) (·.getD []) ∧
      Sets (processField id) (·.inputs) "inputs" (list? input?) (·.getD []) ∧
        Sets (processField id) (·.outputs) "outputs" (list? output?) (·.getD []) :=
  ⟨sets_constants fun _ _ => rfl, sets_inputs fun _ _ => rfl, sets_outputs fun _ _ => rfl⟩

theorem industry_fields : ∃ field : String → Field (IndustryRecord Float),
    (∀ t, Record.industry t = Decoder.result t.depth (do return (← record? field {} t.root).getD {})) ∧
      Sets field (·.constants) "constants" (list? constant?) (·.getD []) ∧
      Sets field (·.outputs) "outputs" (list? output?) (·.getD []) ∧
      Sets field (·.demands) "demands" (list? demand?) (·.getD []) ∧
      Sets field (·.metaDemands) "meta" (list? metaDemand?) (·.getD []) ∧
      Sets field (·.outcome) "outcome" outcome? id := by
  have constants :
      Sets (processField fun f (r : IndustryRecord Float) => { r with toProcessRecord := f r.toProcessRecord })
        (·.constants) "constants" (list? constant?) (·.getD []) := sets_constants fun _ _ => rfl
  have outputs :
      Sets (processField fun f (r : IndustryRecord Float) => { r with toProcessRecord := f r.toProcessRecord })
        (·.outputs) "outputs" (list? output?) (·.getD []) := sets_outputs fun _ _ => rfl
  refine ⟨_, fun t => rfl, constants.extended rfl ?constants, outputs.extended rfl ?outputs,
    ⟨⟨_, rfl, fun _ _ => rfl⟩, ?demands⟩, ⟨⟨_, rfl, fun _ _ => rfl⟩, ?metaDemands⟩,
    ⟨⟨_, rfl, fun _ _ => rfl⟩, ?outcome⟩⟩
  -- the fields of an industry leave the parts of its process, and the other way round
  case constants | outputs =>
    intro name reader known
    split at known
    case h_4 => exact .inl known
    all_goals
      cases known
      exact .inr (leaves_put fun _ _ => rfl)
  case demands | metaDemands | outcome =>
    intro name other reader known
    split at known
    case h_4 =>
      obtain ⟨α, read, set, rfl, -⟩ := processField_eq_some known
      exact leaves_put fun _ _ => rfl
    all_goals
      cases known
      first
      | exact absurd rfl other
      | exact leaves_put fun _ _ => rfl

def Names (read : Node → Decoder (Option σ)) (name : σ → String) : Prop :=
  ∃ field start, read = record? field start ∧ Sets field name "name" text? id

theorem constant?_names : Names constant? (·.name) := by
  refine ⟨_, _, rfl, ?_⟩
  have labelled : Sets (labels fun f (c : Constant Float) => { c with toLabels := f c.toLabels }) (·.name) "name"
      text? id := sets_label fun _ _ => rfl
  refine labelled.extended rfl fun name reader known => ?_
  split at known
  case h_5 => exact .inl known
  all_goals
    cases known
    exact .inr (leaves_put fun _ _ => rfl)

theorem input?_names : Names input? (·.name) := by
  refine ⟨_, _, rfl, ?_⟩
  have labelled : Sets (labels fun f (i : Input Float) => { i with toLabels := f i.toLabels }) (·.name) "name"
      text? id := sets_label fun _ _ => rfl
  refine labelled.extended rfl fun name reader known => ?_
  split at known
  case h_4 => exact .inl known
  all_goals
    cases known
    exact .inr (leaves_put fun _ _ => rfl)

theorem output?_names : Names output? (·.name) := by
  refine ⟨_, _, rfl, ?_⟩
  have labelled : Sets (itemFields fun f (o : Output Float) => { o with toItem := f o.toItem }) (·.name) "name"
      text? id := sets_itemName fun _ _ => rfl
  refine labelled.extended rfl fun name reader known => ?_
  split at known
  case h_3 => exact .inl known
  · cases known
    -- a null takes the value away, and leaves the name too
    refine .inr fun n g t t' done o => ?_
    beta_reduce at done
    split at done
    · obtain ⟨rfl, -⟩ := Decoder.pure_eq_ok.mp done
      rfl
    · obtain ⟨r, -, rfl⟩ := put_eq_ok done
      cases r <;> rfl
  · cases known
    exact .inr (leaves_put fun _ _ => rfl)

theorem demand?_names : Names demand? (·.name) := by
  refine ⟨_, _, rfl, ?_⟩
  have labelled : Sets (itemFields fun f (d : Demand Float) => { d with toItem := f d.toItem }) (·.name) "name"
      text? id := sets_itemName fun _ _ => rfl
  refine labelled.extended rfl fun name reader known => ?_
  split at known
  case h_3 => exact .inl known
  all_goals
    cases known
    exact .inr (leaves_put fun _ _ => rfl)

theorem metaDemand?_names : Names metaDemand? (·.name) := ⟨_, _, rfl, sets_itemName fun _ _ => rfl⟩

theorem outcomeRecord?_names : Names outcomeRecord? (·.name) := by
  refine ⟨_, _, rfl, ?_⟩
  have labelled : Sets (labels fun f (o : Outcome Float) => { o with toLabels := f o.toLabels }) (·.name) "name"
      text? id := sets_label fun _ _ => rfl
  refine labelled.extended rfl fun name reader known => ?_
  split at known
  case h_4 => exact .inl known
  all_goals
    cases known
    exact .inr (leaves_put fun _ _ => rfl)

end Record

end Flowsheet
