import Flowsheet.Document.Schema
import Flowsheet.Lookup
import Flowsheet.Proofs.Record.Fields
import Flowsheet.Proofs.Yaml.Members

set_option autoImplicit false

namespace Flowsheet

open Yaml

namespace Schema

theorem members_of_object {required : List String} {properties : List (String × Schema)} {path : List String}
    {v : Json} (sound : (Schema.object required properties).violations path v = []) :
    ∃ members, v = .object members ∧ violations.ofProperties path members properties = [] ∧
      missing path required (members.map (·.1)) = [] := by
  cases v with
  | object members =>
    simp only [violations, List.append_eq_nil_iff] at sound
    exact ⟨members, rfl, sound⟩
  | _ => simp [violations, notNullable, mistyped] at sound

theorem violations_of_ofProperties {properties : List (String × Schema)} {path : List String}
    {members : List (String × Json)} (sound : violations.ofProperties path members properties = [])
    {k : String} {schema : Schema} (property : (k, schema) ∈ properties) {v : Json}
    (found : members.lookup k = some v) : schema.violations (path ++ [k]) v = [] := by
  induction properties with
  | nil => cases property
  | cons p properties ih =>
    obtain ⟨k', schema'⟩ := p
    simp only [violations.ofProperties, List.append_eq_nil_iff] at sound
    rcases List.mem_cons.mp property with same | later
    · cases same
      simpa [found] using sound.1
    · exact ih sound.2 later

theorem exists_member {path required : List String} {members : List (String × Json)}
    (whole : missing path required (members.map (·.1)) = []) {k : String} (needed : k ∈ required) :
    ∃ v, members.lookup k = some v := by
  have present : k ∈ members.map (·.1) := by
    simp only [missing, List.map_eq_nil_iff, List.filter_eq_nil_iff] at whole
    simpa using whole k needed
  obtain ⟨p, inside, rfl⟩ := List.mem_map.mp present
  cases found : members.lookup p.1 with
  | none => exact absurd (List.lookup_eq_none_iff.mp found p inside) (by simp)
  | some v => exact ⟨v, rfl⟩

theorem string_of_text {path : List String} {v : Json} (sound : (Schema.text true).violations path v = []) :
    ∃ s, v = .string s ∧ s ≠ "" := by
  cases v with
  | string s =>
    refine ⟨s, rfl, ?_⟩
    rintro rfl
    simp [violations] at sound
  | _ => simp [violations, notNullable, mistyped] at sound

end Schema

namespace Document

theorem decode_eq_ok {path : String} {data : List UInt8} {d : Document} :
    decode path data = .ok d ↔ ∃ tree raw, Tree.parse data = .ok (some tree) ∧
      tree.topMap = .ok (some raw) ∧ d = ⟨path, data, tree, raw⟩ := by
  constructor
  · intro read
    obtain ⟨parsed, parses, read⟩ := bind_eq_ok.mp read
    cases parsed with
    | none => cases read
    | some tree =>
      obtain ⟨top, topped, read⟩ := bind_eq_ok.mp read
      cases top with
      | none => cases read
      | some raw =>
        cases read
        exact ⟨tree, raw, mapError_eq_ok.mp parses, mapError_eq_ok.mp topped, rfl⟩
  · rintro ⟨tree, raw, parses, topped, rfl⟩
    simp [decode, parses, topped, Except.mapError, bind, Except.bind]

theorem tree_of_decode {path : String} {data : List UInt8} {d : Document} (read : decode path data = .ok d) :
    d.tree.topMap = .ok (some d.raw) := by
  obtain ⟨tree, raw, -, topped, rfl⟩ := decode_eq_ok.mp read
  exact topped

theorem entries_of_topMap {d : Document} (top : d.tree.topMap = .ok (some d.raw)) :
    ∃ tag entries es pairs t t', d.tree.root = .mapping tag entries ∧
      Decoder.visit { depth := d.tree.depth } = .ok ((), t) ∧
        Node.collect true d.tree.depth none entries t = .ok (es, t') ∧ d.raw = .map pairs ∧
          Node.Valued d.tree.depth es.found pairs := by
  obtain ⟨t'', done⟩ := Decoder.result_eq_ok top
  obtain ⟨_, t, visited, done⟩ := Decoder.bind_eq_ok.mp done
  generalize d.tree.root = root at done ⊢
  -- A top that is no mapping is refused, or is a null.
  cases root with
  | mapping tag entries =>
    obtain ⟨es, t', collected, done⟩ := Decoder.bind_eq_ok.mp done
    obtain ⟨pairs, u, valued, done⟩ := Decoder.bind_eq_ok.mp done
    obtain ⟨same, -⟩ := Decoder.pure_eq_ok.mp done
    exact ⟨tag, entries, es, pairs, t, t', rfl, visited, collected, (Option.some.inj same).symm,
      Node.valued_of_mapM valued⟩
  | scalar tag plain text =>
    cases atom : (Node.scalar tag plain text).atom? with
    | none =>
      simp only [atom] at done
      exact absurd done Decoder.mistyped_ne_ok
    | some a =>
      simp only [atom] at done
      cases a with
      | null =>
        obtain ⟨same, -⟩ := Decoder.pure_eq_ok.mp done
        cases same
      | _ => exact absurd done Decoder.mistyped_ne_ok
  | sequence => exact absurd done Decoder.mistyped_ne_ok
  | «alias» => exact absurd done Decoder.mistyped_ne_ok

theorem members_of_checkSchema {d : Document} {pairs : List (Value × Value)} {k : Kind} (raw : d.raw = .map pairs)
    (sound : d.checkSchema = .ok ()) (kind : d.kind = .ok k) :
    ∃ members, Value.json?.members? pairs = some members ∧
      (Schema.ofKind k).violations [] (.object members) = [] := by
  obtain ⟨k', known, sound⟩ := bind_eq_ok.mp sound
  obtain rfl : k' = k := Except.ok.inj (known.symm.trans kind)
  simp only [raw, Value.json?] at sound
  cases shown : Value.json?.members? pairs with
  | none => simp [shown] at sound
  | some members =>
    simp only [shown, Option.map_some] at sound
    split at sound
    next clean => exact ⟨members, rfl, clean⟩
    · cases sound

theorem entries_of_result {σ : Type} {d : Document} {field : String → Option (Node → Decoder (σ → σ))} {start r : σ}
    {tag : String} {entries : List (Node × Node)} {es : Node.Entries} {t t' : Tally}
    (root : d.tree.root = .mapping tag entries) (visited : Decoder.visit { depth := d.tree.depth } = .ok ((), t))
    (collected : Node.collect true d.tree.depth none entries t = .ok (es, t'))
    (done : Decoder.result d.tree.depth (do return (← Node.record? field start d.tree.root).getD start) = .ok r) :
    ∃ t'', es.found.foldlM (Node.enter field) start t' = .ok (r, t'') := by
  obtain ⟨t'', done⟩ := Decoder.result_eq_ok done
  obtain ⟨record, w, recorded, last⟩ := Decoder.bind_eq_ok.mp done
  obtain ⟨rfl, -⟩ := Decoder.pure_eq_ok.mp last
  rw [root] at recorded
  obtain ⟨v₁, es', v₂, r, visited', collected', entered, rfl⟩ := Node.record?_of_mapping recorded
  obtain rfl : t = v₁ := (Prod.mk.inj (Except.ok.inj (visited.symm.trans visited'))).2
  obtain ⟨rfl, rfl⟩ := Prod.mk.inj (Except.ok.inj (collected.symm.trans collected'))
  exact ⟨w, entered⟩

theorem id_ne_empty {d : Document} {r : ProcessRecord Float} (top : d.tree.topMap = .ok (some d.raw))
    (sound : d.checkSchema = .ok ()) (kind : d.kind = .ok .process) (read : d.process = .ok r) :
    r.id ≠ "" := by
  obtain ⟨tag, entries, es, pairs, t, t', root, visited, collected, raw, values⟩ := entries_of_topMap top
  have keyed : Node.Keyed es.found := (Node.keyed_of_collect _).1 collected
  -- the schema asks for an id, and for a text in it
  obtain ⟨members, shown, clean⟩ := members_of_checkSchema raw sound kind
  obtain ⟨_, ⟨rfl⟩, properties, whole⟩ := Schema.members_of_object clean
  obtain ⟨v, found⟩ := Schema.exists_member whole (show "id" ∈ _ by simp)
  obtain ⟨text, rfl, filled⟩ := Schema.string_of_text (Schema.violations_of_ofProperties properties
    (show ("id", Schema.text true) ∈ _ by simp) found)
  obtain ⟨node, v, u, u', entry, decoded, same⟩ := Node.entry_of_member (by decide) values shown (mem_of_lookup found)
  -- the same entries make the process
  obtain ⟨start, made, read⟩ := bind_eq_ok.mp read
  obtain ⟨_, -, read⟩ := bind_eq_ok.mp read
  cases read
  obtain ⟨t'', entered⟩ := entries_of_result root visited collected (mapError_eq_ok.mp made)
  have sets : Record.Sets (Record.processField id) (·.id) "id" Node.text? id := Record.sets_id fun _ _ => rfl
  obtain ⟨s, w, w', taken, set⟩ := Record.part_of_entry sets keyed entry entered
  obtain ⟨_, rfl, given⟩ := Node.text?_ne_empty decoded same filled taken
  rw [set]
  exact given

end Document

end Flowsheet
