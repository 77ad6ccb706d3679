import Flowsheet.Proofs.Document.Identified
import Flowsheet.Proofs.Document.Identifier
import Flowsheet.Proofs.Template.Filling

set_option autoImplicit false

namespace Flowsheet

open Yaml
open Yaml.Node (Valued)

/-- A formula can be this name alone, and a template can have a place for it, which its value fills. -/
def Usable (x : String) : Prop :=
  (∀ (N : Type) [Quantity N], (Formula.parse x : Except Formula.ParseError (Formula N)) = .ok (.name x)) ∧
    ∀ (library : Template.Library) (title : String), ∃ t,
      Template.parse library title (Text.bytes ("$\x7b" ++ x ++ "\x7d")) = .ok t ∧ t.placeholders = [x] ∧
        ∀ answers moment value, t.fill answers moment [(x, value)] = .ok value

theorem usable_of_isIdentifier {x : String} (named : Schema.isIdentifier x = true) : Usable x := by
  constructor
  · intro N _
    have agree := (isIdentifier_agrees (N := N) (Text.bytes x)).out 1 2
    rw [Text.ofBytes_bytes] at agree
    obtain ⟨y, parsed, same⟩ := agree.mp named
    rwa [Text.bytes_injective same] at parsed
  · intro library title
    rw [Schema.isIdentifier_eq_isName] at named
    have pieces : Text.pieces (Text.bytes ("$\x7b" ++ x ++ "\x7d")) =
        .char '$' :: .char '\x7b' :: ([] ++ x.toList.map .char ++ []) ++ .char '\x7d' :: [] := by
      rw [Text.pieces_bytes]
      simp
    have read : Template.Reads (Text.pieces (Text.bytes ("$\x7b" ++ x ++ "\x7d"))) [.place x] := by
      rw [pieces]
      have place : Template.Reads (.char '$' :: .char '\x7b' :: ([] ++ x.toList.map .char ++ []) ++ .char '\x7d' :: [])
          [.place (String.ofList x.toList)] := .place named (by simp) .done
      rwa [String.ofList_toList] at place
    refine ⟨_, read.parse, rfl, fun answers moment value => ?_⟩
    have filled := Template.render?_segments ⟨library, answers⟩ moment [(x, value)] [.place x]
    rw [Template.joined?_complete (by simp [Template.Part.names])] at filled
    simp only [Template.fill, Template.execute]
    rw [← Template.data, filled]
    simp [Template.Part.output]

theorem usable_iff {x : String} : Usable x ↔ Schema.isIdentifier x = true := by
  refine ⟨fun usable => ?_, usable_of_isIdentifier⟩
  have agree := (isIdentifier_agrees (N := Float) (Text.bytes x)).out 1 2
  rw [Text.ofBytes_bytes] at agree
  exact agree.mpr ⟨x, usable.1 Float, rfl⟩

namespace Schema

theorem items_of_list {items : Schema} {least most : Option Nat} {path : List String} {v : Json}
    (sound : (Schema.list items least most).violations path v = []) :
    ∃ js, v = .array js ∧ ∀ j ∈ js, ∃ path', items.violations path' j = [] := by
  cases v with
  | array js =>
    simp only [violations, List.append_eq_nil_iff, List.flatten_eq_nil_iff, List.mem_map] at sound
    refine ⟨js, rfl, fun j inside => ?_⟩
    obtain ⟨i, small, rfl⟩ := List.mem_iff_getElem.mp inside
    exact ⟨_, sound.2 _ ⟨(js[i], i), by simp [List.mem_zipIdx_iff_getElem?], rfl⟩⟩
  | _ => simp [violations, notNullable, mistyped] at sound

theorem string_of_identifier {path : List String} {v : Json} (sound : Schema.identifier.violations path v = []) :
    ∃ s, v = .string s ∧ isIdentifier s = true := by
  cases v with
  | string s =>
    refine ⟨s, rfl, ?_⟩
    simpa [violations] using sound
  | _ => simp [violations, notNullable, mistyped] at sound

/-- Objects that have a name, and an identifier in it. -/
def AsksName (schema : Schema) : Prop :=
  ∃ required properties, schema = .object required properties ∧ "name" ∈ required ∧ ("name", .identifier) ∈ properties

theorem AsksName.name {schema : Schema} (asks : schema.AsksName) {path : List String} {v : Json}
    (sound : schema.violations path v = []) :
    ∃ members x, v = .object members ∧ ("name", .string x) ∈ members ∧ isIdentifier x = true := by
  obtain ⟨required, properties, rfl, needed, property⟩ := asks
  obtain ⟨members, rfl, clean, whole⟩ := members_of_object sound
  obtain ⟨v, found⟩ := exists_member whole needed
  obtain ⟨x, rfl, named⟩ := string_of_identifier (violations_of_ofProperties clean property found)
  exact ⟨members, x, rfl, mem_of_lookup found, named⟩

end Schema

namespace Yaml.Node

variable {α σ : Type}

theorem record?_of_resolved {field : String → Option (Node → Decoder (σ → σ))} {start : σ} {n m : Node}
    (resolved : n.resolved? = some m) (self : m.resolved? = some m) :
    record? field start n = record? field start m := by
  simp only [record?, target, resolved, self]

theorem list?_of_resolved {item : Node → Decoder (Option α)} {n m : Node} (resolved : n.resolved? = some m)
    (self : m.resolved? = some m) : list? item n = list? item m := by
  simp only [list?, target, resolved, self]

theorem mapping_of_value {fuel : Nat} {n : Node} {v : Value} {members : List (String × Json)} {t t' : Tally}
    (decoded : value fuel n t = .ok (v, t')) (shown : v.json? = some (.object members)) :
    ∃ tag entries textKeys fuel' es pairs u u', n.resolved? = some (.mapping tag entries) ∧
      collect textKeys fuel' none entries u = .ok (es, u') ∧ Valued fuel' es.found pairs ∧
        Value.json?.members? pairs = some members := by
  obtain ⟨m, fuel', u, u', resolved, kind, decoded⟩ := resolved_of_value decoded
  obtain ⟨pairs, rfl, members⟩ := Value.map_of_json shown
  cases m with
  | scalar tag plain text =>
    obtain ⟨a, -, same⟩ := value_scalar decoded
    cases a <;> cases same
  | sequence tag items =>
    obtain ⟨_, vs, same, -⟩ := value_sequence decoded
    cases same
  | mapping tag entries =>
    obtain ⟨textKeys, fuel'', es, pairs', w, w', collected, same, values⟩ := value_mapping decoded
    cases same
    exact ⟨tag, entries, textKeys, fuel'', es, pairs, w, w', resolved, collected, values, members⟩
  | «alias» name target => exact absurd rfl (kind name target)

theorem sequence_of_value {fuel : Nat} {n : Node} {v : Value} {js : List Json} {t t' : Tally}
    (decoded : value fuel n t = .ok (v, t')) (shown : v.json? = some (.array js)) :
    ∃ tag items fuel', n.resolved? = some (.sequence tag items) ∧
      ∀ i ∈ items, ∃ j ∈ js, ∃ v u u', value fuel' i u = .ok (v, u') ∧ v.json? = some j := by
  obtain ⟨m, fuel', u, u', resolved, kind, decoded⟩ := resolved_of_value decoded
  obtain ⟨vs, rfl, shows⟩ := Value.list_of_json shown
  cases m with
  | scalar tag plain text =>
    obtain ⟨a, -, same⟩ := value_scalar decoded
    cases a <;> cases same
  | sequence tag items =>
    obtain ⟨fuel'', vs', same, each⟩ := value_sequence decoded
    cases same
    refine ⟨tag, items, fuel'', resolved, fun i inside => ?_⟩
    obtain ⟨v, member, u, u', decoded⟩ := exists_left_of_mem each.flip inside
    obtain ⟨j, last, shown⟩ := exists_left_of_mem shows.flip member
    exact ⟨j, last, v, u, u', decoded, shown⟩
  | mapping tag entries =>
    obtain ⟨_, _, _, pairs, _, _, -, same, -⟩ := value_mapping decoded
    cases same
  | «alias» name target => exact absurd rfl (kind name target)

end Yaml.Node

namespace Record

open Yaml.Node

variable {σ : Type}

theorem ordinary_name : Ordinary "name" := by
  intro dates
  cases dates <;> rfl

theorem name_eq_shown {read : Node → Decoder (Option σ)} {name : σ → String} (names : Names read name) {c : σ}
    {n : Node} {fuel : Nat} {v : Value} {members : List (String × Json)} {x : String} {t t' u u' : Tally}
    (done : read n u = .ok (some c, u')) (decoded : value fuel n t = .ok (v, t'))
    (shown : v.json? = some (.object members)) (member : ("name", .string x) ∈ members)
    (named : Schema.isIdentifier x = true) : name c = x := by
  rw [Schema.isIdentifier_eq_isName] at named
  obtain ⟨field, start, rfl, sets⟩ := names
  obtain ⟨tag, entries, textKeys, fuel', es, pairs, w, w', resolved, collected, values, shown⟩ :=
    mapping_of_value decoded shown
  obtain ⟨m, v, _, _, entry, decoded, text⟩ := entry_of_member (by decide) values shown member
  obtain rfl := Value.eq_text_of_json named text
  -- the record finds the same node under its own key for the name
  rw [record?_of_resolved resolved rfl] at done
  obtain ⟨_, es', _, s, -, collected', entered, same⟩ := record?_of_mapping done
  obtain rfl := Option.some.inj same
  have again := (mem_of_collect ordinary_name collected collected').mp entry
  obtain ⟨r, _, _, taken, set⟩ := part_of_entry sets ((keyed_of_collect _).1 collected') again entered
  obtain rfl := text?_eq_some ((value_eq_text decoded).mp rfl) taken
  exact set

theorem isIdentifier_of_record {read : Node → Decoder (Option σ)} {name : σ → String} (names : Names read name)
    {schema : Schema} (asks : schema.AsksName) {c : σ} {n : Node} {fuel : Nat} {v : Value} {j : Json}
    {path : List String} {t t' u u' : Tally} (done : read n u = .ok (some c, u'))
    (decoded : value fuel n t = .ok (v, t')) (shown : v.json? = some j) (sound : schema.violations path j = []) :
    Schema.isIdentifier (name c) = true := by
  obtain ⟨members, x, rfl, member, named⟩ := asks.name sound
  rw [name_eq_shown names done decoded shown member named]
  exact named

theorem isIdentifier_of_list {read : Node → Decoder (Option σ)} {name : σ → String} (names : Names read name)
    {schema : Schema} (asks : schema.AsksName) {xs : Option (List σ)} {least most : Option Nat} {n : Node}
    {fuel : Nat} {v : Value} {j : Json} {path : List String} {t t' u u' : Tally}
    (done : list? read n u = .ok (some xs, u')) (decoded : value fuel n t = .ok (v, t')) (shown : v.json? = some j)
    (sound : (Schema.list schema least most).violations path j = []) :
    ∀ c ∈ xs.getD [], Schema.isIdentifier (name c) = true := by
  obtain ⟨js, rfl, each⟩ := Schema.items_of_list sound
  obtain ⟨tag, items, fuel', resolved, values⟩ := sequence_of_value decoded shown
  rw [list?_of_resolved resolved rfl] at done
  obtain ⟨m, w, found, done⟩ := Decoder.bind_eq_ok.mp done
  obtain rfl := Option.some.inj (target_eq_ok found)
  obtain ⟨rs, w', records, done⟩ := Decoder.bind_eq_ok.mp done
  obtain ⟨same, -⟩ := Decoder.pure_eq_ok.mp done
  cases same
  intro c inside
  obtain ⟨_, member, rfl⟩ := List.mem_filterMap.mp inside
  obtain ⟨i, item, w, w', made⟩ := exists_left_of_mem (Decoder.mapM_eq_ok records) member
  obtain ⟨j, member, v, w, w', decoded, shown⟩ := values i item
  obtain ⟨path', sound⟩ := each j member
  exact isIdentifier_of_record names asks made decoded shown sound

theorem isIdentifier_of_outcome {schema : Schema} (asks : schema.AsksName) {o : Outcome Float} {n : Node}
    {fuel : Nat} {v : Value} {j : Json} {path : List String} {t t' u u' : Tally}
    (done : outcome? n u = .ok (some o, u')) (decoded : value fuel n t = .ok (v, t')) (shown : v.json? = some j)
    (sound : (Schema.list schema (some 1) (some 1)).violations path j = []) :
    Schema.isIdentifier o.name = true := by
  obtain ⟨js, rfl, each⟩ := Schema.items_of_list sound
  obtain ⟨tag, items, fuel', resolved, values⟩ := sequence_of_value decoded shown
  have only {item : Node} (member : item ∈ items) {w w' : Tally} (made : outcomeRecord? item w = .ok (some o, w')) :
      Schema.isIdentifier o.name = true := by
    obtain ⟨j, inside, v, w, w', decoded, shown⟩ := values item member
    obtain ⟨path', sound⟩ := each j inside
    exact isIdentifier_of_record outcomeRecord?_names asks made decoded shown sound
  unfold outcome? at done
  split at done
  next =>
    cases resolved
    split at done
    · exact only (by simp) done
    · cases done
  next =>
    cases resolved
    split at done
    · exact only (by simp) done
    · cases done
  next =>
    -- behind more aliases a list is no outcome
    obtain ⟨field, start, same, -⟩ := outcomeRecord?_names
    rw [same, record?_of_resolved resolved rfl] at done
    obtain ⟨m, w, found, done⟩ := Decoder.bind_eq_ok.mp done
    obtain rfl := Option.some.inj (target_eq_ok found)
    obtain ⟨_, w, -, done⟩ := Decoder.bind_eq_ok.mp done
    obtain ⟨same, -⟩ := Decoder.pure_eq_ok.mp done
    cases same

/-- Entries, and the members that they are shown as. -/
structure Shows (depth : Nat) (entries : List (Value × Node)) (members : List (String × Json)) : Prop where
  keyed : Keyed entries
  values : ∃ pairs, Valued depth entries pairs ∧ Value.json?.members? pairs = some members

variable {depth : Nat} {entries : List (Value × Node)} {members : List (String × Json)} {k : String}

theorem Shows.entry (shows : Shows depth entries members) (named : Template.isName k.toList = true) {n : Node}
    (entry : (.text k, n) ∈ entries) :
    ∃ v j u u', value depth n u = .ok (v, u') ∧ v.json? = some j ∧ members.lookup k = some j := by
  obtain ⟨pairs, values, shown⟩ := shows.values
  obtain ⟨j, member⟩ := member_of_entry values shown entry
  cases found : members.lookup k with
  | none => exact absurd (List.lookup_eq_none_iff.mp found _ member) (by simp)
  | some j =>
    obtain ⟨m, v, u, u', again, decoded, value⟩ := entry_of_member named values shown (mem_of_lookup found)
    obtain rfl := shows.keyed.unique entry again
    exact ⟨v, j, u, u', decoded, value, rfl⟩

theorem isIdentifier_of_part {ρ : Type} {field : String → Field ρ} {part : ρ → List σ}
    {read : Node → Decoder (Option σ)} {name : σ → String} (sets : Sets field part k (list? read) (·.getD []))
    (names : Names read name) {start r : ρ} (empty : part start = []) {t t' : Tally}
    (entered : entries.foldlM (enter field) start t = .ok (r, t')) (shows : Shows depth entries members)
    (spelled : Template.isName k.toList = true) {properties : List (String × Schema)} {path : List String}
    (clean : Schema.violations.ofProperties path members properties = []) {schema : Schema} {least most : Option Nat}
    (property : properties.lookup k = some (.list schema least most)) (asks : schema.AsksName) :
    ∀ c ∈ part r, Schema.isIdentifier (name c) = true := by
  rcases part_of_entries sets shows.keyed entered with kept | ⟨n, xs, u, u', entry, done, set⟩
  · rw [kept, empty]
    nofun
  · obtain ⟨v, j, w, w', decoded, shown, found⟩ := shows.entry spelled entry
    have sound := Schema.violations_of_ofProperties clean (mem_of_lookup property) found
    rw [set]
    cases xs with
    | none =>
      rw [Option.map_none, Option.getD_none, empty]
      nofun
    | some xs => exact isIdentifier_of_list names asks done decoded shown sound

theorem isIdentifier_of_outcomePart {ρ : Type} {field : String → Field ρ} {part : ρ → Outcome Float}
    (sets : Sets field part "outcome" outcome? id) {start r : ρ} (empty : (part start).name = "") {t t' : Tally}
    (entered : entries.foldlM (enter field) start t = .ok (r, t')) (present : (part r).name ≠ "")
    (shows : Shows depth entries members) {properties : List (String × Schema)} {path : List String}
    (clean : Schema.violations.ofProperties path members properties = []) {schema : Schema}
    (property : properties.lookup "outcome" = some (.list schema (some 1) (some 1))) (asks : schema.AsksName) :
    Schema.isIdentifier (part r).name = true := by
  rcases part_of_entries sets shows.keyed entered with kept | ⟨n, o, u, u', entry, done, set⟩
  · rw [kept] at present
    exact absurd empty present
  · obtain ⟨v, j, w, w', decoded, shown, found⟩ := shows.entry (by decide) entry
    have sound := Schema.violations_of_ofProperties clean (mem_of_lookup property) found
    rw [set] at present ⊢
    cases o with
    | none => exact absurd empty present
    | some o => exact isIdentifier_of_outcome asks done decoded shown sound

end Record

namespace Document

open Record (Shows isIdentifier_of_part isIdentifier_of_outcomePart)

variable {d : Document}

theorem shows_of_topMap {k : Kind} (top : d.tree.topMap = .ok (some d.raw)) (sound : d.checkSchema = .ok ())
    (kind : d.kind = .ok k) :
    ∃ es members t, Shows d.tree.depth es members ∧ (Schema.ofKind k).violations [] (.object members) = [] ∧
      ∀ {σ : Type} {field : String → Record.Field σ} {start r : σ},
        Decoder.result d.tree.depth (do return (← Node.record? field start d.tree.root).getD start) = .ok r →
          ∃ t', es.foldlM (Node.enter field) start t = .ok (r, t') := by
  obtain ⟨tag, entries, es, pairs, t, t', root, visited, collected, raw, values⟩ := entries_of_topMap top
  obtain ⟨members, shown, clean⟩ := members_of_checkSchema raw sound kind
  exact ⟨es.found, members, t', ⟨(Node.keyed_of_collect _).1 collected, pairs, values, shown⟩, clean,
    entries_of_result root visited collected⟩

theorem isIdentifier_of_process {r : ProcessRecord Float} (top : d.tree.topMap = .ok (some d.raw))
    (sound : d.checkSchema = .ok ()) (kind : d.kind = .ok .process) (read : d.process = .ok r) :
    (∀ c ∈ r.constants, Schema.isIdentifier c.name = true) ∧ (∀ i ∈ r.inputs, Schema.isIdentifier i.name = true) ∧
      ∀ o ∈ r.outputs, Schema.isIdentifier o.name = true := by
  obtain ⟨es, members, t, shows, clean, entered⟩ := shows_of_topMap top sound kind
  obtain ⟨_, ⟨rfl⟩, clean, -⟩ := Schema.members_of_object clean
  obtain ⟨r', made, read⟩ := bind_eq_ok.mp read
  obtain ⟨_, -, same⟩ := bind_eq_ok.mp read
  cases same
  obtain ⟨t', entered⟩ := entered (mapError_eq_ok.mp made)
  obtain ⟨constants, inputs, outputs⟩ := Record.process_fields
  refine ⟨?_, ?_, ?_⟩
  · exact isIdentifier_of_part constants Record.constant?_names rfl entered shows (by decide) clean rfl
      ⟨_, _, rfl, by simp, by simp⟩
  · exact isIdentifier_of_part inputs Record.input?_names rfl entered shows (by decide) clean rfl
      ⟨_, _, rfl, by simp, by simp⟩
  · exact isIdentifier_of_part outputs Record.output?_names rfl entered shows (by decide) clean rfl
      ⟨_, _, rfl, by simp, by simp⟩

theorem isIdentifier_of_industry {r : IndustryRecord Float} (top : d.tree.topMap = .ok (some d.raw))
    (sound : d.checkSchema = .ok ()) (kind : d.kind = .ok .industry) (read : d.industry = .ok r) :
    (∀ c ∈ r.constants, Schema.isIdentifier c.name = true) ∧ (∀ o ∈ r.outputs, Schema.isIdentifier o.name = true) ∧
      (∀ x ∈ r.demands, Schema.isIdentifier x.name = true) ∧
        (∀ m ∈ r.metaDemands, Schema.isIdentifier m.name = true) ∧ Schema.isIdentifier r.outcome.name = true := by
  obtain ⟨es, members, t, shows, clean, entered⟩ := shows_of_topMap top sound kind
  obtain ⟨_, ⟨rfl⟩, clean, -⟩ := Schema.members_of_object clean
  obtain ⟨r', made, read⟩ := bind_eq_ok.mp read
  obtain ⟨_, valid, same⟩ := bind_eq_ok.mp read
  cases same
  obtain ⟨field, result, constants, outputs, demands, metaDemands, outcome⟩ := Record.industry_fields
  rw [result] at made
  obtain ⟨t', entered⟩ := entered (mapError_eq_ok.mp made)
  have present : r.outcome.name ≠ "" := by
    obtain ⟨_, -, valid⟩ := bind_eq_ok.mp valid
    intro none
    rw [if_pos none] at valid
    cases valid
  refine ⟨?_, ?_, ?_, ?_, ?_⟩
  · exact isIdentifier_of_part constants Record.constant?_names rfl entered shows (by decide) clean rfl
      ⟨_, _, rfl, by simp, by simp⟩
  · exact isIdentifier_of_part outputs Record.output?_names rfl entered shows (by decide) clean rfl
      ⟨_, _, rfl, by simp, by simp⟩
  · exact isIdentifier_of_part demands Record.demand?_names rfl entered shows (by decide) clean rfl
      ⟨_, _, rfl, by simp, by simp⟩
  · exact isIdentifier_of_part metaDemands Record.metaDemand?_names rfl entered shows (by decide) clean rfl
      ⟨_, _, rfl, by simp, by simp⟩
  · exact isIdentifier_of_outcomePart outcome rfl entered present shows clean rfl ⟨_, _, rfl, by simp, by simp⟩

theorem names_usable (N : Type) [Quantity N] (bs : List UInt8) (path : String) (data : List UInt8) (d : Document) :
    [(Text.ofBytes bs).toList ∈ Schema.identifierExpression.matches',
      Schema.isIdentifier (Text.ofBytes bs) = true,
      ∃ x, (Formula.parseBytes bs : Except Formula.ParseError (Formula N)) = .ok (.name x) ∧ Text.bytes x = bs,
      Template.isName (Text.ofBytes bs).toList = true,
      Template.isIdentifier bs = true].TFAE ∧
    (∀ x, Usable x ↔ Schema.isIdentifier x = true) ∧
    (decode path data = .ok d → d.checkSchema = .ok () →
      (∀ r, d.kind = .ok .process → d.process = .ok r →
        (∀ c ∈ r.constants, Usable c.name) ∧ (∀ i ∈ r.inputs, Usable i.name) ∧ ∀ o ∈ r.outputs, Usable o.name) ∧
      ∀ r, d.kind = .ok .industry → d.industry = .ok r →
        (∀ c ∈ r.constants, Usable c.name) ∧ (∀ o ∈ r.outputs, Usable o.name) ∧ (∀ x ∈ r.demands, Usable x.name) ∧
          (∀ m ∈ r.metaDemands, Usable m.name) ∧ Usable r.outcome.name ∧
            ∀ i ∈ r.inputs, Usable i.name ↔ Schema.isIdentifier i.name = true) := by
  have usable {α : Type} {xs : List α} {name : α → String} (each : ∀ x ∈ xs, Schema.isIdentifier (name x) = true) :
      ∀ x ∈ xs, Usable (name x) := fun x inside => usable_of_isIdentifier (each x inside)
  refine ⟨isIdentifier_agrees bs, fun x => usable_iff, fun read sound => ⟨?_, ?_⟩⟩
  · intro r kind made
    obtain ⟨constants, inputs, outputs⟩ := isIdentifier_of_process (tree_of_decode read) sound kind made
    exact ⟨usable constants, usable inputs, usable outputs⟩
  · intro r kind made
    obtain ⟨constants, outputs, demands, metaDemands, outcome⟩ :=
      isIdentifier_of_industry (tree_of_decode read) sound kind made
    exact ⟨usable constants, usable outputs, usable demands, usable metaDemands, usable_of_isIdentifier outcome,
      fun _ _ => usable_iff⟩

def millText : String :=
  "\x7bname: m, short_name: m, id: m, type: process, constants: [\x7bname: k_1, value: 2\x7d], " ++
    "inputs: [\x7bname: ore\x7d]\x7d"

def worksText : String :=
  "\x7bname: w, short_name: w, id: w, type: industry, outcome: [\x7bname: goal, units: t\x7d], " ++
    "inputs: [\x7bname: a b\x7d]\x7d"

def processNames (text : String) : Except Failure (Kind × List String × List String) := do
  let d ← decode "d.yaml" (Text.bytes text)
  d.checkSchema
  let r ← d.process
  return (← d.kind, r.constants.map (·.name), r.inputs.map (·.name))

def industryNames (text : String) : Except Failure (Kind × List String × String) := do
  let d ← decode "d.yaml" (Text.bytes text)
  d.checkSchema
  let r ← d.industry
  return (← d.kind, r.inputs.map (·.name), r.outcome.name)

theorem processNames_mill : ∃ d r, decode "d.yaml" (Text.bytes millText) = .ok d ∧ d.checkSchema = .ok () ∧
    d.kind = .ok .process ∧ d.process = .ok r ∧ r.constants.map (·.name) = ["k_1"] ∧
      r.inputs.map (·.name) = ["ore"] := by
  have evaluated : (processNames millText).toOption = some (.process, ["k_1"], ["ore"]) := by decide +kernel
  obtain ⟨d, read, found⟩ := bind_eq_ok.mp (toOption_eq_some.mp evaluated)
  obtain ⟨⟨⟩, sound, found⟩ := bind_eq_ok.mp found
  obtain ⟨r, made, found⟩ := bind_eq_ok.mp found
  obtain ⟨k, kind, found⟩ := bind_eq_ok.mp found
  obtain ⟨rfl, others⟩ := Prod.mk.inj (Except.ok.inj found)
  obtain ⟨constants, inputs⟩ := Prod.mk.inj others
  exact ⟨d, r, read, sound, kind, made, constants, inputs⟩

theorem industryNames_works : ∃ d r, decode "d.yaml" (Text.bytes worksText) = .ok d ∧ d.checkSchema = .ok () ∧
    d.kind = .ok .industry ∧ d.industry = .ok r ∧ r.inputs.map (·.name) = ["a b"] ∧ r.outcome.name = "goal" := by
  have evaluated : (industryNames worksText).toOption = some (.industry, ["a b"], "goal") := by decide +kernel
  obtain ⟨d, read, found⟩ := bind_eq_ok.mp (toOption_eq_some.mp evaluated)
  obtain ⟨⟨⟩, sound, found⟩ := bind_eq_ok.mp found
  obtain ⟨r, made, found⟩ := bind_eq_ok.mp found
  obtain ⟨k, kind, found⟩ := bind_eq_ok.mp found
  obtain ⟨rfl, others⟩ := Prod.mk.inj (Except.ok.inj found)
  obtain ⟨inputs, outcome⟩ := Prod.mk.inj others
  exact ⟨d, r, read, sound, kind, made, inputs, outcome⟩

theorem names_usable_mill :
    (∃ (d : Document) (r : ProcessRecord Float), d.checkSchema = .ok () ∧ d.kind = .ok .process ∧
      d.process = .ok r ∧ r.constants.map (·.name) = ["k_1"] ∧ r.inputs.map (·.name) = ["ore"] ∧
        (∀ c ∈ r.constants, Usable c.name) ∧ ∀ i ∈ r.inputs, Usable i.name) ∧
      ∃ (d : Document) (r : IndustryRecord Float), d.checkSchema = .ok () ∧ d.kind = .ok .industry ∧
        d.industry = .ok r ∧ r.outcome.name = "goal" ∧ Usable r.outcome.name := by
  constructor
  · obtain ⟨d, r, read, sound, kind, made, constants, inputs⟩ := processNames_mill
    have usable := ((names_usable Float [] "d.yaml" _ d).2.2 read sound).1 r kind made
    exact ⟨d, r, sound, kind, made, constants, inputs, usable.1, usable.2.1⟩
  · obtain ⟨d, r, read, sound, kind, made, -, outcome⟩ := industryNames_works
    have usable := ((names_usable Float [] "d.yaml" _ d).2.2 read sound).2 r kind made
    exact ⟨d, r, sound, kind, made, outcome, usable.2.2.2.2.1⟩

theorem names_usable_not_works : ∃ (d : Document) (r : IndustryRecord Float),
    decode "d.yaml" (Text.bytes worksText) = .ok d ∧ d.checkSchema = .ok () ∧ d.kind = .ok .industry ∧
      d.industry = .ok r ∧ ∃ i ∈ r.inputs, i.name = "a b" ∧ ¬ Usable i.name := by
  obtain ⟨d, r, read, sound, kind, made, inputs, -⟩ := industryNames_works
  obtain ⟨i, inside, name⟩ := List.mem_map.mp (show "a b" ∈ r.inputs.map (·.name) by simp [inputs])
  refine ⟨d, r, read, sound, kind, made, i, inside, name, ?_⟩
  rw [name, usable_iff]
  decide

end Document

end Flowsheet
