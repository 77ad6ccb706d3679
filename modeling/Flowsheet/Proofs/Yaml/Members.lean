import Flowsheet.Proofs.Result
import Flowsheet.Proofs.Template.Reading
import Flowsheet.Proofs.Text.Digits
import Flowsheet.Proofs.Yaml.Keys

set_option autoImplicit false

namespace Flowsheet.Yaml

open Template (isName)

theorem Timestamp.dash_of_json {t : Timestamp} {s : String} (shown : t.json? = some s) : '-' ∈ s.toList := by
  unfold json? at shown
  split at shown
  · cases shown
  · rw [← Option.some.inj shown]
    simp [dateText]

namespace Value

variable {v : Value} {x : String}

theorem time_ne_name {t : Timestamp} (named : isName x.toList = true) : t.json? ≠ some x := by
  intro shown
  have part := Template.isNamePart_of_isName named _ (Timestamp.dash_of_json shown)
  exact absurd part (by decide)

theorem int_ne_name {n : Int} (named : isName x.toList = true) : toString n ≠ x := by
  rintro rfl
  have start (c : Char) (cs : List Char) (front : (toString n).toList = c :: cs) : Template.isNameStart c = true := by
    rw [front, isName, Bool.and_eq_true] at named
    exact named.1
  rw [Text.toList_toString] at start
  obtain ⟨d, ds, front⟩ := List.exists_cons_of_ne_nil (Nat.toDigits_ne_nil (b := 10) (n := n.natAbs))
  by_cases negative : n < 0
  · rw [if_pos negative] at start
    exact absurd (start _ _ rfl) (by decide)
  · rw [if_neg negative, List.nil_append] at start
    have digit := Text.isDigit_toDigits d (front ▸ List.mem_cons_self)
    rw [Template.isDigit_eq_false_of_isNameStart (start d ds front)] at digit
    cases digit

theorem eq_text_of_memberName (named : isName x.toList = true) (shown : v.memberName? = some x) : v = .text x := by
  cases v with
  | text s => exact congrArg Value.text (Option.some.inj shown)
  | int n => exact absurd (Option.some.inj shown) (int_ne_name named)
  | time t => exact absurd shown (time_ne_name named)
  | _ => cases shown

theorem eq_text_of_json (named : isName x.toList = true) (shown : v.json? = some (.string x)) : v = .text x := by
  cases v with
  | text s =>
    cases shown
    rfl
  | time t =>
    obtain ⟨s, written, same⟩ := Option.map_eq_some_iff.mp shown
    cases same
    exact absurd written (time_ne_name named)
  | _ => simp [json?, Json.ofInt, Json.ofFloat] at shown

theorem list_of_json {js : List Json} (shown : v.json? = some (.array js)) :
    ∃ vs, v = .list vs ∧ List.Forall₂ (fun v j => v.json? = some j) vs js := by
  have each {vs : List Value} {js : List Json} (shown : json?.list? vs = some js) :
      List.Forall₂ (fun v j => v.json? = some j) vs js := by
    induction vs generalizing js with
    | nil =>
      cases shown
      exact .nil
    | cons v vs ih =>
      simp only [json?.list?, Option.bind_eq_bind, Option.bind_eq_some_iff, Option.pure_def] at shown
      obtain ⟨j, first, rest, others, last⟩ := shown
      cases last
      exact .cons first (ih others)
  cases v with
  | list vs =>
    obtain ⟨_, shown, same⟩ := Option.map_eq_some_iff.mp shown
    cases same
    exact ⟨vs, rfl, each shown⟩
  | _ => simp [json?, Json.ofInt, Json.ofFloat] at shown

theorem members_of_json {pairs : List (Value × Value)} {members : List (String × Json)}
    (shown : json?.members? pairs = some members) :
    List.Forall₂ (fun p m => p.1.memberName? = some m.1 ∧ p.2.json? = some m.2) pairs members := by
  induction pairs generalizing members with
  | nil =>
    cases shown
    exact .nil
  | cons p pairs ih =>
    obtain ⟨k, v⟩ := p
    simp only [json?.members?, Option.bind_eq_bind, Option.bind_eq_some_iff, Option.pure_def] at shown
    obtain ⟨name, key, j, value, rest, others, last⟩ := shown
    cases last
    exact .cons ⟨key, value⟩ (ih others)

theorem map_of_json {members : List (String × Json)} (shown : v.json? = some (.object members)) :
    ∃ pairs, v = .map pairs ∧ json?.members? pairs = some members := by
  cases v with
  | map pairs =>
    obtain ⟨_, shown, same⟩ := Option.map_eq_some_iff.mp shown
    cases same
    exact ⟨pairs, rfl, shown⟩
  | _ => simp [json?, Json.ofInt, Json.ofFloat] at shown

end Value

namespace Node

theorem entry_of_member {entries : List (Value × Node)} {pairs : List (Value × Value)} {fuel : Nat}
    {members : List (String × Json)} {x : String} {j : Json} (named : isName x.toList = true)
    (values : Valued fuel entries pairs) (shown : Value.json?.members? pairs = some members)
    (member : (x, j) ∈ members) :
    ∃ n v u u', (.text x, n) ∈ entries ∧ value fuel n u = .ok (v, u') ∧ v.json? = some j := by
  obtain ⟨p, pair, key, value⟩ := exists_left_of_mem (Value.members_of_json shown) member
  obtain ⟨e, entry, same, u, u', decoded⟩ := exists_left_of_mem values pair
  have text := Value.eq_text_of_memberName named (same ▸ key)
  exact ⟨e.2, p.2, u, u', by rw [← text]; exact entry, decoded, value⟩

theorem member_of_entry {entries : List (Value × Node)} {pairs : List (Value × Value)} {fuel : Nat}
    {members : List (String × Json)} {x : String} {n : Node} (values : Valued fuel entries pairs)
    (shown : Value.json?.members? pairs = some members) (entry : (.text x, n) ∈ entries) :
    ∃ j, (x, j) ∈ members := by
  obtain ⟨p, pair, same, -⟩ := exists_left_of_mem values.flip entry
  obtain ⟨m, member, key, -⟩ := exists_left_of_mem (Value.members_of_json shown).flip pair
  obtain rfl : x = m.1 := by
    rw [same] at key
    exact Option.some.inj key
  exact ⟨m.2, member⟩

end Node

end Flowsheet.Yaml
