import Mathlib.Data.List.Forall2
import Flowsheet.Yaml.Fields

set_option autoImplicit false

namespace Flowsheet.Yaml

namespace Decoder

variable {α β : Type} {t t' : Tally}

theorem bind_eq_ok {d : Decoder α} {next : α → Decoder β} {b : β} :
    (d >>= next) t = .ok (b, t') ↔ ∃ a u, d t = .ok (a, u) ∧ next a u = .ok (b, t') := by
  change (d t >>= fun p => next p.1 p.2) = .ok (b, t') ↔ _
  cases d t with
  | error e => simp [bind, Except.bind]
  | ok p =>
    obtain ⟨a, u⟩ := p
    simp [bind, Except.bind]

theorem map_eq_ok {d : Decoder α} {f : α → β} {b : β} :
    (f <$> d) t = .ok (b, t') ↔ ∃ a, d t = .ok (a, t') ∧ f a = b := by
  change (d t >>= fun p => Except.ok (f p.1, p.2)) = .ok (b, t') ↔ _
  cases d t with
  | error e => simp [bind, Except.bind]
  | ok p =>
    obtain ⟨a, u⟩ := p
    simp only [bind, Except.bind, Except.ok.injEq, Prod.mk.injEq]
    constructor
    · rintro ⟨rfl, rfl⟩
      exact ⟨a, ⟨rfl, rfl⟩, rfl⟩
    · rintro ⟨a', ⟨rfl, rfl⟩, rfl⟩
      exact ⟨rfl, rfl⟩

theorem pure_eq_ok {a b : α} : (pure a : Decoder α) t = .ok (b, t') ↔ a = b ∧ t = t' := by
  change Except.ok (a, t) = .ok (b, t') ↔ _
  simp

theorem stop_ne_ok {p : α × Tally} : (stop : Decoder α) t ≠ .ok p := nofun

theorem mistyped_ne_ok {a : α} : (do mistyped; return none : Decoder (Option α)) t ≠ .ok (some a, t') := by
  intro done
  obtain ⟨_, u, -, done⟩ := bind_eq_ok.mp done
  obtain ⟨same, -⟩ := pure_eq_ok.mp done
  cases same

theorem result_eq_ok {depth : Nat} {d : Decoder α} {a : α} (done : result depth d = .ok a) :
    ∃ t, d { depth } = .ok (a, t) := by
  unfold result at done
  cases ran : StateT.run d { depth } with
  | error e => simp [ran] at done
  | ok p =>
    simp only [ran] at done
    split at done
    · cases done
    · cases done
      exact ⟨p.2, ran⟩

theorem mapM_eq_ok {f : α → Decoder β} {xs : List α} {ys : List β} (done : xs.mapM f t = .ok (ys, t')) :
    List.Forall₂ (fun x y => ∃ u u', f x u = .ok (y, u')) xs ys := by
  induction xs generalizing t ys with
  | nil =>
    cases done
    exact .nil
  | cons x xs ih =>
    rw [List.mapM_cons, bind_eq_ok] at done
    obtain ⟨y, u, first, rest⟩ := done
    obtain ⟨zs, u', others, last⟩ := bind_eq_ok.mp rest
    cases last
    exact .cons ⟨t, u, first⟩ (ih others)

theorem foldlM_cons_eq_ok {f : β → α → Decoder β} {x : α} {xs : List α} {s s' : β} :
    (x :: xs).foldlM f s t = .ok (s', t') ↔
      ∃ r u, f s x t = .ok (r, u) ∧ xs.foldlM f r u = .ok (s', t') := by
  rw [List.foldlM_cons, bind_eq_ok]

theorem foldlM_keeps (holds : β → Prop) {f : β → α → Decoder β} {xs : List α} {s s' : β}
    (step : ∀ x ∈ xs, ∀ r r' u u', holds r → f r x u = .ok (r', u') → holds r') (start : holds s)
    (done : xs.foldlM f s t = .ok (s', t')) : holds s' := by
  induction xs generalizing s t with
  | nil =>
    cases done
    exact start
  | cons x xs ih =>
    obtain ⟨r, u, first, rest⟩ := foldlM_cons_eq_ok.mp done
    obtain ⟨here, later⟩ := List.forall_mem_cons.mp step
    exact ih later (here _ _ _ _ start first) rest

theorem foldlM_append_eq_ok {f : β → α → Decoder β} {xs ys : List α} {s s' : β} :
    (xs ++ ys).foldlM f s t = .ok (s', t') ↔
      ∃ r u, xs.foldlM f s t = .ok (r, u) ∧ ys.foldlM f r u = .ok (s', t') := by
  rw [List.foldlM_append, bind_eq_ok]

end Decoder

theorem Atom.read?_empty {tag : String} {plain : Bool} {a : Atom} (read : read? tag plain "" = some a) :
    a = .null ∨ a = .text "" := by
  have empty (dates : Bool) : implicit dates "" = .null := by cases dates <;> rfl
  simp only [read?, empty] at read
  split at read
  · split at read
    · exact .inl (Option.some.inj read).symm
    · exact .inr (Option.some.inj read).symm
  · split at read
    · exact .inr (Option.some.inj read).symm
    · split at read
      · exact .inl (Option.some.inj read).symm
      · cases read

namespace Node

open Decoder

def Keyed (entries : List (Value × Node)) : Prop :=
  ∃ names : List String, entries.map (·.1) = names.map .text ∧ names.Nodup

theorem keyed_nil : Keyed [] := ⟨[], rfl, List.nodup_nil⟩

theorem same_text {v : Value} {s : String} : v.same (.text s) = true ↔ v = .text s := by
  cases v <;> simp [Value.same]

theorem Keyed.setKey {entries : List (Value × Node)} (keyed : Keyed entries) (k : String) (v : Node) :
    Keyed (setKey entries (.text k) v) := by
  obtain ⟨names, keys, distinct⟩ := keyed
  unfold Node.setKey
  split
  · -- a key that is there keeps its place
    refine ⟨names, ?_, distinct⟩
    rw [List.map_map, ← keys]
    refine List.map_congr_left fun e _ => ?_
    by_cases same : e.1.same (.text k) = true
    · rw [Function.comp_apply, if_pos same, same_text.mp same]
    · rw [Function.comp_apply, if_neg same]
  next absent =>
    refine ⟨names ++ [k], by simp [keys], List.nodup_append.mpr ⟨distinct, by simp, ?_⟩⟩
    rintro x inside y last rfl
    obtain rfl : x = k := by simpa using last
    have known : Value.text x ∈ entries.map (·.1) := keys ▸ List.mem_map_of_mem inside
    obtain ⟨e, member, key⟩ := List.mem_map.mp known
    exact absent (List.any_eq_true.mpr ⟨e, member, same_text.mpr key⟩)

theorem Keyed.merged {entries more : List (Value × Node)} (keyed : Keyed entries) (other : Keyed more) :
    Keyed (more.foldl (fun acc e => Node.setKey acc e.1 e.2) entries) := by
  obtain ⟨names, keys, -⟩ := other
  induction more generalizing entries names with
  | nil => exact keyed
  | cons e more ih =>
    obtain _ | ⟨name, names⟩ := names
    · simp at keys
    · obtain ⟨key, rest⟩ := List.cons.inj keys
      rw [List.foldl_cons, show e.1 = .text name from key]
      exact ih (keyed.setKey name e.2) names rest

def enterAt (es : Entries) (key : Value) (v : Node) : Decoder Entries :=
  if key.isCollection then Decoder.stop
  else if (es.taken.getD []).any (·.same key) then return es
  else return ⟨setKey es.found key v, es.taken.map (key :: ·)⟩

def enterOne (textKeys : Bool) (fuel : Nat) (es : Entries) (e : Node × Node) : Decoder Entries := do
  let key : Option Value ←
    if textKeys then (·.map Value.text) <$> e.1.text? else some <$> value fuel e.1
  match key with
  | none => return es
  | some key => enterAt es key e.2

theorem collect_zero_ne_ok {textKeys : Bool} {taken : Option (List Value)} {entries : List (Node × Node)}
    {t : Tally} {p : Entries × Tally} : collect textKeys 0 taken entries t ≠ .ok p := by
  rw [collect]
  exact stop_ne_ok

theorem merge_zero_ne_ok {textKeys : Bool} {es : Entries} {source : Node} {t : Tally} {p : Entries × Tally} :
    merge textKeys 0 es source t ≠ .ok p := by
  rw [merge]
  exact stop_ne_ok

theorem collect_eq_ok {textKeys : Bool} {fuel : Nat} {taken : Option (List Value)} {entries : List (Node × Node)}
    {es : Entries} {t t' : Tally} (done : collect textKeys (fuel + 1) taken entries t = .ok (es, t')) :
    if hasRepeatedKey entries then es = { taken := taken }
    else ∃ own u u', (entries.filter fun e => !e.1.isMerge).foldlM (enterOne textKeys fuel) { taken := taken } u =
        .ok (own, u') ∧
      match (entries.filter fun e => e.1.isMerge).getLast? with
      | none => es = own
      | some (_, source) => ∃ mine r w w',
          (if taken.isSome then mine = own.taken.getD []
            else List.Forall₂ (fun e v => ∃ u u', value fuel e.1 u = .ok (v, u')) entries mine) ∧
          merge textKeys fuel { own with taken := some mine } source w = .ok (r, w') ∧
          es = { r with taken := if taken.isSome then r.taken else none } := by
  rw [collect] at done
  split at done
  next repeated =>
    obtain ⟨_, u, -, done⟩ := Decoder.bind_eq_ok.mp done
    obtain ⟨rfl, -⟩ := Decoder.pure_eq_ok.mp done
    rw [if_pos repeated]
  next distinct =>
    rw [if_neg distinct]
    obtain ⟨own, u, gathered, done⟩ := Decoder.bind_eq_ok.mp done
    refine ⟨own, t, u, gathered, ?_⟩
    cases last : (entries.filter fun e => e.1.isMerge).getLast? with
    | none =>
      simp only [last] at done
      obtain ⟨rfl, -⟩ := Decoder.pure_eq_ok.mp done
      rfl
    | some entry =>
      obtain ⟨_, source⟩ := entry
      simp only [last] at done ⊢
      cases taken with
      | some =>
        obtain ⟨mine, w, known, done⟩ := Decoder.bind_eq_ok.mp done
        obtain ⟨rfl, -⟩ := Decoder.pure_eq_ok.mp known
        obtain ⟨r, w', joined, done⟩ := Decoder.bind_eq_ok.mp done
        obtain ⟨rfl, -⟩ := Decoder.pure_eq_ok.mp done
        exact ⟨_, r, w, w', rfl, joined, rfl⟩
      | none =>
        obtain ⟨mine, w, read, done⟩ := Decoder.bind_eq_ok.mp done
        obtain ⟨r, w', joined, done⟩ := Decoder.bind_eq_ok.mp done
        obtain ⟨rfl, -⟩ := Decoder.pure_eq_ok.mp done
        exact ⟨mine, r, w, w', Decoder.mapM_eq_ok read, joined, rfl⟩

def drawn? : Node → Option (List (Node × Node))
  | .mapping _ entries | .alias _ (some (.mapping _ entries)) => some entries
  | _ => none

def mergeOne (textKeys : Bool) (fuel : Nat) (es : Entries) (n : Node) : Decoder Entries := do
  Decoder.visit
  match n with
  | .mapping _ entries | .alias _ (some (.mapping _ entries)) =>
    let more ← collect textKeys fuel es.taken entries
    return ⟨more.found.foldl (fun acc e => setKey acc e.1 e.2) es.found, more.taken⟩
  | _ => Decoder.stop

theorem merge_succ (textKeys : Bool) (fuel : Nat) (es : Entries) (source : Node) :
    merge textKeys (fuel + 1) es source = match source with
      | .sequence _ items => items.foldlM (mergeOne textKeys fuel) es
      | n => mergeOne textKeys fuel es n := by
  unfold merge
  rfl

theorem mergeOne_eq_ok {textKeys : Bool} {fuel : Nat} {es r : Entries} {n : Node} {t t' : Tally}
    (done : mergeOne textKeys fuel es n t = .ok (r, t')) :
    ∃ entries more u u', n.drawn? = some entries ∧ collect textKeys fuel es.taken entries u = .ok (more, u') ∧
      r = ⟨more.found.foldl (fun acc e => setKey acc e.1 e.2) es.found, more.taken⟩ := by
  obtain ⟨_, u, -, done⟩ := Decoder.bind_eq_ok.mp done
  have one {entries : List (Node × Node)} (drawn : n.drawn? = some entries) (done : (do
        let more ← collect textKeys fuel es.taken entries
        return ⟨more.found.foldl (fun acc e => setKey acc e.1 e.2) es.found, more.taken⟩ : Decoder Entries) u =
          .ok (r, t')) :
      ∃ entries more u u', n.drawn? = some entries ∧ collect textKeys fuel es.taken entries u = .ok (more, u') ∧
        r = ⟨more.found.foldl (fun acc e => setKey acc e.1 e.2) es.found, more.taken⟩ := by
    obtain ⟨more, w, collected, done⟩ := Decoder.bind_eq_ok.mp done
    obtain ⟨rfl, -⟩ := Decoder.pure_eq_ok.mp done
    exact ⟨entries, more, u, w, drawn, collected, rfl⟩
  split at done
  · exact one rfl done
  · exact one rfl done
  · exact absurd done stop_ne_ok

theorem Keyed.enterOne {fuel : Nat} {es es' : Entries} {e : Node × Node} {t t' : Tally} (keyed : Keyed es.found)
    (step : enterOne true fuel es e t = .ok (es', t')) : Keyed es'.found := by
  obtain ⟨key, u, read, step⟩ := Decoder.bind_eq_ok.mp step
  obtain ⟨name, -, rfl⟩ := Decoder.map_eq_ok.mp read
  cases name with
  | none =>
    obtain ⟨rfl, -⟩ := Decoder.pure_eq_ok.mp step
    exact keyed
  | some name =>
    simp only [Option.map_some, enterAt] at step
    rw [if_neg (show ¬ (Value.text name).isCollection = true from Bool.false_ne_true)] at step
    split at step
    · obtain ⟨rfl, -⟩ := Decoder.pure_eq_ok.mp step
      exact keyed
    · obtain ⟨rfl, -⟩ := Decoder.pure_eq_ok.mp step
      exact keyed.setKey name e.2

theorem keyed_of_collect (fuel : Nat) :
    (∀ {taken entries es t t'}, collect true fuel taken entries t = .ok (es, t') → Keyed es.found) ∧
      ∀ {es es' source t t'}, Keyed es.found → merge true fuel es source t = .ok (es', t') →
        Keyed es'.found := by
  induction fuel with
  | zero => exact ⟨fun done => absurd done collect_zero_ne_ok, fun _ done => absurd done merge_zero_ne_ok⟩
  | succ fuel ih =>
    obtain ⟨collected, merged⟩ := ih
    constructor
    · intro taken entries es t t' done
      have made := collect_eq_ok done
      split at made
      · rw [made]
        exact keyed_nil
      · obtain ⟨own, u, u', gathered, made⟩ := made
        have kept : Keyed own.found :=
          Decoder.foldlM_keeps (fun es => Keyed es.found) (fun _ _ _ _ _ _ => Keyed.enterOne) keyed_nil gathered
        split at made
        · rw [made]
          exact kept
        · obtain ⟨mine, r, w, w', -, joined, rfl⟩ := made
          have whole : Keyed r.found := @merged { own with taken := some mine } _ _ _ _ kept joined
          exact whole
    · intro es es' source t t' keyed done
      have one {es es' : Entries} {n : Node} {t t' : Tally} (keyed : Keyed es.found)
          (done : mergeOne true fuel es n t = .ok (es', t')) : Keyed es'.found := by
        obtain ⟨entries, more, u, u', -, found, rfl⟩ := mergeOne_eq_ok done
        exact keyed.merged (collected found)
      rw [merge_succ] at done
      split at done
      · exact Decoder.foldlM_keeps (fun es => Keyed es.found) (fun _ _ _ _ _ _ => one) keyed done
      · exact one keyed done

theorem value_zero_ne_ok {n : Node} {t : Tally} {p : Value × Tally} : value 0 n t ≠ .ok p := by
  rw [value]
  exact stop_ne_ok

theorem value_scalar {fuel : Nat} {tag text : String} {plain : Bool} {v : Value} {t t' : Tally}
    (decoded : value fuel (.scalar tag plain text) t = .ok (v, t')) :
    ∃ a, (Node.scalar tag plain text).atom? = some a ∧ v = .ofAtom a := by
  cases fuel with
  | zero => exact absurd decoded value_zero_ne_ok
  | succ fuel =>
    obtain ⟨_, u, -, decoded⟩ := Decoder.bind_eq_ok.mp (by rwa [value] at decoded)
    cases read : (Node.scalar tag plain text).atom? with
    | none =>
      simp only [read] at decoded
      exact absurd decoded stop_ne_ok
    | some a =>
      simp only [read] at decoded
      obtain ⟨rfl, -⟩ := Decoder.pure_eq_ok.mp decoded
      exact ⟨a, rfl, rfl⟩

theorem value_sequence {fuel : Nat} {tag : String} {items : List Node} {v : Value} {t t' : Tally}
    (decoded : value fuel (.sequence tag items) t = .ok (v, t')) :
    ∃ fuel' vs, v = .list vs ∧ List.Forall₂ (fun n v => ∃ u u', value fuel' n u = .ok (v, u')) items vs := by
  cases fuel with
  | zero => exact absurd decoded value_zero_ne_ok
  | succ fuel =>
    obtain ⟨_, u, -, decoded⟩ := Decoder.bind_eq_ok.mp (by rwa [value] at decoded)
    obtain ⟨vs, w, each, decoded⟩ := Decoder.bind_eq_ok.mp decoded
    obtain ⟨rfl, -⟩ := Decoder.pure_eq_ok.mp decoded
    exact ⟨fuel, vs, rfl, Decoder.mapM_eq_ok each⟩

def Valued (fuel : Nat) (entries : List (Value × Node)) (pairs : List (Value × Value)) : Prop :=
  List.Forall₂ (fun e p => p.1 = e.1 ∧ ∃ u u', value fuel e.2 u = .ok (p.2, u')) entries pairs

theorem valued_of_mapM {fuel : Nat} {entries : List (Value × Node)} {pairs : List (Value × Value)} {t t' : Tally}
    (done : (entries.mapM fun (k, v) => do return (k, ← value fuel v) : Decoder _) t = .ok (pairs, t')) :
    Valued fuel entries pairs := by
  refine (Decoder.mapM_eq_ok done).imp ?_
  rintro ⟨k, n⟩ ⟨k', v⟩ ⟨u, u', paired⟩
  obtain ⟨v', w, value, paired⟩ := Decoder.bind_eq_ok.mp paired
  obtain ⟨same, -⟩ := Decoder.pure_eq_ok.mp paired
  cases same
  exact ⟨rfl, u, w, value⟩

theorem value_mapping {fuel : Nat} {tag : String} {entries : List (Node × Node)} {v : Value} {t t' : Tally}
    (decoded : value fuel (.mapping tag entries) t = .ok (v, t')) :
    ∃ textKeys fuel' es pairs u u', collect textKeys fuel' none entries u = .ok (es, u') ∧
      v = .map pairs ∧ Valued fuel' es.found pairs := by
  cases fuel with
  | zero => exact absurd decoded value_zero_ne_ok
  | succ fuel =>
    obtain ⟨_, u, -, decoded⟩ := Decoder.bind_eq_ok.mp (by rwa [value] at decoded)
    obtain ⟨es, w, collected, decoded⟩ := Decoder.bind_eq_ok.mp decoded
    obtain ⟨pairs, w', each, decoded⟩ := Decoder.bind_eq_ok.mp decoded
    obtain ⟨rfl, -⟩ := Decoder.pure_eq_ok.mp decoded
    exact ⟨_, fuel, es, pairs, u, w, collected, rfl, valued_of_mapM each⟩

theorem resolved_of_value {fuel : Nat} {n : Node} {v : Value} {t t' : Tally}
    (decoded : value fuel n t = .ok (v, t')) :
    ∃ m fuel' u u', n.resolved? = some m ∧ (∀ name target, m ≠ .alias name target) ∧
      value fuel' m u = .ok (v, u') := by
  induction fuel generalizing n t t' with
  | zero => exact absurd decoded value_zero_ne_ok
  | succ fuel ih =>
    cases n with
    | scalar | sequence | mapping => exact ⟨_, _, t, t', rfl, nofun, decoded⟩
    | «alias» name target =>
      unfold value at decoded
      obtain ⟨_, u, -, decoded⟩ := Decoder.bind_eq_ok.mp decoded
      cases target with
      | none => exact absurd decoded stop_ne_ok
      | some n =>
        obtain ⟨_, w, -, decoded⟩ := Decoder.bind_eq_ok.mp decoded
        obtain ⟨v', w', inner, decoded⟩ := Decoder.bind_eq_ok.mp decoded
        obtain ⟨_, w'', -, decoded⟩ := Decoder.bind_eq_ok.mp decoded
        obtain ⟨rfl, -⟩ := Decoder.pure_eq_ok.mp decoded
        obtain ⟨m, fuel', u, u', resolved, kind, inner⟩ := ih inner
        exact ⟨m, fuel', u, u', by rw [resolved?, resolved], kind, inner⟩

theorem scalar_of_value {fuel : Nat} {n : Node} {v : Value} {t t' : Tally}
    (decoded : value fuel n t = .ok (v, t')) (single : v.isCollection = false) :
    ∃ tag plain text a, n.resolved? = some (.scalar tag plain text) ∧
      (Node.scalar tag plain text).atom? = some a ∧ v = .ofAtom a := by
  obtain ⟨m, fuel', u, u', resolved, kind, decoded⟩ := resolved_of_value decoded
  cases m with
  | scalar tag plain text =>
    obtain ⟨a, read, same⟩ := value_scalar decoded
    exact ⟨tag, plain, text, a, resolved, read, same⟩
  | sequence tag items =>
    obtain ⟨_, vs, rfl, -⟩ := value_sequence decoded
    cases single
  | mapping tag entries =>
    obtain ⟨_, _, _, pairs, _, _, -, rfl, -⟩ := value_mapping decoded
    cases single
  | «alias» name target => exact absurd rfl (kind name target)

theorem depth_of_visit {t t' : Tally} (visited : visit t = .ok ((), t')) : t'.depth = t.depth := by
  obtain ⟨_, u, counted, visited⟩ := Decoder.bind_eq_ok.mp visited
  have same : u.depth = t.depth := by
    cases counted
    rfl
  obtain ⟨_, _, ⟨rfl⟩, visited⟩ := Decoder.bind_eq_ok.mp visited
  split at visited
  · exact absurd visited stop_ne_ok
  · obtain ⟨-, rfl⟩ := Decoder.pure_eq_ok.mp visited
    exact same

theorem record?_of_mapping {σ : Type} {field : String → Option (Node → Decoder (σ → σ))} {start : σ}
    {tag : String} {entries : List (Node × Node)} {r : Option σ} {t t' : Tally}
    (done : record? field start (.mapping tag entries) t = .ok (r, t')) :
    ∃ u es u' s, visit t = .ok ((), u) ∧ collect true t.depth none entries u = .ok (es, u') ∧
      es.found.foldlM (enter field) start u' = .ok (s, t') ∧ r = some s := by
  obtain ⟨n, w, target, done⟩ := Decoder.bind_eq_ok.mp done
  obtain ⟨_, u, visited, target⟩ := Decoder.bind_eq_ok.mp target
  obtain ⟨rfl, rfl⟩ := Decoder.pure_eq_ok.mp target
  obtain ⟨_, w, ⟨rfl⟩, done⟩ := Decoder.bind_eq_ok.mp done
  obtain ⟨es, u', collected, done⟩ := Decoder.bind_eq_ok.mp done
  obtain ⟨s, w, filled, done⟩ := Decoder.bind_eq_ok.mp done
  obtain ⟨rfl, rfl⟩ := Decoder.pure_eq_ok.mp done
  rw [depth_of_visit visited] at collected
  exact ⟨u, es, u', s, visited, collected, filled, rfl⟩

theorem atom?_eq_read? {tag text : String} {plain : Bool} (other : tag ≠ "!!binary") :
    (Node.scalar tag plain text).atom? = Atom.read? tag plain text := by
  unfold atom?
  split
  next same =>
    cases same
    exact absurd rfl other
  next same =>
    cases same
    rfl
  next not => exact absurd rfl (not tag plain text)

theorem text?_ne_empty {fuel : Nat} {n : Node} {v : Value} {s : String} {r : Option String}
    {t t' u u' : Tally} (decoded : value fuel n t = .ok (v, t')) (shown : v.json? = some (.string s))
    (filled : s ≠ "") (read : n.text? u = .ok (r, u')) : ∃ text, r = some text ∧ text ≠ "" := by
  have single : v.isCollection = false := by
    cases v with
    | list | map => simp [Value.json?] at shown
    | _ => rfl
  obtain ⟨tag, plain, text, a, resolved, atom, rfl⟩ := scalar_of_value decoded single
  unfold text? target at read
  rw [resolved] at read
  obtain ⟨n', w, found, read⟩ := Decoder.bind_eq_ok.mp read
  obtain ⟨_, w', -, found⟩ := Decoder.bind_eq_ok.mp found
  obtain ⟨rfl, -⟩ := Decoder.pure_eq_ok.mp found
  simp only [atom] at read
  -- An empty scalar reads as a null or as the empty text, whatever its tag, but for base 64.
  have spelled (other : tag ≠ "!!binary") : text ≠ "" := by
    rintro rfl
    rw [atom?_eq_read? other] at atom
    rcases Atom.read?_empty atom with rfl | rfl
    · cases shown
    · cases shown
      exact filled rfl
  cases a with
  | null | bool | int => cases shown
  | float x => simp [Value.ofAtom, Value.json?, Json.ofFloat] at shown
  | text x =>
    cases shown
    obtain ⟨rfl, -⟩ := Decoder.pure_eq_ok.mp read
    refine ⟨_, rfl, ?_⟩
    split
    · exact filled
    next other => exact spelled other
  | time τ =>
    obtain ⟨rfl, -⟩ := Decoder.pure_eq_ok.mp read
    refine ⟨text, rfl, spelled ?_⟩
    rintro rfl
    simp [atom?] at atom

end Node

end Flowsheet.Yaml
