import Flowsheet.Lookup
import Flowsheet.Proofs.Yaml.Decoder

set_option autoImplicit false

namespace Flowsheet.Yaml

theorem Decoder.foldlM_seen {α β γ : Type} {f : β → α → Decoder β} {see : β → γ} {change : γ → α → γ} {xs : List α}
    {s s' : β} {t t' : Tally}
    (step : ∀ x ∈ xs, ∀ r r' u u', f r x u = .ok (r', u') → see r' = change (see r) x)
    (done : xs.foldlM f s t = .ok (s', t')) : see s' = xs.foldl change (see s) := by
  induction xs generalizing s t with
  | nil =>
    cases done
    rfl
  | cons x xs ih =>
    obtain ⟨r, u, first, rest⟩ := foldlM_cons_eq_ok.mp done
    obtain ⟨here, later⟩ := List.forall_mem_cons.mp step
    rw [List.foldl_cons, ih later rest, here _ _ _ _ first]

theorem Decoder.foldlM_alike {α β γ : Type} {f f' : β → α → Decoder β} {see : β → γ} {xs : List α}
    {s s' r r' : β} {t t' u u' : Tally}
    (step : ∀ x ∈ xs, ∀ s s' r r' t t' u u', see s = see s' → f s x t = .ok (r, t') → f' s' x u = .ok (r', u') →
      see r = see r')
    (alike : see s = see s') (first : xs.foldlM f s t = .ok (r, t')) (second : xs.foldlM f' s' u = .ok (r', u')) :
    see r = see r' := by
  induction xs generalizing s s' t u with
  | nil =>
    cases first
    cases second
    exact alike
  | cons x xs ih =>
    obtain ⟨p, v, first, others⟩ := foldlM_cons_eq_ok.mp first
    obtain ⟨p', v', second, others'⟩ := foldlM_cons_eq_ok.mp second
    obtain ⟨here, later⟩ := List.forall_mem_cons.mp step
    exact ih later (here _ _ _ _ _ _ _ _ alike first second) others others'

def Ordinary (x : String) : Prop := ∀ dates, Atom.implicit dates x = .text x

namespace Atom

theorem number?_ne_text (text s : String) : number? text ≠ some (.text s) := by
  simp only [number?]
  split
  · nofun
  · split
    · cases Decimal.readFloat? (String.ofList (text.toList.filter (· ≠ '_'))) <;> nofun
    · nofun

theorem implicit_eq_text {dates : Bool} {text s : String} (read : implicit dates text = .text s) : s = text := by
  have own {a? : Option Atom} (other : a? ≠ some (.text s)) (read : a?.getD (.text text) = .text s) : s = text := by
    cases a? with
    | none => exact (Atom.text.inj read).symm
    | some a => exact absurd (congrArg some read) other
  unfold implicit at read
  split at read
  next a known =>
    subst read
    have member : (text, Atom.text s) ∈ words := mem_of_lookup known
    simp [words] at member
  next =>
    split at read
    · cases read
    next c cs _ =>
      split at read
      · refine own (fun found => ?_) read
        obtain ⟨x, -, same⟩ := Option.map_eq_some_iff.mp found
        cases same
      · split at read
        · split at read
          · cases read
          · exact own (number?_ne_text text s) read
        · exact (Atom.text.inj read).symm

theorem read?_eq_text {tag text s : String} {plain : Bool} (read : read? tag plain text = some (.text s)) :
    s = text := by
  unfold read? at read
  split at read
  · split at read
    · exact implicit_eq_text (Option.some.inj read)
    · exact (Atom.text.inj (Option.some.inj read)).symm
  · split at read
    · exact (Atom.text.inj (Option.some.inj read)).symm
    · split at read
      · split at read
        · cases read
        · split at read <;> cases read
      · split at read
        · exact implicit_eq_text (Option.some.inj read)
        · cases read

theorem read?_of_ordinary {x tag : String} {plain : Bool} {a : Atom} (ordinary : Ordinary x)
    (read : read? tag plain x = some a) : a = .text x := by
  simp only [read?, ordinary _] at read
  split at read
  · split at read <;> exact (Option.some.inj read).symm
  · split at read
    · exact (Option.some.inj read).symm
    · split at read
      · exact (Option.some.inj read).symm
      · cases read

end Atom

namespace Node

open Decoder

def textual? (n : Node) : Option String := do
  match ← (← n.resolved?).atom? with
  | .text s => some s
  | _ => none

def Reads (x : String) (n : Node) : Prop := n.textual? = some x

instance (x : String) (n : Node) : Decidable (n.Reads x) := inferInstanceAs (Decidable (_ = _))

theorem reads_iff {x : String} {n : Node} : n.Reads x ↔ ∃ tag plain text,
    n.resolved? = some (.scalar tag plain text) ∧ (Node.scalar tag plain text).atom? = some (.text x) := by
  constructor
  · intro reads
    obtain ⟨m, resolved, reads⟩ := Option.bind_eq_some_iff.mp reads
    obtain ⟨a, atom, reads⟩ := Option.bind_eq_some_iff.mp reads
    cases a <;> cases reads
    cases m with
    | scalar tag plain text => exact ⟨tag, plain, text, resolved, atom⟩
    | _ => cases atom
  · rintro ⟨tag, plain, text, resolved, atom⟩
    simp [Reads, textual?, resolved, atom]

theorem target_eq_ok {n m : Node} {t t' : Tally} (done : n.target t = .ok (m, t')) :
    n.resolved? = some m := by
  cases resolved : n.resolved? with
  | none =>
    simp only [target, resolved] at done
    exact absurd done stop_ne_ok
  | some m' =>
    simp only [target, resolved] at done
    obtain ⟨_, u, -, done⟩ := Decoder.bind_eq_ok.mp done
    obtain ⟨rfl, -⟩ := Decoder.pure_eq_ok.mp done
    rfl

theorem text?_eq_some {n : Node} {x : String} {r : Option String} {t t' : Tally} (reads : n.Reads x)
    (done : n.text? t = .ok (r, t')) : r = some x := by
  obtain ⟨tag, plain, text, resolved, atom⟩ := reads_iff.mp reads
  obtain ⟨m, u, found, done⟩ := Decoder.bind_eq_ok.mp done
  obtain rfl := Option.some.inj ((target_eq_ok found).symm.trans resolved)
  simp only [atom] at done
  obtain ⟨rfl, -⟩ := Decoder.pure_eq_ok.mp done
  by_cases binary : tag = "!!binary"
  · rw [if_pos binary]
  · rw [if_neg binary]
    rw [atom?_eq_read? binary] at atom
    rw [Atom.read?_eq_text atom]

theorem reads_of_text? {n : Node} {x : String} (ordinary : Ordinary x) {t t' : Tally}
    (done : n.text? t = .ok (some x, t')) : n.Reads x := by
  obtain ⟨m, u, found, done⟩ := Decoder.bind_eq_ok.mp done
  have resolved := target_eq_ok found
  cases m with
  | scalar tag plain text =>
    cases atom : (Node.scalar tag plain text).atom? with
    | none =>
      simp only [atom] at done
      exact absurd done stop_ne_ok
    | some a =>
      refine reads_iff.mpr ⟨tag, plain, text, resolved, ?_⟩
      have spelled (other : tag ≠ "!!binary") (same : text = x) : a = .text x := by
        rw [atom?_eq_read? other, same] at atom
        exact Atom.read?_of_ordinary ordinary atom
      have tagged (other : ∀ s, a ≠ .text s) : tag ≠ "!!binary" := by
        rintro rfl
        obtain ⟨s, -, same⟩ := Option.map_eq_some_iff.mp atom
        exact other s same.symm
      simp only [atom] at done
      rw [atom]
      -- Base 64 may spell any text; everything else is the text that is written.
      cases a with
      | null =>
        obtain ⟨same, -⟩ := Decoder.pure_eq_ok.mp done
        cases same
      | text s =>
        obtain ⟨same, -⟩ := Decoder.pure_eq_ok.mp done
        by_cases binary : tag = "!!binary"
        · rw [if_pos binary] at same
          rw [Option.some.inj same]
        · rw [if_neg binary] at same
          rw [spelled binary (Option.some.inj same)]
      | bool | int | float | time =>
        obtain ⟨same, -⟩ := Decoder.pure_eq_ok.mp done
        rw [spelled (tagged nofun) (Option.some.inj same)]
  | sequence => exact absurd done Decoder.mistyped_ne_ok
  | mapping => exact absurd done Decoder.mistyped_ne_ok
  | «alias» => exact absurd done Decoder.mistyped_ne_ok

theorem value_eq_text {fuel : Nat} {n : Node} {v : Value} {x : String} {t t' : Tally}
    (decoded : value fuel n t = .ok (v, t')) : v = .text x ↔ n.Reads x := by
  constructor
  · rintro rfl
    obtain ⟨tag, plain, text, a, resolved, atom, same⟩ := scalar_of_value decoded rfl
    cases a <;> cases same
    exact reads_iff.mpr ⟨tag, plain, text, resolved, atom⟩
  · intro reads
    obtain ⟨tag, plain, text, resolved, atom⟩ := reads_iff.mp reads
    obtain ⟨m, fuel', u, u', same, -, decoded⟩ := resolved_of_value decoded
    obtain rfl := Option.some.inj (resolved.symm.trans same)
    obtain ⟨a, read, rfl⟩ := value_scalar decoded
    rw [atom] at read
    cases read
    rfl

def nodesAt (x : String) (entries : List (Value × Node)) : List Node :=
  (entries.filter (·.1.same (.text x))).map (·.2)

theorem mem_nodesAt {x : String} {entries : List (Value × Node)} {n : Node} :
    n ∈ nodesAt x entries ↔ (.text x, n) ∈ entries := by
  simp only [nodesAt, List.mem_map, List.mem_filter, same_text]
  constructor
  · rintro ⟨⟨k, m⟩, ⟨member, rfl⟩, rfl⟩
    exact member
  · exact fun member => ⟨_, ⟨member, rfl⟩, rfl⟩

def overwrite (nodes : List Node) (n : Node) : List Node := if nodes.isEmpty then [n] else nodes.map fun _ => n

theorem nodesAt_cons (x : String) (e : Value × Node) (entries : List (Value × Node)) :
    nodesAt x (e :: entries) = if e.1.same (.text x) then e.2 :: nodesAt x entries else nodesAt x entries := by
  by_cases same : e.1.same (.text x) = true <;> simp [nodesAt, same]

theorem nodesAt_append (x : String) (entries more : List (Value × Node)) :
    nodesAt x (entries ++ more) = nodesAt x entries ++ nodesAt x more := by
  simp [nodesAt]

theorem nodesAt_isEmpty (x : String) (entries : List (Value × Node)) :
    (nodesAt x entries).isEmpty = !entries.any (·.1.same (.text x)) := by
  induction entries with
  | nil => rfl
  | cons e entries ih =>
    rw [nodesAt_cons, List.any_cons]
    by_cases same : e.1.same (.text x) = true <;> simp [same, ih]

theorem nodesAt_setKey_self (x : String) (entries : List (Value × Node)) (v : Node) :
    nodesAt x (setKey entries (.text x) v) = overwrite (nodesAt x entries) v := by
  have replaced : nodesAt x (entries.map fun e => if e.1.same (.text x) then (.text x, v) else e) =
      (nodesAt x entries).map fun _ => v := by
    induction entries with
    | nil => rfl
    | cons e entries ih =>
      rw [List.map_cons, nodesAt_cons, nodesAt_cons, ih]
      by_cases same : e.1.same (.text x) = true
      · rw [if_pos same, if_pos same, if_pos (same_text.mpr rfl), List.map_cons]
      · rw [if_neg same, if_neg same, if_neg same]
  unfold setKey overwrite
  rw [nodesAt_isEmpty]
  by_cases there : entries.any (·.1.same (.text x)) = true
  · rw [if_pos there, there, replaced]
    rfl
  · rw [if_neg there, Bool.eq_false_iff.mpr there, nodesAt_append, nodesAt_cons, if_pos (same_text.mpr rfl)]
    have none : nodesAt x entries = [] := by
      rw [← List.isEmpty_iff, nodesAt_isEmpty, Bool.eq_false_iff.mpr there]
      rfl
    rw [none]
    rfl

theorem nodesAt_setKey_other {x : String} {k : Value} (other : k ≠ .text x) (entries : List (Value × Node))
    (v : Node) : nodesAt x (setKey entries k v) = nodesAt x entries := by
  have apart : ¬ k.same (.text x) = true := fun same => other (same_text.mp same)
  have replaced : nodesAt x (entries.map fun e => if e.1.same k then (k, v) else e) = nodesAt x entries := by
    induction entries with
    | nil => rfl
    | cons e entries ih =>
      rw [List.map_cons, nodesAt_cons, nodesAt_cons, ih]
      by_cases same : e.1.same k = true
      · rw [if_pos same, if_neg apart, if_neg]
        intro text
        rw [same_text.mp text] at same
        cases k <;> simp_all [Value.same]
      · rw [if_neg same]
  unfold setKey
  split
  · exact replaced
  · rw [nodesAt_append, nodesAt_cons, if_neg apart]
    exact List.append_nil _

theorem nodesAt_merged (x : String) (more entries : List (Value × Node)) :
    nodesAt x (more.foldl (fun acc e => setKey acc e.1 e.2) entries) =
      (nodesAt x more).foldl overwrite (nodesAt x entries) := by
  induction more generalizing entries with
  | nil => rfl
  | cons e more ih =>
    rw [List.foldl_cons, ih, nodesAt_cons]
    by_cases same : e.1.same (.text x) = true
    · rw [if_pos same, List.foldl_cons, same_text.mp same, nodesAt_setKey_self]
    · rw [if_neg same, nodesAt_setKey_other fun text => same (same_text.mpr text)]

structure Sight where
  nodes : List Node
  taken : Option Bool

def spokenFor (x : String) (taken : Option (List Value)) : Option Bool :=
  taken.map (·.any (·.same (.text x)))

def Entries.at (x : String) (es : Entries) : Sight := ⟨nodesAt x es.found, spokenFor x es.taken⟩

theorem spokenFor_eq_true {x : String} {taken : Option (List Value)} :
    (taken.getD []).any (·.same (.text x)) = true ↔ spokenFor x taken = some true := by
  cases taken <;> simp [spokenFor]

def Sight.enter (x : String) (s : Sight) (e : Node × Node) : Sight :=
  if e.1.Reads x ∧ s.taken ≠ some true then ⟨overwrite s.nodes e.2, s.taken.map fun _ => true⟩ else s

theorem at_of_enterAt {x : String} {key : Value} {es es' : Entries} {v k : Node} {t t' : Tally}
    (entered : enterAt es key v t = .ok (es', t')) (read : key = .text x ↔ k.Reads x) :
    es'.at x = (es.at x).enter x (k, v) := by
  unfold enterAt at entered
  unfold Sight.enter
  split at entered
  · exact absurd entered stop_ne_ok
  · by_cases reads : k.Reads x
    · obtain rfl := read.mpr reads
      split at entered
      next known =>
        obtain ⟨rfl, -⟩ := Decoder.pure_eq_ok.mp entered
        exact (if_neg fun free => free.2 (spokenFor_eq_true.mp known)).symm
      next free =>
        obtain ⟨rfl, -⟩ := Decoder.pure_eq_ok.mp entered
        rw [if_pos ⟨reads, fun known => free (spokenFor_eq_true.mpr known)⟩]
        simp only [Entries.at, nodesAt_setKey_self]
        cases es.taken <;> simp [spokenFor, Value.same]
    · have other : key ≠ .text x := fun same => reads (read.mp same)
      rw [if_neg fun both => reads both.1]
      split at entered
      · obtain ⟨rfl, -⟩ := Decoder.pure_eq_ok.mp entered
        rfl
      · obtain ⟨rfl, -⟩ := Decoder.pure_eq_ok.mp entered
        simp only [Entries.at, nodesAt_setKey_other other]
        cases es.taken with
        | none => rfl
        | some taken =>
          have apart : key.same (.text x) = false := Bool.eq_false_iff.mpr fun same => other (same_text.mp same)
          simp [spokenFor, apart]

theorem at_of_enterOne {x : String} (ordinary : Ordinary x) {textKeys : Bool} {fuel : Nat} {e : Node × Node}
    {es es' : Entries} {t t' : Tally} (step : enterOne textKeys fuel es e t = .ok (es', t')) :
    es'.at x = (es.at x).enter x e := by
  cases textKeys with
  | false =>
    obtain ⟨key, w, read, step⟩ := Decoder.bind_eq_ok.mp step
    obtain ⟨v, decoded, rfl⟩ := Decoder.map_eq_ok.mp read
    exact at_of_enterAt step (value_eq_text decoded)
  | true =>
    obtain ⟨key, w, read, step⟩ := Decoder.bind_eq_ok.mp step
    obtain ⟨name, decoded, rfl⟩ := Decoder.map_eq_ok.mp read
    cases name with
    | none =>
      obtain ⟨rfl, -⟩ := Decoder.pure_eq_ok.mp step
      have unread : ¬ e.1.Reads x := fun reads => nomatch text?_eq_some reads decoded
      exact (if_neg fun both => unread both.1).symm
    | some name =>
      refine at_of_enterAt step ⟨?_, fun reads => ?_⟩
      · rintro ⟨⟩
        exact reads_of_text? ordinary decoded
      · rw [Option.some.inj (text?_eq_some reads decoded)]

theorem any_of_keys {x : String} {fuel : Nat} {entries : List (Node × Node)} {keys : List Value}
    (read : List.Forall₂ (fun e v => ∃ u u', value fuel e.1 u = .ok (v, u')) entries keys) :
    keys.any (·.same (.text x)) = entries.any fun e => decide (e.1.Reads x) := by
  induction read with
  | nil => rfl
  | cons key _ ih =>
    obtain ⟨u, u', decoded⟩ := key
    rw [List.any_cons, List.any_cons, ih, Bool.eq_iff_iff.mpr (same_text.trans ((value_eq_text decoded).trans
      decide_eq_true_iff.symm))]

def Sight.own (x : String) (entries : List (Node × Node)) (taken : Option Bool) : Sight :=
  (entries.filter fun e => !e.1.isMerge).foldl (Sight.enter x) ⟨[], taken⟩

def Sight.opened (x : String) (entries : List (Node × Node)) (taken : Option Bool) : Sight :=
  let own := Sight.own x entries taken
  ⟨own.nodes, some (if taken.isSome then own.taken.getD false else entries.any fun e => decide (e.1.Reads x))⟩

def Sight.closed (s : Sight) (taken : Option Bool) : Sight := ⟨s.nodes, if taken.isSome then s.taken else none⟩

theorem sight_of_collect {x : String} (ordinary : Ordinary x) {textKeys : Bool} {fuel : Nat}
    {taken : Option (List Value)} {entries : List (Node × Node)} {es : Entries} {t t' : Tally}
    (done : collect textKeys (fuel + 1) taken entries t = .ok (es, t')) :
    if hasRepeatedKey entries then es.at x = ⟨[], spokenFor x taken⟩
    else match (entries.filter fun e => e.1.isMerge).getLast? with
      | none => es.at x = .own x entries (spokenFor x taken)
      | some (_, source) => ∃ start r u u', start.at x = .opened x entries (spokenFor x taken) ∧
          merge textKeys fuel start source u = .ok (r, u') ∧ es.at x = (r.at x).closed (spokenFor x taken) := by
  have made := collect_eq_ok done
  split at made
  next repeated =>
    rw [if_pos repeated, made]
    rfl
  next distinct =>
    rw [if_neg distinct]
    obtain ⟨own, u, u', gathered, made⟩ := made
    have seen : own.at x = .own x entries (spokenFor x taken) :=
      Decoder.foldlM_seen (fun _ _ _ _ _ _ => at_of_enterOne ordinary) gathered
    cases last : (entries.filter fun e => e.1.isMerge).getLast? with
    | none =>
      simp only [last] at made ⊢
      rw [made]
      exact seen
    | some entry =>
      simp only [last] at made ⊢
      obtain ⟨mine, r, w, w', spoken, joined, rfl⟩ := made
      refine ⟨_, r, w, w', ?_, joined, ?_⟩
      -- A merge begins with all keys of the mapping spoken for, known from outside or found by now.
      · have all : mine.any (·.same (.text x)) = if (spokenFor x taken).isSome then (own.at x).taken.getD false
            else entries.any fun e => decide (e.1.Reads x) := by
          cases taken with
          | some =>
            obtain rfl := spoken
            change _ = (spokenFor x own.taken).getD false
            cases own.taken <;> rfl
          | none => exact any_of_keys spoken
        rw [Sight.opened, ← seen, ← all]
        rfl
      · cases taken <;> rfl

theorem sight_of_merged {x : String} {textKeys : Bool} {fuel : Nat} {es r : Entries} {n : Node} {t t' : Tally}
    (done : mergeOne textKeys fuel es n t = .ok (r, t')) :
    ∃ entries more u u', n.drawn? = some entries ∧ collect textKeys fuel es.taken entries u = .ok (more, u') ∧
      r.at x = ⟨(more.at x).nodes.foldl overwrite (es.at x).nodes, (more.at x).taken⟩ := by
  obtain ⟨entries, more, u, u', drawn, found, rfl⟩ := mergeOne_eq_ok done
  exact ⟨entries, more, u, u', drawn, found, by rw [Entries.at, nodesAt_merged]; rfl⟩

theorem collect_alike {x : String} (ordinary : Ordinary x) (fuel : Nat) :
    (∀ {fuel' : Nat} {textKeys textKeys' : Bool} {taken taken' entries es es' t t' u u'},
      spokenFor x taken = spokenFor x taken' →
        collect textKeys fuel taken entries t = .ok (es, t') →
          collect textKeys' fuel' taken' entries u = .ok (es', u') → es.at x = es'.at x) ∧
      ∀ {fuel' : Nat} {textKeys textKeys' : Bool} {es es' source r r' t t' u u'},
        es.at x = es'.at x → merge textKeys fuel es source t = .ok (r, t') →
          merge textKeys' fuel' es' source u = .ok (r', u') → r.at x = r'.at x := by
  -- both runs spend fuel at the same places, the second one of its own
  induction fuel with
  | zero => exact ⟨fun _ done => absurd done collect_zero_ne_ok, fun _ done => absurd done merge_zero_ne_ok⟩
  | succ fuel ih =>
    obtain ⟨collected, merged⟩ := ih
    constructor
    · intro fuel' textKeys textKeys' taken taken' entries es es' t t' u u' spoken first second
      cases fuel' with
      | zero => exact absurd second collect_zero_ne_ok
      | succ fuel' =>
        have here := sight_of_collect ordinary first
        have there := sight_of_collect ordinary second
        rw [← spoken] at there
        split at here
        next repeated =>
          rw [if_pos repeated] at there
          exact here.trans there.symm
        next distinct =>
          rw [if_neg distinct] at there
          split at here
          next last =>
            simp only [last] at there
            exact here.trans there.symm
          next source last =>
            simp only [last] at there
            obtain ⟨start, r, v, v', opened, joined, closed⟩ := here
            obtain ⟨start', r', w, w', opened', joined', closed'⟩ := there
            rw [closed, closed', merged (opened.trans opened'.symm) joined joined']
    · intro fuel' textKeys textKeys' es es' source r r' t t' u u' alike first second
      cases fuel' with
      | zero => exact absurd second merge_zero_ne_ok
      | succ fuel' =>
        have one (n : Node) (es es' r r' : Entries) (t t' u u' : Tally) (alike : es.at x = es'.at x)
            (first : mergeOne textKeys fuel es n t = .ok (r, t'))
            (second : mergeOne textKeys' fuel' es' n u = .ok (r', u')) : r.at x = r'.at x := by
          obtain ⟨entries, more, v, v', drawn, found, sight⟩ := sight_of_merged (x := x) first
          obtain ⟨entries', more', w, w', drawn', found', sight'⟩ := sight_of_merged (x := x) second
          obtain rfl := Option.some.inj (drawn.symm.trans drawn')
          rw [sight, sight', alike, collected (congrArg Sight.taken alike) found found']
        rw [merge_succ] at first second
        cases source with
        | sequence tag items =>
          simp only at first second
          exact Decoder.foldlM_alike (fun n _ => one n) alike first second
        | _ => exact one _ _ _ _ _ _ _ _ _ alike first second

theorem mem_of_collect {x : String} (ordinary : Ordinary x) {fuel fuel' : Nat} {textKeys textKeys' : Bool}
    {entries : List (Node × Node)} {es es' : Entries} {t t' u u' : Tally}
    (first : collect textKeys fuel none entries t = .ok (es, t'))
    (second : collect textKeys' fuel' none entries u = .ok (es', u')) {n : Node} :
    (.text x, n) ∈ es.found ↔ (.text x, n) ∈ es'.found := by
  have alike : nodesAt x es.found = nodesAt x es'.found :=
    congrArg Sight.nodes ((collect_alike ordinary fuel).1 rfl first second)
  rw [← mem_nodesAt, ← mem_nodesAt, alike]

end Node

end Flowsheet.Yaml
