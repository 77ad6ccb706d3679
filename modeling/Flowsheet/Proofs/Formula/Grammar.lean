import Flowsheet.Formula.Parser
import Flowsheet.Proofs.Result

set_option autoImplicit false

namespace Flowsheet

def Sign.operator : Sign → Operator
  | .plus => .add
  | .minus => .sub

namespace Formula

variable {N : Type}

inductive Level where
  | sum
  | product
  | signed
  | primary

def Level.rank : Level → Nat
  | .sum => 1
  | .product => 2
  | .signed => 3
  | .primary => 4

/-- The tokens that spell a formula at a level; chains of operators group to the left. -/
inductive Derives : Level → List (Token N) → Formula N → Prop where
  | number (v : N) : Derives .primary [.number v] (.number v)
  | name (x : String) : Derives .primary [.name x] (.name x)
  | paren {ts : List (Token N)} {e : Formula N} (inner : Derives .sum ts e) :
      Derives .primary (.openParen :: (ts ++ [.closeParen])) e
  | unsigned {ts : List (Token N)} {e : Formula N} (inner : Derives .primary ts e) :
      Derives .signed ts e
  | sign (s : Sign) {ts : List (Token N)} {e : Formula N} (inner : Derives .signed ts e) :
      Derives .signed (.operator s.operator :: ts) (.signed s e)
  | factor {ts : List (Token N)} {e : Formula N} (inner : Derives .signed ts e) :
      Derives .product ts e
  | times {op : Operator} (level : op.precedence = 2) {ts us : List (Token N)} {l r : Formula N}
      (left : Derives .product ts l) (right : Derives .signed us r) :
      Derives .product (ts ++ .operator op :: us) (.binary op l r)
  | term {ts : List (Token N)} {e : Formula N} (inner : Derives .product ts e) :
      Derives .sum ts e
  | plus {op : Operator} (level : op.precedence = 1) {ts us : List (Token N)} {l r : Formula N}
      (left : Derives .sum ts l) (right : Derives .product us r) :
      Derives .sum (ts ++ .operator op :: us) (.binary op l r)

theorem Derives.length_pos {level : Level} {ts : List (Token N)} {e : Formula N}
    (derived : Derives level ts e) : 0 < ts.length := by
  induction derived with
  | number | name | paren | sign => simp
  | unsigned _ ih | factor _ ih | term _ ih => exact ih
  | times | plus => simp only [List.length_append, List.length_cons]; omega

theorem Derives.mem_of_occurs {level : Level} {ts : List (Token N)} {e : Formula N} (derived : Derives level ts e) :
    ∀ x ∈ e.occurrences, .name x ∈ ts := by
  induction derived with
  | number v => exact fun _ none => nomatch none
  | name x => simp [occurrences]
  | paren _ ih => exact fun x inside => by simp [ih x inside]
  | unsigned _ ih | factor _ ih | term _ ih => exact ih
  | sign s _ ih => exact fun x inside => List.mem_cons_of_mem _ (ih x inside)
  | times _ _ _ left right | plus _ _ _ left right =>
    intro x inside
    rcases List.mem_append.mp inside with first | second
    · exact List.mem_append_left _ (left x first)
    · exact List.mem_append_right _ (List.mem_cons_of_mem _ (right x second))

def tokensOf (ls : List (Lexeme N)) : List (Token N) := ls.map (·.token)

theorem additive?_operator {op : Operator} (level : op.precedence = 1) (text : String)
    (offset : Nat) (rest : List (Lexeme N)) :
    additive? (⟨.operator op, text, offset⟩ :: rest) = some (op, rest) := by
  cases op with
  | add | sub => rfl
  | mul | div => cases level

theorem multiplicative?_operator {op : Operator} (level : op.precedence = 2) (text : String)
    (offset : Nat) (rest : List (Lexeme N)) :
    multiplicative? (⟨.operator op, text, offset⟩ :: rest) = some (op, rest) := by
  cases op with
  | mul | div => rfl
  | add | sub => cases level

theorem multiplicative?_of_additive {op : Operator} (level : op.precedence = 1) (text : String)
    (offset : Nat) (rest : List (Lexeme N)) :
    multiplicative? (⟨.operator op, text, offset⟩ :: rest) = none := by
  cases op with
  | add | sub => rfl
  | mul | div => cases level

theorem additive?_eq_some {ts rest : List (Lexeme N)} {op : Operator}
    (found : additive? ts = some (op, rest)) :
    op.precedence = 1 ∧ ∃ text offset, ts = ⟨.operator op, text, offset⟩ :: rest := by
  unfold additive? at found
  split at found
  · cases found; exact ⟨rfl, _, _, rfl⟩
  · cases found; exact ⟨rfl, _, _, rfl⟩
  · cases found

theorem multiplicative?_eq_some {ts rest : List (Lexeme N)} {op : Operator}
    (found : multiplicative? ts = some (op, rest)) :
    op.precedence = 2 ∧ ∃ text offset, ts = ⟨.operator op, text, offset⟩ :: rest := by
  unfold multiplicative? at found
  split at found
  · cases found; exact ⟨rfl, _, _, rfl⟩
  · cases found; exact ⟨rfl, _, _, rfl⟩
  · cases found

theorem Derives.head_not_additive {level : Level} {ts : List (Token N)} {e : Formula N}
    (derived : Derives level ts e) (primary : level = .primary) (ls rest : List (Lexeme N))
    (spelled : tokensOf ls = ts) : additive? (ls ++ rest) = none := by
  cases derived <;> cases primary
  all_goals
    obtain ⟨l, ls', rfl, token, -⟩ := List.map_eq_cons_iff.mp spelled
    obtain ⟨_, _, _⟩ := l
    subst token
    rfl

-- The parser of each level takes a derived token list as a whole. Chains are left open: what follows may
-- continue them. Six calls for each token are enough.
def Recognised (stop : Nat) (ts : List (Token N)) (e : Formula N) : Level → Prop
  | .primary => ∀ fuel (ls rest : List (Lexeme N)), tokensOf ls = ts → 6 * ts.length ≤ fuel →
      parsePrimary stop fuel (ls ++ rest) = .ok (e, rest)
  | .signed => ∀ fuel (ls rest : List (Lexeme N)), tokensOf ls = ts → 6 * ts.length + 1 ≤ fuel →
      parseSigned stop fuel (ls ++ rest) = .ok (e, rest)
  | .product => ∀ fuel (ls rest : List (Lexeme N)), tokensOf ls = ts → 6 * ts.length + 2 ≤ fuel →
      ∃ fuel', fuel ≤ fuel' + ts.length ∧
        parseProduct stop fuel (ls ++ rest) = productFrom stop fuel' e rest
  | .sum => ∀ fuel (ls rest : List (Lexeme N)), tokensOf ls = ts → 6 * ts.length + 3 ≤ fuel →
      multiplicative? rest = none →
      ∃ fuel', fuel ≤ fuel' + ts.length ∧
        parseSum stop fuel (ls ++ rest) = sumFrom stop fuel' e rest

theorem productFrom_stop (stop fuel : Nat) (e : Formula N) (rest : List (Lexeme N))
    (positive : 0 < fuel) (ended : multiplicative? rest = none) :
    productFrom stop fuel e rest = .ok (e, rest) := by
  obtain ⟨fuel, rfl⟩ := Nat.exists_eq_succ_of_ne_zero (Nat.ne_of_gt positive)
  simp [productFrom, ended]

theorem sumFrom_stop (stop fuel : Nat) (e : Formula N) (rest : List (Lexeme N))
    (positive : 0 < fuel) (ended : additive? rest = none) :
    sumFrom stop fuel e rest = .ok (e, rest) := by
  obtain ⟨fuel, rfl⟩ := Nat.exists_eq_succ_of_ne_zero (Nat.ne_of_gt positive)
  simp [sumFrom, ended]

theorem Recognised.paren {stop : Nat} {ts : List (Token N)} {e : Formula N}
    (inner : Recognised stop ts e .sum) :
    Recognised stop (.openParen :: (ts ++ [.closeParen])) e .primary := by
  intro fuel ls rest spelled enough
  obtain ⟨⟨_, _, _⟩, _, rfl, rfl, after⟩ := List.map_eq_cons_iff.mp spelled
  obtain ⟨ls, closing, rfl, within, last⟩ := List.map_eq_append_iff.mp after
  obtain ⟨⟨_, text, offset⟩, _, rfl, rfl, ended⟩ := List.map_eq_cons_iff.mp last
  obtain rfl := List.map_eq_nil_iff.mp ended
  simp only [List.length_cons, List.length_append, List.length_nil] at enough
  obtain ⟨fuel, rfl⟩ := Nat.exists_eq_succ_of_ne_zero (n := fuel) (by omega)
  obtain ⟨fuel', close, taken⟩ :=
    inner fuel ls (⟨.closeParen, text, offset⟩ :: rest) within (by omega) rfl
  rw [sumFrom_stop stop fuel' e (⟨.closeParen, text, offset⟩ :: rest) (by omega) rfl] at taken
  simp [parsePrimary, taken]

theorem Recognised.times {stop : Nat} {op : Operator} (level : op.precedence = 2)
    {ts us : List (Token N)} {l r : Formula N} (left : Recognised stop ts l .product)
    (right : Recognised stop us r .signed) :
    Recognised stop (ts ++ .operator op :: us) (.binary op l r) .product := by
  intro fuel ls rest spelled enough
  obtain ⟨ls, ms, rfl, first, later⟩ := List.map_eq_append_iff.mp spelled
  obtain ⟨⟨_, text, offset⟩, ms, rfl, rfl, second⟩ := List.map_eq_cons_iff.mp later
  simp only [List.length_append, List.length_cons] at enough ⊢
  obtain ⟨fuel', close, taken⟩ :=
    left fuel ls (⟨.operator op, text, offset⟩ :: (ms ++ rest)) first (by omega)
  obtain ⟨fuel', rfl⟩ := Nat.exists_eq_succ_of_ne_zero (n := fuel') (by omega)
  refine ⟨fuel', by omega, ?_⟩
  rw [List.append_assoc, List.cons_append, taken]
  simp [productFrom, multiplicative?_operator level, right fuel' ms rest second (by omega)]

theorem Recognised.plus {stop : Nat} {op : Operator} (level : op.precedence = 1)
    {ts us : List (Token N)} {l r : Formula N} (left : Recognised stop ts l .sum)
    (right : Recognised stop us r .product) :
    Recognised stop (ts ++ .operator op :: us) (.binary op l r) .sum := by
  intro fuel ls rest spelled enough ended
  obtain ⟨ls, ms, rfl, first, later⟩ := List.map_eq_append_iff.mp spelled
  obtain ⟨⟨_, text, offset⟩, ms, rfl, rfl, second⟩ := List.map_eq_cons_iff.mp later
  simp only [List.length_append, List.length_cons] at enough ⊢
  -- the operator ends the last product of the left operand
  obtain ⟨fuel', close, taken⟩ :=
    left fuel ls (⟨.operator op, text, offset⟩ :: (ms ++ rest)) first (by omega)
      (multiplicative?_of_additive level text offset _)
  obtain ⟨fuel', rfl⟩ := Nat.exists_eq_succ_of_ne_zero (n := fuel') (by omega)
  obtain ⟨fuel'', close', factors⟩ := right fuel' ms rest second (by omega)
  have whole := productFrom_stop stop fuel'' r rest (by omega) ended
  rw [whole] at factors
  refine ⟨fuel', by omega, ?_⟩
  rw [List.append_assoc, List.cons_append, taken]
  simp [sumFrom, additive?_operator level, factors]

theorem Derives.recognised (stop : Nat) {level : Level} {ts : List (Token N)} {e : Formula N}
    (derived : Derives level ts e) : Recognised stop ts e level := by
  induction derived with
  | number | name =>
    intro fuel ls rest spelled enough
    obtain ⟨⟨_, _, _⟩, _, rfl, rfl, ended⟩ := List.map_eq_cons_iff.mp spelled
    obtain rfl := List.map_eq_nil_iff.mp ended
    obtain ⟨fuel, rfl⟩ := Nat.exists_eq_succ_of_ne_zero (n := fuel) (by simp at enough; omega)
    simp [parsePrimary]
  | paren _ ih => exact ih.paren
  | unsigned inner ih =>
    intro fuel ls rest spelled enough
    obtain ⟨fuel, rfl⟩ := Nat.exists_eq_succ_of_ne_zero (n := fuel) (by omega)
    simp only [parseSigned, inner.head_not_additive rfl ls rest spelled]
    exact ih fuel ls rest spelled (by omega)
  | sign s _ ih =>
    intro fuel ls rest spelled enough
    obtain ⟨⟨_, text, offset⟩, ls, rfl, rfl, after⟩ := List.map_eq_cons_iff.mp spelled
    simp only [List.length_cons] at enough
    obtain ⟨fuel, rfl⟩ := Nat.exists_eq_succ_of_ne_zero (n := fuel) (by omega)
    have body := ih fuel ls rest after (by omega)
    cases s <;> simp [parseSigned, additive?, Sign.operator, body]
  -- one call down to the next level; a token pays for it, since none is derived from nothing
  | factor inner ih =>
    intro fuel ls rest spelled enough
    obtain ⟨fuel, rfl⟩ := Nat.exists_eq_succ_of_ne_zero (n := fuel) (by omega)
    have positive := inner.length_pos
    refine ⟨fuel, by omega, ?_⟩
    simp [parseProduct, ih fuel ls rest spelled (by omega)]
  | times level _ _ left right => exact left.times level right
  | term inner ih =>
    intro fuel ls rest spelled enough ended
    obtain ⟨fuel, rfl⟩ := Nat.exists_eq_succ_of_ne_zero (n := fuel) (by omega)
    obtain ⟨fuel', close, factors⟩ := ih fuel ls rest spelled (by omega)
    rw [productFrom_stop stop fuel' _ rest (by omega) ended] at factors
    have positive := inner.length_pos
    refine ⟨fuel, by omega, ?_⟩
    simp [parseSum, factors]
  | plus level _ _ left right => exact left.plus level right

theorem parseLexemes_of_derives (stop : Nat) {ls : List (Lexeme N)} {e : Formula N}
    (derived : Derives .sum (tokensOf ls) e) : parseLexemes stop ls = .ok e := by
  have size : (tokensOf ls).length = ls.length := List.length_map _
  obtain ⟨fuel, close, taken⟩ :=
    derived.recognised stop (nesting ls) ls [] rfl (by rw [nesting]; omega) rfl
  rw [List.append_nil, sumFrom_stop stop fuel e [] (by rw [nesting] at close; omega) rfl] at taken
  simp [parseLexemes, taken]

def Taken (level : Level) (ts : List (Lexeme N)) (e : Formula N) (rest : List (Lexeme N)) : Prop :=
  ∃ ls, ts = ls ++ rest ∧ Derives level (tokensOf ls) e

def Continued (level : Level) (ts : List (Lexeme N)) (left e : Formula N)
    (rest : List (Lexeme N)) : Prop :=
  ∃ ls, ts = ls ++ rest ∧ ∀ us, Derives level us left → Derives level (us ++ tokensOf ls) e

theorem Taken.continued {level : Level} {ts ms rest : List (Lexeme N)} {left e : Formula N}
    (first : Taken level ts left ms) (later : Continued level ms left e rest) :
    Taken level ts e rest := by
  obtain ⟨ls, rfl, derived⟩ := first
  obtain ⟨ls', rfl, extended⟩ := later
  refine ⟨ls ++ ls', (List.append_assoc _ _ _).symm, ?_⟩
  simpa [tokensOf] using extended _ derived

theorem Taken.imp {level level' : Level} {ts rest : List (Lexeme N)} {e : Formula N}
    (first : Taken level ts e rest)
    (weaker : ∀ us, Derives level us e → Derives level' us e) : Taken level' ts e rest := by
  obtain ⟨ls, split, derived⟩ := first
  exact ⟨ls, split, weaker _ derived⟩

theorem Continued.refl (level : Level) (ts : List (Lexeme N)) (e : Formula N) :
    Continued level ts e e ts :=
  ⟨[], rfl, fun us derived => by simpa [tokensOf] using derived⟩

theorem Continued.step {level level' : Level} {op : Operator} {text : String} {offset : Nat}
    {ts ms rest : List (Lexeme N)} {left right e : Formula N}
    (joined : ∀ us vs, Derives level us left → Derives level' vs right →
      Derives level (us ++ .operator op :: vs) (.binary op left right))
    (operand : Taken level' ts right ms) (later : Continued level ms (.binary op left right) e rest) :
    Continued level (⟨.operator op, text, offset⟩ :: ts) left e rest := by
  obtain ⟨ls, rfl, derived⟩ := operand
  obtain ⟨ls', rfl, extended⟩ := later
  refine ⟨⟨.operator op, text, offset⟩ :: (ls ++ ls'), by simp, ?_⟩
  intro us first
  simpa [tokensOf] using extended _ (joined us _ first derived)

structure Sound (N : Type) (stop fuel : Nat) : Prop where
  sum : ∀ (ts : List (Lexeme N)) e rest, parseSum stop fuel ts = .ok (e, rest) → Taken .sum ts e rest
  sumFrom : ∀ (ts : List (Lexeme N)) left e rest,
    sumFrom stop fuel left ts = .ok (e, rest) → Continued .sum ts left e rest
  product : ∀ (ts : List (Lexeme N)) e rest,
    parseProduct stop fuel ts = .ok (e, rest) → Taken .product ts e rest
  productFrom : ∀ (ts : List (Lexeme N)) left e rest,
    productFrom stop fuel left ts = .ok (e, rest) → Continued .product ts left e rest
  signed : ∀ (ts : List (Lexeme N)) e rest,
    parseSigned stop fuel ts = .ok (e, rest) → Taken .signed ts e rest
  primary : ∀ (ts : List (Lexeme N)) e rest,
    parsePrimary stop fuel ts = .ok (e, rest) → Taken .primary ts e rest

section Steps

variable {stop fuel : Nat} {ts rest : List (Lexeme N)} {left e : Formula N}

theorem Sound.sum_step (sound : Sound N stop fuel)
    (parsed : parseSum stop (fuel + 1) ts = .ok (e, rest)) : Taken .sum ts e rest := by
  simp only [parseSum] at parsed
  split at parsed
  · cases parsed
  · next first ms product =>
    exact ((sound.product _ _ _ product).imp fun _ => .term).continued (sound.sumFrom _ _ _ _ parsed)

theorem Sound.sumFrom_step (sound : Sound N stop fuel)
    (parsed : Formula.sumFrom stop (fuel + 1) left ts = .ok (e, rest)) :
    Continued .sum ts left e rest := by
  simp only [Formula.sumFrom] at parsed
  split at parsed
  · cases parsed
    exact .refl _ _ _
  · next op after found =>
    obtain ⟨level, text, offset, rfl⟩ := additive?_eq_some found
    split at parsed
    · cases parsed
    · next right ms product =>
      exact .step (fun _ _ => .plus level) (sound.product _ _ _ product) (sound.sumFrom _ _ _ _ parsed)

theorem Sound.product_step (sound : Sound N stop fuel)
    (parsed : parseProduct stop (fuel + 1) ts = .ok (e, rest)) : Taken .product ts e rest := by
  simp only [parseProduct] at parsed
  split at parsed
  · cases parsed
  · next first ms signed =>
    exact ((sound.signed _ _ _ signed).imp fun _ => .factor).continued
      (sound.productFrom _ _ _ _ parsed)

theorem Sound.productFrom_step (sound : Sound N stop fuel)
    (parsed : Formula.productFrom stop (fuel + 1) left ts = .ok (e, rest)) :
    Continued .product ts left e rest := by
  simp only [Formula.productFrom] at parsed
  split at parsed
  · cases parsed
    exact .refl _ _ _
  · next op after found =>
    obtain ⟨level, text, offset, rfl⟩ := multiplicative?_eq_some found
    split at parsed
    · cases parsed
    · next right ms signed =>
      exact .step (fun _ _ => .times level) (sound.signed _ _ _ signed)
        (sound.productFrom _ _ _ _ parsed)

theorem Sound.signed_step (sound : Sound N stop fuel)
    (parsed : parseSigned stop (fuel + 1) ts = .ok (e, rest)) : Taken .signed ts e rest := by
  simp only [parseSigned] at parsed
  split at parsed
  · next op after found =>
    obtain ⟨level, text, offset, rfl⟩ := additive?_eq_some found
    split at parsed
    · cases parsed
    · next body ms signed =>
      cases parsed
      obtain ⟨ls, rfl, derived⟩ := sound.signed _ _ _ signed
      have spelled : (if op = .sub then Sign.minus else .plus).operator = op := by
        cases op with
        | add | sub => rfl
        | mul | div => cases level
      refine ⟨⟨.operator op, text, offset⟩ :: ls, rfl, ?_⟩
      simpa [tokensOf, spelled] using derived.sign (if op = .sub then .minus else .plus)
  · exact (sound.primary _ _ _ parsed).imp fun _ => .unsigned

theorem Sound.primary_step (sound : Sound N stop fuel)
    (parsed : parsePrimary stop (fuel + 1) ts = .ok (e, rest)) : Taken .primary ts e rest := by
  simp only [parsePrimary] at parsed
  split at parsed
  · next v text offset after =>
    cases parsed
    exact ⟨[⟨.number v, text, offset⟩], rfl, .number v⟩
  · next x text offset after =>
    cases parsed
    exact ⟨[⟨.name x, text, offset⟩], rfl, .name x⟩
  · next text offset after =>
    split at parsed
    · cases parsed
    · next inner text' offset' after' sum =>
      cases parsed
      obtain ⟨ls, rfl, derived⟩ := sound.sum _ _ _ sum
      refine ⟨⟨.openParen, text, offset⟩ :: (ls ++ [⟨.closeParen, text', offset'⟩]), by simp, ?_⟩
      simpa [tokensOf] using derived.paren
    · cases parsed
  · cases parsed

end Steps

theorem sound (N : Type) (stop fuel : Nat) : Sound N stop fuel := by
  -- the functions call each other with less fuel only, so all six go through one induction
  induction fuel with
  | zero =>
    constructor
    all_goals
      intros
      simp_all [parseSum, Formula.sumFrom, parseProduct, Formula.productFrom, parseSigned,
        parsePrimary]
  | succ fuel ih =>
    exact {
      sum := fun _ _ _ => ih.sum_step
      sumFrom := fun _ _ _ _ => ih.sumFrom_step
      product := fun _ _ _ => ih.product_step
      productFrom := fun _ _ _ _ => ih.productFrom_step
      signed := fun _ _ _ => ih.signed_step
      primary := fun _ _ _ => ih.primary_step }

theorem derives_of_parseLexemes {stop : Nat} {ls : List (Lexeme N)} {e : Formula N}
    (parsed : parseLexemes stop ls = .ok e) : Derives .sum (tokensOf ls) e := by
  simp only [parseLexemes] at parsed
  split at parsed
  · cases parsed
  · next whole =>
    cases parsed
    obtain ⟨taken, rfl, derived⟩ := (sound N stop _).sum _ _ _ whole
    rwa [List.append_nil]
  · cases parsed

theorem parseLexemes_eq_ok {stop : Nat} {ls : List (Lexeme N)} {e : Formula N} :
    parseLexemes stop ls = .ok e ↔ Derives .sum (tokensOf ls) e :=
  ⟨derives_of_parseLexemes, parseLexemes_of_derives stop⟩

theorem parseBytes_iff_derives [Quantity N] {source : List UInt8} {e : Formula N} :
    parseBytes source = .ok e ↔ (Text.pieces source).all isBlankPiece = false ∧
      ∃ ls, lexemes 0 source = .ok ls ∧ Derives .sum (tokensOf ls) e := by
  unfold parseBytes
  rw [mapError_eq_ok]
  cases (Text.pieces source).all isBlankPiece with
  | true => simp
  | false =>
    cases lexemes (N := N) 0 source with
    | error f => simp
    | ok ls => simp [parseLexemes_eq_ok]

end Formula

end Flowsheet
