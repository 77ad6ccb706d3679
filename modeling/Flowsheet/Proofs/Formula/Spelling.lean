import Flowsheet.Proofs.Formula.Grammar
import Flowsheet.Proofs.Text.Ascii
import Flowsheet.Formula.Printer

set_option autoImplicit false

namespace Flowsheet

open Text (byte IsAscii)

def Formula.spelledNumber? {N : Type} [Quantity N] (text : String) : Option N :=
  (Formula.scanNumber (Text.bytes text)).1.decimal?.bind Quantity.ofDecimal?

def Quantity.Readable {N : Type} [Quantity N] (v : N) : Prop := ∃ d, Quantity.ofDecimal? d = some v

/-- The plain text of a number consists of digits with at most one point, and reads back as that
number, which equals itself. -/
structure Quantity.PlainReads {N : Type} [Quantity N] (v : N) : Prop where
  digits : ∀ c ∈ (Quantity.plain v).toList, c.isDigit = true ∨ c = '.'
  point : (Quantity.plain v).toList.count '.' ≤ 1
  reads : Formula.spelledNumber? (Quantity.plain v) = some v
  same : Quantity.same v v = true

namespace Formula

variable {N : Type}

def encloseTokens (needed : Bool) (ts : List (Token N)) : List (Token N) :=
  if needed then .openParen :: (ts ++ [.closeParen]) else ts

/-- The tokens of a tree as it stands, parenthesised as its text is. -/
def tokens : Formula N → List (Token N)
  | .number v => [.number v]
  | .name x => [.name x]
  | .signed s e => .operator s.operator :: encloseTokens (e.precedence ≤ 3) e.tokens
  | .binary op l r =>
    encloseTokens (l.precedence < op.precedence) l.tokens ++
      .operator op :: encloseTokens (r.precedence ≤ op.precedence) r.tokens

def Level.ofRank : Nat → Level
  | 0 | 1 => .sum
  | 2 => .product
  | 3 => .signed
  | _ => .primary

theorem Derives.weaken {level : Level} {ts : List (Token N)} {e : Formula N}
    (derived : Derives level ts e) (n : Nat) (below : n ≤ level.rank) : Derives (.ofRank n) ts e := by
  have chain : Derives .sum ts e ∧ (2 ≤ level.rank → Derives .product ts e) ∧
      (3 ≤ level.rank → Derives .signed ts e) ∧ (4 ≤ level.rank → Derives .primary ts e) := by
    cases level with
    | sum => simp [Level.rank, derived]
    | product => simp [Level.rank, derived, derived.term]
    | signed => simp [Level.rank, derived, derived.factor, derived.factor.term]
    | primary =>
      simp [Level.rank, derived, derived.unsigned, derived.unsigned.factor,
        derived.unsigned.factor.term]
  have bound : level.rank ≤ 4 := by cases level <;> decide
  obtain ⟨sum, product, signed, primary⟩ := chain
  match n with
  | 0 | 1 => exact sum
  | 2 => exact product below
  | 3 => exact signed below
  | 4 => exact primary below
  | n + 5 => omega

theorem Derives.enclose {e : Formula N} {ts : List (Token N)} (n : Nat)
    (derived : Derives (.ofRank e.precedence) ts e) (small : n ≤ 4) :
    Derives (.ofRank n) (encloseTokens (decide (e.precedence < n)) ts) e := by
  have rank : (Level.ofRank e.precedence).rank = e.precedence := by
    cases e with
    | binary op => cases op <;> rfl
    | number | name | signed => rfl
  by_cases needed : e.precedence < n
  · have positive : 1 ≤ (Level.ofRank e.precedence).rank := by
      cases Level.ofRank e.precedence <;> decide
    have inner : Derives .sum ts e := derived.weaken 1 positive
    simpa [encloseTokens, needed] using inner.paren.weaken n small
  · simpa [encloseTokens, needed] using derived.weaken n (by omega)

theorem derives_tokens (e : Formula N) : Derives (.ofRank e.precedence) e.tokens e := by
  induction e with
  | number v => exact .number v
  | name x => exact .name x
  | signed s e ih =>
    -- under a sign even another sign is parenthesised
    have body := ih.enclose 4 (by decide)
    simp only [Nat.lt_succ_iff] at body
    exact body.unsigned.sign s
  | binary op l r hl hr =>
    -- chains group to the left: only the right operand is parenthesised at equal precedence
    have left := hl.enclose op.precedence (by cases op <;> decide)
    have right := hr.enclose (op.precedence + 1) (by cases op <;> decide)
    simp only [Nat.lt_succ_iff] at right
    cases op with
    | add | sub => exact left.plus rfl right
    | mul | div => exact left.times rfl right

def Separate (bs : List UInt8) : Prop := ∀ b ∈ bs.head?, isNamePart b = false ∧ b ≠ 46

theorem Separate.nil : Separate [] := by simp [Separate]

theorem Separate.cons {b : UInt8} (apart : isNamePart b = false ∧ b ≠ 46) (bs : List UInt8) :
    Separate (b :: bs) := by simpa [Separate] using apart

theorem span_append {p : UInt8 → Bool} {xs rest : List UInt8} (inside : ∀ b ∈ xs, p b = true)
    (stops : ∀ b ∈ rest.head?, p b = false) :
    (xs ++ rest).takeWhile p = xs ∧ (xs ++ rest).dropWhile p = rest := by
  have stopped : rest.takeWhile p = [] ∧ rest.dropWhile p = rest := by
    cases rest with
    | nil => simp
    | cons b rest => simp [stops b rfl]
  constructor
  · rw [List.takeWhile_append_of_pos inside, stopped.1, List.append_nil]
  · rw [List.dropWhile_append_of_pos inside, stopped.2]

theorem Separate.isDigit_eq_false {bs : List UInt8} (separate : Separate bs) :
    ∀ b ∈ bs.head?, isDigit b = false := by
  intro b head
  have outside := (separate b head).1
  simp only [isNamePart, Bool.or_eq_false_iff] at outside
  exact outside.2

theorem isDigit_iff (b : UInt8) : isDigit b = true ↔ 48 ≤ b.toNat ∧ b.toNat ≤ 57 := by
  simp [isDigit, UInt8.le_iff_toNat_le]

theorem isNameStart_iff (b : UInt8) : isNameStart b = true ↔
    b.toNat = 95 ∨ (97 ≤ b.toNat ∧ b.toNat ≤ 122) ∨ (65 ≤ b.toNat ∧ b.toNat ≤ 90) := by
  simp [isNameStart, UInt8.le_iff_toNat_le, ← UInt8.toNat_inj, or_assoc]

theorem byte_of_digitOrPoint {c : Char} (kind : c.isDigit = true ∨ c = '.') :
    IsAscii c ∧ (isDigit (byte c) = true ∨ byte c = 46) := by
  rcases kind with digit | rfl
  · have range : 48 ≤ c.toNat ∧ c.toNat ≤ 57 := by
      simpa [Char.isDigit, UInt32.le_iff_toNat_le] using digit
    have ascii : IsAscii c := Nat.lt_of_le_of_lt range.2 (by decide)
    refine ⟨ascii, .inl ?_⟩
    rwa [isDigit_iff, Text.toNat_byte ascii]
  · decide

theorem isSpace_of_word {b : UInt8} (word : isNamePart b = true ∨ b = 46) :
    isSpace b = false ∧ operator? b = none ∧ b ≠ 40 ∧ b ≠ 41 := by
  have range : 46 ≤ b.toNat ∧ b.toNat ≠ 47 ∧ b.toNat < 128 := by
    rcases word with part | rfl
    · simp only [isNamePart, Bool.or_eq_true, isNameStart_iff, isDigit_iff] at part
      omega
    · decide
  have other (n : UInt8) (outside : n.toNat < 46 ∨ n.toNat = 47) : b ≠ n := by
    rintro rfl
    omega
  simp [isSpace, operator?, other 32 (by decide), other 9 (by decide), other 10 (by decide),
    other 13 (by decide), other 43 (by decide), other 45 (by decide), other 42 (by decide),
    other 47 (by decide), other 40 (by decide), other 41 (by decide)]

theorem isDigit_of_isNameStart {b : UInt8} (start : isNameStart b = true) :
    (isDigit b || b = 46) = false := by
  have digit : isDigit b = false := by
    rw [← Bool.not_eq_true, isDigit_iff]
    rw [isNameStart_iff] at start
    omega
  have point : b ≠ 46 := by
    rintro rfl
    exact absurd start (by decide)
  simp [digit, point]

theorem scanExponent_of_separate {bs : List UInt8} (separate : Separate bs) :
    scanExponent bs = (none, bs) := by
  cases bs with
  | nil => rfl
  | cons b bs =>
    have outside := (separate b rfl).1
    have mark : (b = 101 || b = 69) = false := by
      rw [← Bool.not_eq_true, Bool.or_eq_true]
      rintro (lower | upper)
      · obtain rfl : b = 101 := by simpa using lower
        exact absurd outside (by decide)
      · obtain rfl : b = 69 := by simpa using upper
        exact absurd outside (by decide)
    simp [scanExponent, mark]

structure Positional (bs : List UInt8) : Prop where
  digits : ∀ b ∈ bs, isDigit b = true ∨ b = 46
  point : bs.count 46 ≤ 1

theorem Positional.parts {bs : List UInt8} (positional : Positional bs) :
    ∃ whole fraction, bs = whole ++ Literal.fractionText fraction ∧
      (∀ b ∈ whole, isDigit b = true) ∧ ∀ ds ∈ fraction, ∀ b ∈ ds, isDigit b = true := by
  have whole : ∀ b ∈ bs.takeWhile isDigit, isDigit b = true := fun b member =>
    (List.all_eq_true.mp List.all_takeWhile) b member
  have split := List.takeWhile_append_dropWhile (p := isDigit) (l := bs)
  cases rest : bs.dropWhile isDigit with
  | nil =>
    rw [rest] at split
    exact ⟨bs.takeWhile isDigit, none, split.symm, whole, by simp⟩
  | cons c ds =>
    rw [rest] at split
    have first : isDigit c = false := by
      have := List.head_dropWhile_not isDigit (l := bs) (by simp [rest])
      simpa [rest] using this
    obtain rfl : c = 46 := by
      have member := positional.digits c (by rw [← split]; simp)
      simpa [first] using member
    refine ⟨bs.takeWhile isDigit, some ds, split.symm, whole, ?_⟩
    rintro ds ⟨rfl⟩ b member
    -- a second point would be counted
    have once := positional.point
    rw [← split, List.count_append, List.count_cons_self] at once
    have none : b ≠ 46 := by
      rintro rfl
      have := List.count_pos_iff.mpr member
      omega
    have kind := positional.digits b (by rw [← split]; simp [member])
    simpa [none] using kind

theorem scanNumber_parts {whole rest : List UInt8} (fraction : Option (List UInt8))
    (digits : ∀ b ∈ whole, isDigit b = true) (places : ∀ ds ∈ fraction, ∀ b ∈ ds, isDigit b = true)
    (separate : Separate rest) :
    scanNumber (whole ++ Literal.fractionText fraction ++ rest) = (⟨whole, fraction, none⟩, rest) := by
  have exponent := scanExponent_of_separate separate
  cases fraction with
  | none =>
    obtain ⟨taken, left⟩ := span_append digits separate.isDigit_eq_false
    have point : scanFraction rest = (none, rest) := by
      cases rest with
      | nil => rfl
      | cons b rest => simp [scanFraction, (separate b rfl).2]
    simp [scanNumber, Literal.fractionText, taken, left, point, exponent]
  | some ds =>
    obtain ⟨after, last⟩ := span_append (places ds rfl) separate.isDigit_eq_false
    have stops : ∀ b ∈ (46 :: (ds ++ rest)).head?, isDigit b = false := by
      simp [show isDigit 46 = false by decide]
    obtain ⟨taken, left⟩ := span_append digits stops
    simp [scanNumber, Literal.fractionText, scanFraction, taken, left, after, last, exponent]

theorem Positional.scanNumber_append {bs rest : List UInt8} (positional : Positional bs)
    (separate : Separate rest) : scanNumber (bs ++ rest) = ((scanNumber bs).1, rest) := by
  obtain ⟨whole, fraction, rfl, digits, places⟩ := positional.parts
  have alone := scanNumber_parts fraction digits places Separate.nil
  rw [List.append_nil] at alone
  rw [scanNumber_parts fraction digits places separate, alone]

variable [Quantity N]

def Lexes (bs : List UInt8) (ts : List (Token N)) : Prop :=
  ∀ offset, ∃ ls : List (Lexeme N), lexemes offset bs = .ok ls ∧ tokensOf ls = ts

theorem Lexes.nil : Lexes [] ([] : List (Token N)) := fun _ => ⟨[], by rw [lexemes], rfl⟩

theorem Lexes.blank {b : UInt8} {bs : List UInt8} {ts : List (Token N)} (space : isSpace b = true)
    (rest : Lexes bs ts) : Lexes (b :: bs) ts := by
  intro offset
  obtain ⟨ls, lexed, same⟩ := rest (offset + 1)
  exact ⟨ls, by rw [lexemes, if_pos space, lexed], same⟩

theorem Lexes.operator {bs : List UInt8} {ts : List (Token N)} (op : Operator)
    (rest : Lexes bs ts) : Lexes (byte op.symbol :: bs) (.operator op :: ts) := by
  intro offset
  obtain ⟨ls, lexed, same⟩ := rest (offset + 1)
  have space : isSpace (byte op.symbol) = false := by cases op <;> decide
  have known : operator? (byte op.symbol) = some op := by cases op <;> decide
  refine ⟨⟨.operator op, shown [byte op.symbol], offset⟩ :: ls, ?_, by simpa [tokensOf] using same⟩
  rw [lexemes]
  simp only [space, known, lexed]
  rfl

theorem Lexes.openParen {bs : List UInt8} {ts : List (Token N)} (rest : Lexes bs ts) :
    Lexes (40 :: bs) (.openParen :: ts) := by
  intro offset
  obtain ⟨ls, lexed, same⟩ := rest (offset + 1)
  refine ⟨⟨.openParen, "(", offset⟩ :: ls, ?_, by simpa [tokensOf] using same⟩
  rw [lexemes, lexed]
  rfl

theorem Lexes.closeParen {bs : List UInt8} {ts : List (Token N)} (rest : Lexes bs ts) :
    Lexes (41 :: bs) (.closeParen :: ts) := by
  intro offset
  obtain ⟨ls, lexed, same⟩ := rest (offset + 1)
  refine ⟨⟨.closeParen, ")", offset⟩ :: ls, ?_, by simpa [tokensOf] using same⟩
  rw [lexemes, lexed]
  rfl

theorem Lexes.name {b : UInt8} {xs bs : List UInt8} {ts : List (Token N)}
    (start : isNameStart b = true) (parts : ∀ c ∈ xs, isNamePart c = true)
    (longest : ∀ c ∈ bs.head?, isNamePart c = false) (rest : Lexes bs ts) :
    Lexes (b :: xs ++ bs) (.name (shown (b :: xs)) :: ts) := by
  intro offset
  obtain ⟨ls, lexed, same⟩ := rest (offset + (b :: xs).length)
  have part : isNamePart b = true := by simp [isNamePart, start]
  obtain ⟨space, operator, opening, closing⟩ := isSpace_of_word (.inl part)
  obtain ⟨taken, left⟩ := span_append parts longest
  refine ⟨⟨.name (shown (b :: xs)), shown (b :: xs), offset⟩ :: ls, ?_,
    by simpa [tokensOf] using same⟩
  rw [List.cons_append, lexemes]
  simp only [space, operator, opening, closing, isDigit_of_isNameStart start, start, taken, left,
    lexed]
  rfl

theorem Lexes.number {b : UInt8} {bs rest : List UInt8} {l : Literal} {v : N} {ts : List (Token N)}
    (front : isDigit b = true ∨ b = 46) (scanned : scanNumber (b :: bs) = (l, rest))
    (value : l.decimal?.bind Quantity.ofDecimal? = some v)
    (apart : ∀ c ∈ rest.head?, isNameStart c = false) (lexes : Lexes rest ts) :
    Lexes (b :: bs) (.number v :: ts) := by
  have numeric : (isDigit b || b = 46) = true := by simpa using front
  obtain ⟨space, operator, opening, closing⟩ :=
    isSpace_of_word (front.imp_left fun digit => by simp [isNamePart, digit])
  intro offset
  obtain ⟨ls, lexed, same⟩ := lexes (offset + l.text.length)
  rw [lexemes]
  simp only [space, operator, opening, closing, numeric, scanned, value]
  -- a name may not follow at once, and the end of the text is a case of its own
  cases rest with
  | nil =>
    rw [lexemes] at lexed
    cases lexed
    subst same
    exact ⟨_, rfl, rfl⟩
  | cons c rest =>
    simp only [List.head?_cons, apart c rfl, lexed]
    exact ⟨_, rfl, by simpa [tokensOf] using same⟩

theorem Lexes.positional {bs rest : List UInt8} {ts : List (Token N)} {v : N}
    (positional : Positional bs) (value : (scanNumber bs).1.decimal?.bind Quantity.ofDecimal? = some v)
    (separate : Separate rest) (lexes : Lexes rest ts) : Lexes (bs ++ rest) (.number v :: ts) := by
  have scanned := positional.scanNumber_append separate
  cases bs with
  | nil =>
    have empty : (scanNumber []).1.decimal? = none := rfl
    rw [empty] at value
    cases value
  | cons b bs =>
    refine lexes.number (positional.digits b (by simp)) scanned value fun c head => ?_
    have outside := (separate c head).1
    simp only [isNamePart, Bool.or_eq_false_iff] at outside
    exact outside.1

end Formula

end Flowsheet
