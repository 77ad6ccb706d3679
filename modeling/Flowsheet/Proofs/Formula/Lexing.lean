import Flowsheet.Proofs.Formula.RoundTrip
import Flowsheet.Proofs.Result

set_option autoImplicit false

namespace Flowsheet.Formula

namespace Literal

structure Formed (l : Literal) : Prop where
  whole : ∀ b ∈ l.whole, isDigit b = true
  fraction : ∀ ds ∈ l.fraction, ∀ b ∈ ds, isDigit b = true
  mark : ∀ e ∈ l.exponent, e.1 = 101 ∨ e.1 = 69
  sign : ∀ e ∈ l.exponent, ∀ s ∈ e.2.1, s = 43 ∨ s = 45
  exponent : ∀ e ∈ l.exponent, e.2.2 ≠ [] ∧ ∀ b ∈ e.2.2, isDigit b = true

def HasDigit (l : Literal) : Prop := l.whole ≠ [] ∨ ∃ ds ∈ l.fraction, ds ≠ []

theorem hasDigit_of_decimal? {l : Literal} {d : Decimal} (value : l.decimal? = some d) : l.HasDigit := by
  obtain ⟨whole, fraction, exponent⟩ := l
  by_cases empty : whole = []
  · cases fraction with
    | none => simp [decimal?, empty] at value
    | some ds => exact .inr ⟨ds, rfl, by rintro rfl; simp [decimal?, empty] at value⟩
  · exact .inl empty

end Literal

/-- The text of a number: digits with at most one point among them, and perhaps an exponent. -/
def IsNumeral (bs : List UInt8) : Prop := ∃ l : Literal, l.Formed ∧ l.HasDigit ∧ l.text = bs

section Scan

variable {rest : List UInt8} {l : Literal}

theorem isDigit_takeWhile (bs : List UInt8) : ∀ b ∈ bs.takeWhile isDigit, isDigit b = true :=
  fun b member => (List.all_eq_true.mp List.all_takeWhile) b member

theorem formed_scanExponent (bs : List UInt8) : ∀ e ∈ (scanExponent bs).1,
    (e.1 = 101 ∨ e.1 = 69) ∧ (∀ s ∈ e.2.1, s = 43 ∨ s = 45) ∧
      e.2.2 ≠ [] ∧ ∀ b ∈ e.2.2, isDigit b = true := by
  fun_cases scanExponent bs with
  | case4 mark marked s rest signed digits =>
    rintro e ⟨rfl⟩
    exact ⟨by simpa using marked, by simpa using signed, digits, isDigit_takeWhile rest⟩
  | case5 mark marked s rest unsigned digit =>
    rintro e ⟨rfl⟩
    exact ⟨by simpa using marked, by simp, by simp [digit], isDigit_takeWhile _⟩
  | _ => simp

theorem formed_scanNumber (bs : List UInt8) : (scanNumber bs).1.Formed := by
  have exponent := formed_scanExponent (scanFraction (bs.dropWhile isDigit)).2
  refine ⟨isDigit_takeWhile bs, ?_, fun e member => (exponent e member).1,
    fun e member => (exponent e member).2.1, fun e member => (exponent e member).2.2⟩
  change ∀ ds ∈ (scanFraction (bs.dropWhile isDigit)).1, ∀ b ∈ ds, isDigit b = true
  fun_cases scanFraction (bs.dropWhile isDigit) with
  | case2 rest =>
    rintro ds ⟨rfl⟩
    exact isDigit_takeWhile rest
  | _ => simp

theorem scanExponent_exponentText (rest : List UInt8) {mark : UInt8} {sign : Option UInt8} {ds : List UInt8}
    (marked : mark = 101 ∨ mark = 69) (signed : ∀ s ∈ sign, s = 43 ∨ s = 45)
    (nonempty : ds ≠ []) (digits : ∀ b ∈ ds, isDigit b = true) :
    scanExponent (Literal.exponentText (some (mark, sign, ds)) ++ rest) =
      (some (mark, sign, ds ++ rest.takeWhile isDigit), rest.dropWhile isDigit) := by
  have known : (mark = 101 || mark = 69) = true := by simpa using marked
  have taken : (ds ++ rest).takeWhile isDigit = _ := List.takeWhile_append_of_pos digits
  have left : (ds ++ rest).dropWhile isDigit = _ := List.dropWhile_append_of_pos digits
  cases sign with
  | none =>
    obtain ⟨d, ds, rfl⟩ := List.exists_cons_of_ne_nil nonempty
    have digit := digits d (by simp)
    have unsigned : (d = 43 || d = 45) = false := by
      rw [← Bool.not_eq_true, Bool.or_eq_true, decide_eq_true_eq, decide_eq_true_eq]
      rintro (rfl | rfl) <;> exact absurd digit (by decide)
    rw [List.cons_append] at taken left
    simp [Literal.exponentText, scanExponent, known, unsigned, digit, taken, left]
  | some s =>
    have sign : (s = 43 || s = 45) = true := by simpa using signed s rfl
    simp [Literal.exponentText, scanExponent, known, sign, taken, left, nonempty]

def Literal.prolonged (l : Literal) (rest : List UInt8) : Literal × List UInt8 :=
  match l.exponent, l.fraction with
  | some (mark, sign, ds), _ =>
    (⟨l.whole, l.fraction, some (mark, sign, ds ++ rest.takeWhile isDigit)⟩, rest.dropWhile isDigit)
  | none, some ds =>
    let e := scanExponent (rest.dropWhile isDigit)
    (⟨l.whole, some (ds ++ rest.takeWhile isDigit), e.1⟩, e.2)
  | none, none =>
    let f := scanFraction (rest.dropWhile isDigit)
    let e := scanExponent f.2
    (⟨l.whole ++ rest.takeWhile isDigit, f.1, e.1⟩, e.2)

theorem Literal.Formed.scanNumber_append (formed : l.Formed) (rest : List UInt8) :
    scanNumber (l.text ++ rest) = l.prolonged rest := by
  obtain ⟨whole, fraction, exponent⟩ := l
  have digits : ∀ b ∈ whole, isDigit b = true := formed.whole
  have point : isDigit 46 = false := by decide
  cases exponent with
  | none =>
    cases fraction with
    | none =>
      simp [scanNumber, Literal.prolonged, Literal.text, Literal.fractionText, Literal.exponentText,
        List.takeWhile_append_of_pos digits, List.dropWhile_append_of_pos digits]
    | some ds =>
      have places : ∀ b ∈ ds, isDigit b = true := formed.fraction ds rfl
      simp [scanNumber, Literal.prolonged, Literal.text, Literal.fractionText, Literal.exponentText,
        scanFraction, point, List.takeWhile_append_of_pos digits, List.dropWhile_append_of_pos digits,
        List.takeWhile_append_of_pos places, List.dropWhile_append_of_pos places]
  | some e =>
    obtain ⟨mark, sign, es⟩ := e
    have marked : mark = 101 ∨ mark = 69 := formed.mark _ rfl
    obtain ⟨nonempty, powers⟩ := formed.exponent _ rfl
    have scanned := scanExponent_exponentText rest marked (formed.sign _ rfl) nonempty powers
    -- neither the digits nor the point of the mantissa reach into the exponent
    have ended : isDigit mark = false ∧ mark ≠ 46 := by rcases marked with rfl | rfl <;> decide
    cases fraction with
    | none =>
      simp only [Literal.exponentText, List.cons_append, List.append_assoc] at scanned
      simp [scanNumber, Literal.prolonged, Literal.text, Literal.fractionText, Literal.exponentText,
        scanFraction, ended, List.takeWhile_append_of_pos digits, List.dropWhile_append_of_pos digits,
        scanned]
    | some ds =>
      have places : ∀ b ∈ ds, isDigit b = true := formed.fraction ds rfl
      simp only [Literal.exponentText, List.cons_append, List.append_assoc] at scanned
      simp [scanNumber, Literal.prolonged, Literal.text, Literal.fractionText, Literal.exponentText,
        scanFraction, point, ended, List.takeWhile_append_of_pos digits,
        List.dropWhile_append_of_pos digits, List.takeWhile_append_of_pos places,
        List.dropWhile_append_of_pos places, scanned]

theorem Literal.Formed.scanNumber_text (formed : l.Formed) : scanNumber l.text = (l, []) := by
  have whole := formed.scanNumber_append []
  rw [List.append_nil] at whole
  rw [whole]
  obtain ⟨whole, fraction, exponent⟩ := l
  rcases exponent with - | ⟨mark, sign, ds⟩ <;> cases fraction <;>
    simp [Literal.prolonged, scanExponent, scanFraction]

theorem Literal.exists_text_prolonged (l : Literal) (rest : List UInt8) :
    ∃ more, (l.prolonged rest).1.text = l.text ++ more := by
  obtain ⟨whole, fraction, exponent⟩ := l
  rcases exponent with - | ⟨mark, sign, ds⟩ <;> cases fraction <;>
    simp [Literal.prolonged, Literal.text, Literal.fractionText, Literal.exponentText]

theorem Literal.HasDigit.prolonged (digit : l.HasDigit) (rest : List UInt8) :
    (l.prolonged rest).1.HasDigit := by
  obtain ⟨whole, fraction, exponent⟩ := l
  have longer {ds : List UInt8} (nonempty : ds ≠ []) : ds ++ rest.takeWhile isDigit ≠ [] := by
    simp [nonempty]
  rcases digit with whole | ⟨ds, ⟨rfl⟩, nonempty⟩
  · rcases exponent with - | ⟨mark, sign, es⟩
    · cases fraction with
      | none => exact .inl (longer whole)
      | some => exact .inl whole
    · exact .inl whole
  · rcases exponent with - | ⟨mark, sign, es⟩
    · exact .inr ⟨_, rfl, longer nonempty⟩
    · exact .inr ⟨ds, rfl, nonempty⟩

theorem Literal.Formed.isNumeral_prolonged (formed : l.Formed) (digit : l.HasDigit) (rest : List UInt8) :
    IsNumeral (l.prolonged rest).1.text := by
  rw [← formed.scanNumber_append]
  exact ⟨_, formed_scanNumber _, formed.scanNumber_append rest ▸ digit.prolonged rest, rfl⟩

theorem scanNumber_longest {bs more after : List UInt8} (left : (scanNumber bs).2 = more ++ after)
    (numeral : IsNumeral ((scanNumber bs).1.text ++ more)) : more = [] := by
  obtain ⟨l, formed, -, text⟩ := numeral
  have whole : l.text ++ after = bs := by
    rw [text, List.append_assoc, ← left, Formula.scanNumber_append]
  obtain ⟨further, longer⟩ := l.exists_text_prolonged after
  rw [← formed.scanNumber_append, whole, text] at longer
  have lengths := congrArg List.length longer
  simp only [List.length_append] at lengths
  exact List.length_eq_zero_iff.mp (by omega)

theorem Literal.Formed.scanNumber_of_longest (formed : l.Formed) (digit : l.HasDigit)
    (longest : ∀ more after, rest = more ++ after → IsNumeral (l.text ++ more) → more = []) :
    scanNumber (l.text ++ rest) = (l, rest) := by
  have scanned := formed.scanNumber_append rest
  obtain ⟨more, longer⟩ := l.exists_text_prolonged rest
  have numeral := formed.isNumeral_prolonged digit rest
  have split := Formula.scanNumber_append (l.text ++ rest)
  rw [scanned, longer, List.append_assoc, List.append_cancel_left_eq] at split
  rw [longer] at numeral
  obtain rfl := longest more _ split.symm numeral
  rw [List.append_nil, ← scanned] at longer
  -- the two literals have one text, and a text has one literal
  have same := (formed_scanNumber (l.text ++ rest)).scanNumber_text
  rw [longer, formed.scanNumber_text] at same
  exact Prod.ext (congrArg Prod.fst same).symm (scanned ▸ split)

end Scan

variable {N : Type} [Quantity N]

-- A text and its tokens: names and numbers are as long as they can be, a number has a value and no letter
-- right behind it.
inductive Splits : List UInt8 → List (Token N) → Prop where
  | done : Splits [] []
  | blank {b : UInt8} {bs : List UInt8} {ts : List (Token N)} (space : isSpace b = true)
      (rest : Splits bs ts) : Splits (b :: bs) ts
  | operator (op : Operator) {bs : List UInt8} {ts : List (Token N)} (rest : Splits bs ts) :
      Splits (Text.byte op.symbol :: bs) (.operator op :: ts)
  | openParen {bs : List UInt8} {ts : List (Token N)} (rest : Splits bs ts) :
      Splits (Text.byte '(' :: bs) (.openParen :: ts)
  | closeParen {bs : List UInt8} {ts : List (Token N)} (rest : Splits bs ts) :
      Splits (Text.byte ')' :: bs) (.closeParen :: ts)
  | name {b : UInt8} {xs bs : List UInt8} {ts : List (Token N)} (start : isNameStart b = true)
      (parts : ∀ c ∈ xs, isNamePart c = true) (longest : ∀ c ∈ bs.head?, isNamePart c = false)
      (rest : Splits bs ts) : Splits (b :: xs ++ bs) (.name (shown (b :: xs)) :: ts)
  | number {l : Literal} {v : N} {bs : List UInt8} {ts : List (Token N)} (formed : l.Formed)
      (value : l.decimal?.bind Quantity.ofDecimal? = some v)
      (longest : ∀ more after, bs = more ++ after → IsNumeral (l.text ++ more) → more = [])
      (apart : ∀ c ∈ bs.head?, isNameStart c = false) (rest : Splits bs ts) :
      Splits (l.text ++ bs) (.number v :: ts)

section Complete

variable {bs : List UInt8} {ts : List (Token N)}

theorem Literal.HasDigit.head {l : Literal} (digit : l.HasDigit) (formed : l.Formed) :
    ∃ b tail, l.text = b :: tail ∧ (isDigit b = true ∨ b = 46) := by
  obtain ⟨whole, fraction, exponent⟩ := l
  cases whole with
  | cons b whole => exact ⟨b, _, rfl, .inl (formed.whole b (by simp))⟩
  | nil =>
    rcases digit with nonempty | ⟨ds, ⟨rfl⟩, -⟩
    · exact absurd rfl nonempty
    · exact ⟨46, _, rfl, .inr rfl⟩

theorem Lexes.literal {l : Literal} {v : N} (formed : l.Formed)
    (value : l.decimal?.bind Quantity.ofDecimal? = some v)
    (longest : ∀ more after, bs = more ++ after → IsNumeral (l.text ++ more) → more = [])
    (apart : ∀ c ∈ bs.head?, isNameStart c = false) (rest : Lexes bs ts) :
    Lexes (l.text ++ bs) (.number v :: ts) := by
  obtain ⟨d, known, -⟩ := Option.bind_eq_some_iff.mp value
  have digit := Literal.hasDigit_of_decimal? known
  have scanned := formed.scanNumber_of_longest digit longest
  obtain ⟨b, tail, text, kind⟩ := digit.head formed
  rw [text] at scanned ⊢
  exact rest.number kind scanned value apart

theorem Splits.lexes (split : Splits bs ts) : Lexes bs ts := by
  induction split with
  | done => exact .nil
  | blank space _ ih => exact ih.blank space
  | operator op _ ih => exact ih.operator op
  | openParen _ ih => exact ih.openParen
  | closeParen _ ih => exact ih.closeParen
  | name start parts longest _ ih => exact ih.name start parts longest
  | number formed value longest apart _ ih => exact ih.literal formed value longest apart

end Complete

section Sound

variable {offset : Nat} {bs : List UInt8} {ls : List (Lexeme N)}

theorem operator?_eq_some {b : UInt8} {op : Operator} (known : operator? b = some op) :
    b = Text.byte op.symbol := by
  unfold operator? at known
  split at known
  · cases known; assumption
  split at known
  · cases known; assumption
  split at known
  · cases known; assumption
  split at known
  · cases known; assumption
  · cases known

omit [Quantity N] in
theorem lexed_cons {first : Lexeme N} {others : Except Fault (List (Lexeme N))}
    (lexed : (do return first :: (← others)) = Except.ok ls) :
    ∃ rest, others = .ok rest ∧ ls = first :: rest := by
  obtain ⟨rest, known, last⟩ := bind_eq_ok.mp lexed
  exact ⟨rest, known, (Except.ok.inj last).symm⟩

theorem splits_of_lexemes (lexed : lexemes offset bs = .ok ls) : Splits bs (tokensOf ls) := by
  -- The scanner takes all that belongs to a number, whatever follows it.
  have number {b : UInt8} {rest : List UInt8} {v : N} {ts : List (Token N)}
      (value : (scanNumber (b :: rest)).1.decimal?.bind Quantity.ofDecimal? = some v)
      (apart : ∀ c ∈ (scanNumber (b :: rest)).2.head?, isNameStart c = false)
      (later : Splits (scanNumber (b :: rest)).2 ts) : Splits (b :: rest) (.number v :: ts) := by
    have whole := Splits.number (formed_scanNumber _) value (fun _ _ => scanNumber_longest) apart later
    rwa [scanNumber_append] at whole
  fun_induction lexemes (N := N) offset bs generalizing ls with
  | case1 =>
    cases lexed
    exact .done
  | case2 offset b rest space ih => exact .blank space (ih lexed)
  | case3 offset b rest _ op known ih =>
    obtain ⟨others, read, rfl⟩ := lexed_cons lexed
    rw [operator?_eq_some known]
    exact .operator op (ih read)
  | case4 offset rest _ _ ih =>
    obtain ⟨others, read, rfl⟩ := lexed_cons lexed
    exact .openParen (ih read)
  | case5 offset rest _ _ _ ih =>
    obtain ⟨others, read, rfl⟩ := lexed_cons lexed
    exact .closeParen (ih read)
  | case6 | case7 | case11 => cases lexed
  | case8 offset b rest _ _ _ _ _ _ v value c head letter =>
    rename_i ih
    obtain ⟨others, read, rfl⟩ := lexed_cons lexed
    refine number value (fun c' found => ?_) (ih read)
    obtain rfl : c = c' := Option.some.inj (head.symm.trans found)
    simpa using letter
  | case9 offset b rest _ _ _ _ _ _ v value head =>
    cases lexed
    have ended : (scanNumber (b :: rest)).2 = [] := List.head?_eq_none_iff.mp head
    refine number value ?_ ?_
    · simp [ended]
    · rw [ended]
      exact .done
  | case10 offset b rest _ _ _ _ start id =>
    rename_i ih
    obtain ⟨others, read, rfl⟩ := lexed_cons lexed
    have parts : ∀ c ∈ rest.takeWhile isNamePart, isNamePart c = true :=
      fun c member => (List.all_eq_true.mp List.all_takeWhile) c member
    have ended : ∀ c ∈ (rest.dropWhile isNamePart).head?, isNamePart c = false := by
      intro c found
      have := List.head?_dropWhile_not isNamePart rest
      simpa [show _ = some c from found] using this
    have whole := Splits.name start parts ended (ih read)
    rwa [List.cons_append, List.takeWhile_append_dropWhile] at whole

end Sound

theorem splits_iff {bs : List UInt8} {ts : List (Token N)} :
    Splits bs ts ↔ ∃ ls, lexemes 0 bs = .ok ls ∧ tokensOf ls = ts := by
  constructor
  · intro split
    exact split.lexes 0
  · rintro ⟨ls, lexed, rfl⟩
    exact splits_of_lexemes lexed

theorem Splits.unique {bs : List UInt8} {ts us : List (Token N)} (first : Splits bs ts)
    (second : Splits bs us) : ts = us := by
  obtain ⟨ls, lexed, rfl⟩ := splits_iff.mp first
  obtain ⟨ms, again, rfl⟩ := splits_iff.mp second
  rw [Except.ok.inj (lexed.symm.trans again)]

end Flowsheet.Formula
