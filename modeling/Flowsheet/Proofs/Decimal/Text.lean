import Flowsheet.Proofs.Decimal.Cell
import Flowsheet.Proofs.Formula.DecimalText
import Flowsheet.Proofs.Formula.Lexing
import Flowsheet.Proofs.Text.Digits

set_option autoImplicit false

namespace Flowsheet.Decimal

open Text (byte IsAscii isDigit_toDigits)
open Formula (Literal scanNumber reads_positional isDigit_map_byte digitsValue_map_byte)

def IsNumeric (c : Char) : Prop := c.isDigit = true ∨ c ∈ ['.', 'e', '+', '-']

structure Shows (cs : List Char) (d : Decimal) : Prop where
  numeric : ∀ c ∈ cs, IsNumeric c
  front : ∃ c rest, cs = c :: rest ∧ (c.isDigit = true ∨ c = '.')
  value : ∃ e, (scanNumber (cs.map byte)).1.decimal? = some e ∧ e.toRat = d.toRat

theorem Shows.toRat_eq {cs : List Char} {d d' : Decimal} (shows : Shows cs d) (shows' : Shows cs d') :
    d.toRat = d'.toRat := by
  obtain ⟨e, read, same⟩ := shows.value
  obtain ⟨e', read', same'⟩ := shows'.value
  obtain rfl := Option.some.inj (read.symm.trans read')
  exact same.symm.trans same'

theorem shows_of_reads {cs : List Char} {d e : Decimal} (reads : Formula.Reads cs e)
    (same : e.toRat = d.toRat) : Shows cs d := by
  refine ⟨fun c inside => (reads.digits c inside).imp_right (by simp +contextual), ?_, e, reads.decimal, same⟩
  cases cs with
  | nil => exact absurd reads.decimal (by simp [scanNumber, Formula.scanFraction, Formula.scanExponent, Literal.decimal?])
  | cons c rest => exact ⟨c, rest, rfl, reads.digits c (by simp)⟩

theorem isDigit_zeros {n : Nat} : ∀ c ∈ zeros n, c.isDigit = true := by
  intro c inside
  rw [List.eq_of_mem_replicate inside]
  decide

theorem toRat_places (d : Decimal) :
    toRat ⟨d.coefficient * 10 ^ d.exponent.toNat, -(-d.exponent).toNat⟩ = d.toRat := by
  have balance : d.exponent = (d.exponent.toNat : ℤ) + -((-d.exponent).toNat : ℤ) := by omega
  rw [toRat, toRat]
  conv_rhs => rw [balance]
  rw [zpow_add₀ (by norm_num), zpow_natCast]
  push_cast
  ring

theorem shows_positional (d : Decimal) : Shows (positional d) d := shows_of_reads (reads_positional d) (toRat_places d)

theorem reads_scientific {c : Char} {cs es : List Char} (negative : Bool) (digit : c.isDigit = true)
    (digits : ∀ x ∈ cs, x.isDigit = true) (powers : ∀ x ∈ es, x.isDigit = true) (nonempty : es ≠ []) :
    (scanNumber ((c :: (if cs = [] then [] else '.' :: cs) ++
      'e' :: (if negative then '-' else '+') :: es).map byte)).1.decimal? =
      some ⟨Nat.ofDigitChars 10 (c :: cs) 0,
        (if negative then -1 else 1) * Nat.ofDigitChars 10 es 0 - cs.length⟩ := by
  -- The text is that of a literal with one digit before the point.
  let l : Literal :=
    { whole := [byte c]
      fraction := if cs = [] then none else some (cs.map byte)
      exponent := some (101, some (if negative then 45 else 43), es.map byte) }
  have whole : ∀ x ∈ [c], x.isDigit = true := by simpa using digit
  have formed : l.Formed := by
    constructor
    · exact isDigit_map_byte whole
    · intro ds inside
      by_cases empty : cs = []
      · simp [l, empty] at inside
      · simp only [l, empty, if_false, Option.mem_def, Option.some.injEq] at inside
        exact inside ▸ isDigit_map_byte digits
    · rintro e ⟨rfl⟩
      exact .inl rfl
    · rintro e ⟨rfl⟩ s ⟨rfl⟩
      cases negative <;> decide
    · rintro e ⟨rfl⟩
      exact ⟨by simpa using nonempty, isDigit_map_byte powers⟩
  have text : l.text = (c :: (if cs = [] then [] else '.' :: cs) ++
      'e' :: (if negative then '-' else '+') :: es).map byte := by
    cases negative <;> by_cases empty : cs = [] <;>
      simp [l, Literal.text, Literal.fractionText, Literal.exponentText, empty] <;> decide
  have value : Literal.digitsValue (Literal.digitsValue 0 [byte c]) (cs.map byte) = Nat.ofDigitChars 10 (c :: cs) 0 := by
    rw [digitsValue_map_byte _ digits, show [byte c] = [c].map byte from rfl, digitsValue_map_byte _ whole]
    rfl
  rw [← text, formed.scanNumber_text]
  cases negative <;> by_cases empty : cs = [] <;>
    simp_all [l, Literal.decimal?, Literal.exponentValue, digitsValue_map_byte]

theorem shows_exponential {c : Char} {cs es : List Char} (negative : Bool) (digit : c.isDigit = true)
    (digits : ∀ x ∈ cs, x.isDigit = true) (powers : ∀ x ∈ es, x.isDigit = true) (nonempty : es ≠ []) :
    Shows (c :: (if cs = [] then [] else '.' :: cs) ++ 'e' :: (if negative then '-' else '+') :: es)
      ⟨Nat.ofDigitChars 10 (c :: cs) 0,
        (if negative then -1 else 1) * Nat.ofDigitChars 10 es 0 - cs.length⟩ := by
  refine ⟨?_, ⟨c, _, rfl, .inl digit⟩, _, reads_scientific negative digit digits powers nonempty, rfl⟩
  have fraction : ∀ x ∈ (if cs = [] then [] else '.' :: cs), IsNumeric x := by
    intro x inside
    split at inside
    · cases inside
    · rcases List.mem_cons.mp inside with rfl | inside
      · exact .inr (by simp)
      · exact .inl (digits x inside)
  intro x inside
  simp only [List.cons_append, List.mem_cons, List.mem_append] at inside
  rcases inside with rfl | inside | rfl | rfl | inside
  · exact .inl digit
  · exact fraction x inside
  · exact .inr (by simp)
  · cases negative <;> exact .inr (by simp)
  · exact .inl (powers x inside)

theorem shows_scientific (width : Nat) (d : Decimal) : Shows (scientific width d) d := by
  have digits : ∀ x ∈ d.digits, x.isDigit = true := by
    rw [Decimal.digits, Nat.toList_repr]
    exact isDigit_toDigits
  have value : Nat.ofDigitChars 10 d.digits 0 = d.coefficient := by
    rw [Decimal.digits, Nat.toList_repr, Nat.ofDigitChars_ten_toDigits]
  have nonempty : d.digits ≠ [] := by
    rw [Decimal.digits, Nat.toList_repr]
    exact Nat.toDigits_ne_nil
  set es := zeros (width - d.leading.natAbs.repr.toList.length) ++ d.leading.natAbs.repr.toList with shown
  have powers : ∀ x ∈ es, x.isDigit = true := by
    intro x inside
    rw [shown, Nat.toList_repr, List.mem_append] at inside
    exact inside.elim (isDigit_zeros x) (isDigit_toDigits x)
  have power : Nat.ofDigitChars 10 es 0 = d.leading.natAbs := by
    rw [shown, Nat.toList_repr, Nat.ofDigitChars_append, zeros, Nat.ofDigitChars_replicate_zero, Nat.mul_zero,
      Nat.ofDigitChars_ten_toDigits]
  have filled : es ≠ [] := by simp [shown]
  obtain ⟨c, cs, parts⟩ := List.exists_cons_of_ne_nil nonempty
  rw [parts] at digits value
  have text : scientific width d = c :: (if cs = [] then [] else '.' :: cs) ++
      'e' :: (if decide (d.leading < 0) then '-' else '+') :: es := by
    cases cs <;> simp [scientific, parts, shown]
  have exponent : (if decide (d.leading < 0) then -1 else 1) * (d.leading.natAbs : ℤ) - cs.length = d.exponent := by
    have place : d.leading = d.exponent + cs.length := by simp [leading, parts]; omega
    by_cases negative : d.leading < 0
    · simp only [negative, decide_true, if_true]
      omega
    · simp only [negative, decide_false, Bool.false_eq_true, if_false]
      omega
  have shows := shows_exponential (d.leading < 0) (digits c List.mem_cons_self)
    (fun x inside => digits x (List.mem_cons_of_mem c inside)) powers filled
  rwa [← text, value, power, exponent] at shows

theorem Layout.shows_finite (l : Layout) (d : Decimal) : Shows (l.finite d) d := by
  unfold Layout.finite
  split
  · exact shows_positional d
  · exact shows_scientific l.exponentWidth d

theorem Layout.text_of_finite (l : Layout) {x : Float} {m : Nat} {q : Int} (finite : magnitude x = .finite m q) :
    (l.text x).toList = (if isNegative x then ['-'] else []) ++ l.finite (shortest m q) := by
  simp [Layout.text, finite]

theorem Layout.numeric_text (l : Layout) (x : Float) :
    (∀ c ∈ (l.text x).toList, IsNumeric c) ↔ ∃ m q, magnitude x = .finite m q := by
  have letters : ¬ IsNumeric 'n' ∧ ¬ IsNumeric 'N' := by simp [IsNumeric]
  cases known : magnitude x with
  | finite m q =>
    refine iff_of_true (fun c inside => ?_) ⟨m, q, rfl⟩
    rw [l.text_of_finite known, List.mem_append] at inside
    rcases inside with sign | body
    · cases isNegative x <;> simp_all [IsNumeric]
    · exact (l.shows_finite _).numeric c body
  | infinite =>
    refine iff_of_false (fun numeric => letters.1 (numeric 'n' ?_)) (by simp)
    cases sign : isNegative x <;> simp [Layout.text, known, sign]
  | undefined => exact iff_of_false (fun numeric => letters.2 (numeric 'N' (by simp [Layout.text, known]))) (by simp)

theorem Layout.of_not_finite (l : Layout) {x : Float} (special : ¬ ∃ m q, magnitude x = .finite m q) :
    isNegative x = decide (l.text x = "-Inf") ∧
      magnitude x = if l.text x = "NaN" then .undefined else .infinite := by
  cases known : magnitude x with
  | finite m q => exact absurd ⟨m, q, known⟩ special
  | infinite => cases sign : isNegative x <;> simp [Layout.text, known, sign]
  | undefined =>
    have unsigned : isNegative x = false := by
      simp only [isNegative, toBits_of_undefined known]
      decide
    simp [Layout.text, known, unsigned]

theorem Shows.sign_eq {cs cs' : List Char} {d d' : Decimal} {negative negative' : Bool} (shows : Shows cs d)
    (shows' : Shows cs' d')
    (same : (if negative then ['-'] else []) ++ cs = (if negative' then ['-'] else []) ++ cs') :
    negative = negative' ∧ cs = cs' := by
  have unsigned {cs : List Char} {d : Decimal} (shows : Shows cs d) : cs.head? ≠ some '-' := by
    obtain ⟨c, rest, rfl, front⟩ := shows.front
    rintro ⟨rfl⟩
    revert front
    decide
  have left := unsigned shows
  have right := unsigned shows'
  cases negative <;> cases negative' <;> simp only [Bool.false_eq_true, if_true, if_false] at same
  · exact ⟨rfl, same⟩
  · exact absurd (congrArg List.head? same) left
  · exact absurd (congrArg List.head? same).symm right
  · exact ⟨rfl, (List.cons.inj same).2⟩

theorem Layout.text_injective (l : Layout) : Function.Injective l.text := by
  intro x y same
  by_cases finite : ∃ m q, magnitude x = .finite m q
  · obtain ⟨m', q', known'⟩ := (l.numeric_text y).mp (same ▸ (l.numeric_text x).mpr finite)
    obtain ⟨m, q, known⟩ := finite
    have lists := congrArg String.toList same
    rw [l.text_of_finite known, l.text_of_finite known'] at lists
    have shows := l.shows_finite (shortest m q)
    have shows' := l.shows_finite (shortest m' q')
    obtain ⟨sign, body⟩ := shows.sign_eq shows' lists
    -- both floats are the one that the number shown rounds to
    have value := shows.toRat_eq (body ▸ shows')
    have regular := regular_of_magnitude known
    have regular' := regular_of_magnitude known'
    obtain ⟨rfl, rfl⟩ := regular.unique regular' regular.roundsTo_shortest (value ▸ regular'.roundsTo_shortest)
    exact eq_of_magnitude sign (known.trans known'.symm)
  · have special : ¬ ∃ m q, magnitude y = .finite m q := by rwa [← l.numeric_text, ← same, l.numeric_text]
    obtain ⟨sign, kind⟩ := l.of_not_finite finite
    obtain ⟨sign', kind'⟩ := l.of_not_finite special
    rw [same] at sign kind
    exact eq_of_magnitude (sign.trans sign'.symm) (kind.trans kind'.symm)

theorem Layout.colon_notMem_text (l : Layout) (x : Float) : ':' ∉ (l.text x).toList := by
  cases known : magnitude x with
  | finite m q =>
    have foreign : ¬ IsNumeric ':' := by simp [IsNumeric]
    exact fun inside => foreign ((l.numeric_text x).mpr ⟨m, q, known⟩ ':' inside)
  | infinite => cases sign : isNegative x <;> simp [Layout.text, known, sign]
  | undefined => simp [Layout.text, known]

end Flowsheet.Decimal
