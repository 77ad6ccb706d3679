import Mathlib.Algebra.Order.Field.Basic
import Mathlib.Data.Nat.Cast.Field
import Mathlib.Data.Nat.Prime.Pow
import Mathlib.Tactic.FieldSimp
import Mathlib.Tactic.Positivity
import Flowsheet.Proofs.Formula.Spelling
import Flowsheet.Proofs.Rational
import Flowsheet.Proofs.Text.Digits

set_option autoImplicit false

namespace Flowsheet

open Text (byte IsAscii)

namespace Formula

structure Reads (cs : List Char) (d : Decimal) : Prop where
  digits : ∀ c ∈ cs, c.isDigit = true ∨ c = '.'
  point : cs.count '.' ≤ 1
  decimal : (scanNumber (cs.map byte)).1.decimal? = some d

theorem isDigit_map_byte {cs : List Char} (digits : ∀ c ∈ cs, c.isDigit = true) :
    ∀ b ∈ cs.map byte, isDigit b = true := by
  intro b member
  obtain ⟨c, inside, rfl⟩ := List.mem_map.mp member
  have digit := digits c inside
  rcases (byte_of_digitOrPoint (.inl digit)).2 with known | point
  · exact known
  · have ascii := (byte_of_digitOrPoint (.inl digit)).1
    have back := Text.ofNat_byte ascii
    rw [point] at back
    rw [← back] at digit
    exact absurd digit (by decide)

theorem digitsValue_map_byte (start : Nat) {cs : List Char} (digits : ∀ c ∈ cs, c.isDigit = true) :
    Literal.digitsValue start (cs.map byte) = Nat.ofDigitChars 10 cs start := by
  induction cs generalizing start with
  | nil => rfl
  | cons c cs ih =>
    have ascii := (byte_of_digitOrPoint (.inl (digits c (by simp)))).1
    have rest := ih (10 * start + (c.toNat - 48)) (fun d member => digits d (List.mem_cons_of_mem _ member))
    rw [Nat.ofDigitChars_cons, ← show '0'.toNat = 48 from rfl] at *
    rw [← rest]
    simp [Literal.digitsValue, Decimal.ofDigits, Literal.digitValue, Text.toNat_byte ascii]

theorem count_point {cs : List Char} (digits : ∀ c ∈ cs, c.isDigit = true) : cs.count '.' = 0 := by
  rw [List.count_eq_zero]
  intro member
  exact absurd (digits '.' member) (by decide)

theorem reads_whole {cs : List Char} (digits : ∀ c ∈ cs, c.isDigit = true) (nonempty : cs ≠ []) :
    Reads cs ⟨Nat.ofDigitChars 10 cs 0, 0⟩ := by
  refine ⟨fun c member => .inl (digits c member), by simp [count_point digits], ?_⟩
  have scanned := scanNumber_parts none (isDigit_map_byte digits) (by simp) Separate.nil
  simp only [Literal.fractionText, List.append_nil] at scanned
  have value := digitsValue_map_byte 0 digits
  have none (n : Nat) : Literal.digitsValue n [] = n := rfl
  simp [scanned, Literal.decimal?, nonempty, none, value, Literal.exponentValue]

theorem reads_places (whole places : List Char) (digits : ∀ c ∈ whole, c.isDigit = true)
    (after : ∀ c ∈ places, c.isDigit = true) (nonempty : whole ≠ []) :
    Reads (whole ++ '.' :: places) ⟨Nat.ofDigitChars 10 (whole ++ places) 0, -places.length⟩ := by
  constructor
  · intro c member
    simp only [List.mem_append, List.mem_cons] at member
    rcases member with member | rfl | member
    · exact .inl (digits c member)
    · exact .inr rfl
    · exact .inl (after c member)
  · simp [count_point digits, count_point after]
  · have scanned := scanNumber_parts (some (places.map byte)) (isDigit_map_byte digits)
      (by simpa using isDigit_map_byte after) Separate.nil
    simp only [Literal.fractionText, List.append_nil] at scanned
    rw [List.map_append, List.map_cons, show byte '.' = 46 from rfl, scanned]
    simp [Literal.decimal?, nonempty, digitsValue_map_byte _ digits, digitsValue_map_byte _ after,
      Literal.exponentValue, Nat.ofDigitChars_append]

theorem positional_parts (d : Decimal) : ∃ whole places : List Char, (∀ c ∈ whole, c.isDigit = true) ∧
    (∀ c ∈ places, c.isDigit = true) ∧ whole ≠ [] ∧ places.length = (-d.exponent).toNat ∧
    Nat.ofDigitChars 10 (whole ++ places) 0 = d.coefficient * 10 ^ d.exponent.toNat ∧
    Decimal.positional d = if places = [] then whole else whole ++ '.' :: places := by
  obtain ⟨c, e⟩ := d
  have known : (Decimal.digits ⟨c, e⟩) = Nat.toDigits 10 c := Nat.toList_repr
  have digits : ∀ x ∈ Nat.toDigits 10 c, x.isDigit = true := Text.isDigit_toDigits
  have nonempty : Nat.toDigits 10 c ≠ [] := by
    have := Nat.length_toDigits_pos (b := 10) (n := c)
    exact List.ne_nil_of_length_pos this
  have value : Nat.ofDigitChars 10 (Nat.toDigits 10 c) 0 = c := Nat.ofDigitChars_ten_toDigits
  have zeros {n : Nat} : ∀ x ∈ Decimal.zeros n, x.isDigit = true := by
    intro x member
    rw [List.eq_of_mem_replicate member]
    decide
  unfold Decimal.positional
  simp only [known]
  by_cases integral : 0 ≤ e
  · have none : (-e).toNat = 0 := by omega
    by_cases zero : c = 0
    · subst zero
      exact ⟨['0'], [], by simp, by simp, by simp, none.symm, by simp [Nat.ofDigitChars_cons], by simp [integral]⟩
    · refine ⟨Nat.toDigits 10 c ++ Decimal.zeros e.toNat, [], fun x member => ?_, by simp, by simp [nonempty],
        none.symm, ?_, by simp [integral, zero]⟩
      · exact (List.mem_append.mp member).elim (digits x) (zeros x)
      · rw [List.append_nil, Nat.ofDigitChars_append, value, Decimal.zeros, Nat.ofDigitChars_replicate_zero,
          Nat.mul_comm]
  have whole : e.toNat = 0 := by omega
  rw [if_neg integral, whole, Nat.pow_zero, Nat.mul_one]
  -- the point falls among the digits, or zeros stand between it and them
  split
  next short =>
    set split := (Nat.toDigits 10 c).length - (-e).toNat with cut
    have count : ((Nat.toDigits 10 c).drop split).length = (-e).toNat := by
      rw [List.length_drop]
      omega
    have places : (Nat.toDigits 10 c).drop split ≠ [] := List.ne_nil_of_length_pos (by omega)
    exact ⟨(Nat.toDigits 10 c).take split, (Nat.toDigits 10 c).drop split,
      fun x member => digits x (List.mem_of_mem_take member), fun x member => digits x (List.mem_of_mem_drop member),
      by simp [nonempty]; omega, count, by rw [List.take_append_drop, value], by rw [if_neg places]⟩
  next long =>
    refine ⟨['0'], Decimal.zeros ((-e).toNat - (Nat.toDigits 10 c).length) ++ Nat.toDigits 10 c, by simp,
      fun x member => (List.mem_append.mp member).elim (zeros x) (digits x), by simp, ?_, ?_, by simp [nonempty]⟩
    · rw [List.length_append, Decimal.zeros, List.length_replicate]
      omega
    · rw [Nat.ofDigitChars_append, Nat.ofDigitChars_append, Decimal.zeros, Nat.ofDigitChars_replicate_zero]
      simp [Nat.ofDigitChars_cons]

theorem reads_positional (d : Decimal) :
    Reads (Decimal.positional d) ⟨d.coefficient * 10 ^ d.exponent.toNat, -(-d.exponent).toNat⟩ := by
  obtain ⟨whole, places, digits, after, nonempty, count, value, text⟩ := positional_parts d
  rw [text, ← value, ← count]
  split
  next none =>
    subst none
    simpa using reads_whole digits nonempty
  next => exact reads_places whole places digits after nonempty

end Formula

namespace Rational

theorem dvd_ten_pow {n j : Nat} (divides : n ∣ 10 ^ j) : ∃ k ≤ n.log2, n ∣ 10 ^ k := by
  -- n = 2^a * 5^b, and the greater of a and b is enough
  rw [show (10 : Nat) = 2 * 5 from rfl, mul_pow] at divides
  obtain ⟨y, z, left, right, rfl⟩ := (Nat.dvd_mul).mp divides
  obtain ⟨a, -, rfl⟩ := (Nat.dvd_prime_pow Nat.prime_two).mp left
  obtain ⟨b, -, rfl⟩ := (Nat.dvd_prime_pow Nat.prime_five).mp right
  refine ⟨max a b, ?_, ?_⟩
  · rw [Nat.le_log2 (by positivity)]
    rcases le_total a b with order | order
    · rw [max_eq_right order]
      calc 2 ^ b ≤ 5 ^ b := Nat.pow_le_pow_left (by decide) b
        _ ≤ 2 ^ a * 5 ^ b := Nat.le_mul_of_pos_left _ (by positivity)
    · rw [max_eq_left order]
      exact Nat.le_mul_of_pos_right _ (by positivity)
  · rw [show (10 : Nat) = 2 * 5 from rfl, mul_pow]
    exact Nat.mul_dvd_mul (Nat.pow_dvd_pow 2 (le_max_left a b)) (Nat.pow_dvd_pow 5 (le_max_right a b))

theorem den_toRat_dvd (d : Decimal) : d.toRat.den ∣ 10 ^ (-d.exponent).toNat := by
  have balance : d.exponent = (d.exponent.toNat : ℤ) - ((-d.exponent).toNat : ℤ) := by omega
  have fraction : d.toRat =
      Rat.divInt (d.coefficient * 10 ^ d.exponent.toNat : ℕ) (10 ^ (-d.exponent).toNat : ℕ) := by
    rw [Rat.divInt_eq_div, Decimal.toRat]
    conv_lhs => rw [balance]
    rw [zpow_sub₀ (by norm_num), zpow_natCast, zpow_natCast]
    push_cast
    ring
  have divides := Rat.den_dvd ((d.coefficient * 10 ^ d.exponent.toNat : ℕ) : ℤ)
    ((10 ^ (-d.exponent).toNat : ℕ) : ℤ)
  rw [← fraction] at divides
  exact Int.natCast_dvd_natCast.mp divides

theorem places?_of_dvd {v : ℚ} {j : Nat} (divides : v.den ∣ 10 ^ j) :
    ∃ k, places? v = some k ∧ v.den ∣ 10 ^ k := by
  obtain ⟨k, small, within⟩ := dvd_ten_pow divides
  -- the search goes as far as the logarithm of the denominator
  have found : (places? v).isSome := by
    rw [places?, List.find?_isSome]
    exact ⟨k, List.mem_range.mpr (by omega), by simpa using within⟩
  obtain ⟨k, known⟩ := Option.isSome_iff_exists.mp found
  exact ⟨k, known, by simpa using List.find?_some known⟩

theorem toRat_nonneg (d : Decimal) : 0 ≤ d.toRat :=
  mul_nonneg (Nat.cast_nonneg _) (zpow_nonneg (by norm_num) _)

theorem toRat_scaled {v : ℚ} (nonnegative : 0 ≤ v) {k : Nat} (divides : v.den ∣ 10 ^ k) :
    Decimal.toRat ⟨v.num.natAbs * 10 ^ k / v.den, -k⟩ = v := by
  have whole : v.den ∣ v.num.natAbs * 10 ^ k := Dvd.dvd.mul_left divides _
  have positive : (v.den : ℚ) ≠ 0 := by exact_mod_cast v.den_nz
  have numerator : ((v.num.natAbs : ℕ) : ℚ) = v.num := by
    rw [← Int.cast_natCast, Int.natAbs_of_nonneg (Rat.num_nonneg.mpr nonnegative)]
  rw [Decimal.toRat, Nat.cast_div whole positive]
  push_cast
  rw [numerator, zpow_neg, zpow_natCast]
  have power : (10 : ℚ) ^ k ≠ 0 := by positivity
  calc (v.num : ℚ) * 10 ^ k / v.den * (10 ^ k)⁻¹ = v.num / v.den := by field_simp
    _ = v := Rat.num_div_den v

theorem plainReads (v : ℚ) (readable : Quantity.Readable v) : Quantity.PlainReads v := by
  obtain ⟨d, ⟨rfl⟩⟩ := readable
  obtain ⟨k, places, divides⟩ := places?_of_dvd (den_toRat_dvd d)
  have nonnegative := toRat_nonneg d
  set v := d.toRat
  have reads : Formula.Reads (Decimal.positional ⟨v.num.natAbs * 10 ^ k / v.den, -k⟩)
      ⟨v.num.natAbs * 10 ^ k / v.den, -k⟩ := by
    simpa using Formula.reads_positional ⟨v.num.natAbs * 10 ^ k / v.den, -k⟩
  have text : Quantity.plain v =
      String.ofList (Decimal.positional ⟨v.num.natAbs * 10 ^ k / v.den, -k⟩) := by
    have sign : ¬ v < 0 := not_lt.mpr nonnegative
    simp [Quantity.plain, Rational.text, decimal?, places, sign, Decimal.Layout.finite,
      Decimal.Layout.isPositional, Decimal.Layout.plain]
  have ascii : ∀ c ∈ Decimal.positional ⟨v.num.natAbs * 10 ^ k / v.den, -k⟩, IsAscii c :=
    fun c member => (Formula.byte_of_digitOrPoint (reads.digits c member)).1
  refine ⟨?_, ?_, ?_, by simp [Quantity.same]⟩
  · rw [text, String.toList_ofList]
    exact reads.digits
  · rw [text, String.toList_ofList]
    exact reads.point
  · rw [text, Formula.spelledNumber?, Text.bytes_ofList_of_ascii ascii, reads.decimal]
    exact congrArg some (toRat_scaled nonnegative divides)

end Rational

end Flowsheet
