set_option autoImplicit false

namespace Flowsheet

structure Decimal where
  coefficient : Nat
  exponent : Int
deriving DecidableEq, Repr

namespace Decimal

def ofDigits (start : Nat) (digits : List Nat) : Nat :=
  -- The value of a digit sequence, most significant digit first, after a value already read.
  digits.foldl (fun n d => 10 * n + d) start

def reduce (fuel : Nat) (d : Decimal) : Decimal :=
  -- Moves trailing zeros of the coefficient into the exponent.
  match fuel with
  | 0 => d
  | fuel + 1 =>
    if d.coefficient ≠ 0 ∧ d.coefficient % 10 = 0 then
      reduce fuel ⟨d.coefficient / 10, d.exponent + 1⟩
    else d

def digits (d : Decimal) : List Char := d.coefficient.repr.toList

def leading (d : Decimal) : Int := d.exponent + d.digits.length - 1

def roundHalfEven (num den : Nat) : Nat :=
  let q := num / den
  let r := num % den
  if 2 * r < den then q else if den < 2 * r then q + 1 else q + q % 2

theorem roundHalfEven_near {num den : Nat} (h : 0 < den) :
    2 * (roundHalfEven num den * den) ≤ 2 * num + den ∧
      2 * num ≤ 2 * (roundHalfEven num den * den) + den := by
  have hq := Nat.div_add_mod num den
  have hr := Nat.mod_lt num h
  have hc : den * (num / den) = num / den * den := Nat.mul_comm _ _
  unfold roundHalfEven
  simp only
  split
  · omega
  · split
    · rw [Nat.add_mul]; omega
    · rcases Nat.mod_two_eq_zero_or_one (num / den) with e | e <;> rw [e]
      · rw [Nat.add_zero]; omega
      · rw [Nat.add_mul]; omega

end Decimal

end Flowsheet
