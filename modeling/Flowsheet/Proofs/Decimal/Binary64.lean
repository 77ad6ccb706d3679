import Flowsheet.Decimal.Binary64

set_option autoImplicit false

namespace Flowsheet.Decimal

variable {x y : Float} {m : Nat} {q : Int}

structure Regular (m : Nat) (q : Int) : Prop where
  below : m < 0x20000000000000
  least : -1074 ≤ q
  normal : -1074 < q → 0x10000000000000 ≤ m
  most : q ≤ 971

theorem regular_of_magnitude (finite : magnitude x = .finite m q) : Regular m q := by
  simp only [magnitude, Int.ofNat_eq_natCast] at finite
  have small : x.toBits.toNat % 0x8000000000000000 < 0x8000000000000000 := Nat.mod_lt _ (by decide)
  split at finite
  · split at finite <;> cases finite
  next wide =>
    split at finite
    · cases finite
      constructor <;> omega
    · cases finite
      constructor <;> omega

theorem exists_magnitude (finite : isFinite x) : ∃ m q, magnitude x = .finite m q := by
  unfold isFinite at finite
  split at finite
  next m q known => exact ⟨m, q, known⟩
  next => exact absurd finite (by decide)

open Float.Model Float.Model.UnpackedFloat in
theorem toBits_of_undefined (undefined : magnitude x = .undefined) : x.toBits.toNat = 0x7FF8000000000000 := by
  have small := x.toBits.toNat_lt
  simp only [magnitude] at undefined
  split at undefined
  next full =>
    split at undefined
    · cases undefined
    next some =>
      have exponent : @unpackExponent .binary64 x.toBits.toBitVec = -1#11 := by
        refine BitVec.eq_of_toNat_eq ?_
        change (x.toBits.toNat >>> 52) % 2 ^ 11 = _
        rw [Nat.shiftRight_eq_div_pow]
        change _ = 2047
        omega
      have mantissa : @unpackMantissa .binary64 x.toBits.toBitVec ≠ 0#52 := by
        intro zero
        have digits := congrArg BitVec.toNat zero
        change (x.toBits.toNat >>> 0) % 2 ^ 52 = 0 at digits
        rw [Nat.shiftRight_zero] at digits
        omega
      have canonical := x.toModel.valid.eq_packedNaN exponent mantissa
      exact congrArg BitVec.toNat canonical
  next =>
    split at undefined <;> cases undefined

theorem toBits_injective (same : x.toBits = y.toBits) : x = y := by
  obtain ⟨⟨bits, valid⟩⟩ := x
  obtain ⟨⟨bits', valid'⟩⟩ := y
  cases (show bits = bits' from same)
  rfl

theorem toBits_of_finite (finite : magnitude x = .finite m q) :
    (x.toBits.toNat % 0x8000000000000000 : Nat) = m + (q + 1074) * 0x10000000000000 := by
  simp only [magnitude, Int.ofNat_eq_natCast] at finite
  split at finite
  · split at finite <;> cases finite
  next =>
    split at finite
    · cases finite
      omega
    · cases finite
      omega

theorem toBits_of_infinite (infinite : magnitude x = .infinite) :
    x.toBits.toNat % 0x8000000000000000 = 0x7FF0000000000000 := by
  simp only [magnitude] at infinite
  split at infinite
  · split at infinite
    · omega
    · cases infinite
  next => split at infinite <;> cases infinite

theorem eq_of_magnitude (sign : isNegative x = isNegative y) (same : magnitude x = magnitude y) : x = y := by
  refine toBits_injective (UInt64.toNat_inj.mp ?_)
  have left := x.toBits.toNat_lt
  have right := y.toBits.toNat_lt
  simp only [isNegative, decide_eq_decide] at sign
  cases known : magnitude y with
  | finite m q =>
    have first := toBits_of_finite (same.trans known)
    have second := toBits_of_finite known
    omega
  | infinite =>
    have first := toBits_of_infinite (same.trans known)
    have second := toBits_of_infinite known
    omega
  | undefined => rw [toBits_of_undefined (same.trans known), toBits_of_undefined known]

end Flowsheet.Decimal
