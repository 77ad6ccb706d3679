import Mathlib.Algebra.Order.Field.Power
import Mathlib.Tactic.FieldSimp
import Mathlib.Tactic.Linarith
import Mathlib.Tactic.Positivity
import Mathlib.Tactic.Ring
import Flowsheet.Decimal.Shortest
import Flowsheet.Proofs.Decimal.Binary64
import Flowsheet.Proofs.Rational

set_option autoImplicit false

namespace Flowsheet.Decimal

variable {m m' : Nat} {q q' : Int} {v : ℚ}

def gap (m : Nat) (q : Int) : Nat := if m = 0x10000000000000 ∧ -1074 < q then 1 else 2

def lowest (m : Nat) (q : Int) : ℚ := (4 * m - gap m q) * 2 ^ q / 4

def highest (m : Nat) (q : Int) : ℚ := (4 * m + 2) * 2 ^ q / 4

/-- That a number rounds to a float: the ends of its interval do exactly when it is even. -/
def RoundsTo (v : ℚ) (m : Nat) (q : Int) : Prop :=
  if m % 2 = 0 then lowest m q ≤ v ∧ v ≤ highest m q else lowest m q < v ∧ v < highest m q

theorem RoundsTo.between (rounds : RoundsTo v m q) : lowest m q ≤ v ∧ v ≤ highest m q := by
  unfold RoundsTo at rounds
  split at rounds
  · exact rounds
  · exact ⟨rounds.1.le, rounds.2.le⟩

theorem RoundsTo.inside (rounds : RoundsTo v m q) (odd : m % 2 ≠ 0) : lowest m q < v ∧ v < highest m q := by
  rwa [RoundsTo, if_neg odd] at rounds

theorem gap_le (m : Nat) (q : Int) : gap m q ≤ 2 := by
  unfold gap
  split <;> omega

theorem zpow_pos_two (q : Int) : (0 : ℚ) < 2 ^ q := zpow_pos (by norm_num) q

theorem highest_le_lowest_of_lt (smaller : m < m') : highest m q ≤ lowest m' q := by
  have count : (4 * m + 2 + gap m' q : ℚ) ≤ 4 * m' := by
    have := gap_le m' q
    exact_mod_cast (by omega : 4 * m + 2 + gap m' q ≤ 4 * m')
  unfold highest lowest
  gcongr
  linarith

theorem highest_lt_lowest_of_lt (smaller : m + 1 < m') : highest m q < lowest m' q := by
  have count : (4 * m + 2 + gap m' q : ℚ) < 4 * m' := by
    have := gap_le m' q
    exact_mod_cast (by omega : 4 * m + 2 + gap m' q < 4 * m')
  unfold highest lowest
  gcongr
  linarith

theorem Regular.le_lowest (regular : Regular m' q') (larger : q < q') (least : -1074 ≤ q) :
    (2 ^ 55 - 2) * 2 ^ q / 4 ≤ lowest m' q' := by
  have normal := regular.normal (by omega)
  have count : (2 ^ 54 - 1 + gap m' q' : ℚ) ≤ 4 * m' := by
    have wide : 2 ^ 54 + gap m' q' ≤ 4 * m' + 1 := by
      unfold gap
      split <;> omega
    have : ((2 ^ 54 + gap m' q' : ℕ) : ℚ) ≤ (4 * m' + 1 : ℕ) := by exact_mod_cast wide
    push_cast at this
    linarith
  have double : (2 : ℚ) ^ q * 2 ≤ 2 ^ q' := by
    rw [← zpow_add_one₀ (by norm_num)]
    exact zpow_le_zpow_right₀ (by norm_num) (by omega)
  unfold lowest
  calc (2 ^ 55 - 2) * (2 : ℚ) ^ q / 4 = (2 ^ 54 - 1) * (2 ^ q * 2) / 4 := by ring
    _ ≤ (2 ^ 54 - 1) * 2 ^ q' / 4 := by gcongr
    _ ≤ (4 * m' - gap m' q') * 2 ^ q' / 4 := by
      have : (2 ^ 54 - 1 : ℚ) ≤ 4 * m' - gap m' q' := by linarith
      gcongr

theorem Regular.highest_le_lowest (regular : Regular m q) (regular' : Regular m' q')
    (smaller : q < q' ∨ q = q' ∧ m < m') : highest m q ≤ lowest m' q' := by
  rcases smaller with larger | ⟨rfl, smaller⟩
  · have count : (4 * m + 2 : ℚ) ≤ 2 ^ 55 - 2 := by
      have : ((4 * m + 4 : ℕ) : ℚ) ≤ (2 ^ 55 : ℕ) := by exact_mod_cast (by have := regular.below; omega)
      push_cast at this
      linarith
    calc highest m q ≤ (2 ^ 55 - 2) * 2 ^ q / 4 := by unfold highest; gcongr
      _ ≤ lowest m' q' := regular'.le_lowest larger regular.least
  · exact highest_le_lowest_of_lt smaller

theorem Regular.highest_lt_lowest (regular : Regular m q) (regular' : Regular m' q')
    (smaller : q < q' ∨ q = q' ∧ m < m') (even : m % 2 = 0) (even' : m' % 2 = 0) :
    highest m q < lowest m' q' := by
  rcases smaller with larger | ⟨rfl, smaller⟩
  · have count : (4 * m + 2 : ℚ) < 2 ^ 55 - 2 := by
      have : ((4 * m + 4 : ℕ) : ℚ) < (2 ^ 55 : ℕ) := by exact_mod_cast (by have := regular.below; omega)
      push_cast at this
      linarith
    calc highest m q < (2 ^ 55 - 2) * 2 ^ q / 4 := by unfold highest; gcongr
      _ ≤ lowest m' q' := regular'.le_lowest larger regular.least
  · exact highest_lt_lowest_of_lt (by omega)

theorem Regular.apart (regular : Regular m q) (regular' : Regular m' q')
    (smaller : q < q' ∨ q = q' ∧ m < m') (rounds : RoundsTo v m q) : ¬ RoundsTo v m' q' := by
  intro rounds'
  have order := regular.highest_le_lowest regular' smaller
  by_cases even : m % 2 = 0
  · by_cases even' : m' % 2 = 0
    · exact absurd (rounds.between.2.trans_lt (regular.highest_lt_lowest regular' smaller even even'))
        rounds'.between.1.not_gt
    · exact absurd ((rounds.between.2.trans order).trans_lt (rounds'.inside even').1) (lt_irrefl v)
  · exact absurd (((rounds.inside even).2.trans_le order).trans_le rounds'.between.1) (lt_irrefl v)

theorem Regular.unique (regular : Regular m q) (regular' : Regular m' q') (rounds : RoundsTo v m q)
    (rounds' : RoundsTo v m' q') : m = m' ∧ q = q' := by
  by_contra differ
  have order : (q < q' ∨ q = q' ∧ m < m') ∨ (q' < q ∨ q' = q ∧ m' < m) := by omega
  rcases order with smaller | larger
  · exact regular.apart regular' smaller rounds rounds'
  · exact regular'.apart regular larger rounds' rounds

theorem zpow_eq_div (b : ℚ) (nonzero : b ≠ 0) (n : Int) : b ^ n = b ^ n.toNat / b ^ (-n).toNat := by
  have balance : n = (n.toNat : ℤ) - ((-n).toNat : ℤ) := by omega
  conv_lhs => rw [balance]
  rw [zpow_sub₀ nonzero, zpow_natCast, zpow_natCast]

theorem cell_low (positive : 0 < m) : ((cell m q).low : ℚ) / (cell m q).den = lowest m q := by
  have nonneg : gap m q ≤ 4 * m := (gap_le m q).trans (by omega)
  change ((((4 * m - gap m q) * Nat.pow 2 q.toNat : ℕ)) : ℚ) / (4 * Nat.pow 2 (-q).toNat : ℕ) = _
  rw [lowest, zpow_eq_div 2 (by norm_num)]
  push_cast [Nat.cast_sub nonneg, Nat.pow_eq]
  ring

theorem cell_high : ((cell m q).high : ℚ) / (cell m q).den = highest m q := by
  change ((((4 * m + 2) * Nat.pow 2 q.toNat : ℕ)) : ℚ) / (4 * Nat.pow 2 (-q).toNat : ℕ) = _
  rw [highest, zpow_eq_div 2 (by norm_num)]
  push_cast [Nat.pow_eq]
  ring

theorem cell_value : ((cell m q).value : ℚ) / (cell m q).den = m * 2 ^ q := by
  change (((4 * m * Nat.pow 2 q.toNat : ℕ)) : ℚ) / (4 * Nat.pow 2 (-q).toNat : ℕ) = _
  rw [zpow_eq_div 2 (by norm_num)]
  push_cast [Nat.pow_eq]
  field_simp

theorem cell_den_pos : 0 < (cell m q).den := Nat.mul_pos (by decide) (Nat.pow_pos (by decide))

theorem contains_iff (positive : 0 < m) {num den : Nat} (whole : 0 < den) :
    (cell m q).contains num den = true ↔ RoundsTo (num / den) m q := by
  have den_pos : (0 : ℚ) < (cell m q).den := by exact_mod_cast cell_den_pos
  have whole : (0 : ℚ) < den := by exact_mod_cast whole
  have closed : (cell m q).closed = decide (m % 2 = 0) := rfl
  unfold Cell.contains RoundsTo
  rw [← cell_low positive, ← cell_high, closed]
  by_cases even : m % 2 = 0
  · simp only [even, decide_true, if_true, Bool.and_eq_true, decide_eq_true_eq]
    rw [div_le_div_iff₀ den_pos whole, div_le_div_iff₀ whole den_pos]
    norm_cast
  · simp only [even, decide_false, Bool.false_eq_true, if_false, Bool.and_eq_true, decide_eq_true_eq]
    rw [div_lt_div_iff₀ den_pos whole, div_lt_div_iff₀ whole den_pos]
    norm_cast

theorem toRat_eq_div (n : Nat) (place : Int) :
    toRat ⟨n, place⟩ = (n * Nat.pow 10 place.toNat : ℕ) / (Nat.pow 10 (-place).toNat : ℕ) := by
  rw [toRat, zpow_eq_div 10 (by norm_num)]
  push_cast [Nat.pow_eq]
  ring

theorem contains_grid_iff (positive : 0 < m) (n : Nat) (place : Int) :
    (cell m q).contains (n * Nat.pow 10 place.toNat) (Nat.pow 10 (-place).toNat) = true ↔
      RoundsTo (toRat ⟨n, place⟩) m q := by
  have whole : 0 < Nat.pow 10 (-place).toNat := Nat.pow_pos (by decide)
  rw [contains_iff positive whole, toRat_eq_div]

theorem roundsTo_of_onGrid? (positive : 0 < m) {place : Int} {d : Decimal}
    (found : (cell m q).onGrid? place = some d) : RoundsTo d.toRat m q := by
  simp only [Cell.onGrid?] at found
  generalize roundHalfEven _ _ = nearest at found
  generalize (if nearest = _ then _ else _) = other at found
  split at found
  next inside =>
    cases found
    exact (contains_grid_iff positive _ _).mp inside
  next =>
    split at found
    next inside =>
      cases found
      exact (contains_grid_iff positive _ _).mp inside
    next => cases found

theorem roundsTo_of_search (positive : 0 < m) {fuel : Nat} {place : Int} {d : Decimal}
    (found : (cell m q).search fuel place = some d) : RoundsTo d.toRat m q := by
  induction fuel generalizing place with
  | zero => cases found
  | succ fuel ih =>
    rw [Cell.search] at found
    split at found
    next here =>
      cases found
      exact roundsTo_of_onGrid? positive here
    next => exact ih found

theorem isSome_search {c : Cell} {k fuel : Nat} {place : Int} (here : (c.onGrid? (place - k)).isSome)
    (enough : k < fuel) : (c.search fuel place).isSome := by
  induction fuel generalizing k place with
  | zero => omega
  | succ fuel ih =>
    rw [Cell.search]
    split
    · rfl
    next none =>
      cases k with
      | zero => simp [none] at here
      | succ k =>
        have there : (c.onGrid? (place - 1 - k)).isSome := by
          rwa [show place - 1 - (k : ℤ) = place - (k + 1 : ℕ) by omega]
        exact ih there (by omega)

theorem toRat_reduce (fuel : Nat) (d : Decimal) : (d.reduce fuel).toRat = d.toRat := by
  induction fuel generalizing d with
  | zero => rfl
  | succ fuel ih =>
    rw [reduce]
    split
    next divides =>
      obtain ⟨k, whole⟩ := Nat.dvd_of_mod_eq_zero divides.2
      rw [ih, toRat, toRat, whole, Nat.mul_div_cancel_left k (by decide), zpow_add_one₀ (by norm_num)]
      push_cast
      ring
    next => rfl

theorem near_roundHalfEven (num : Nat) {den : Nat} (whole : 0 < den) :
    |(roundHalfEven num den : ℚ) - num / den| ≤ 1 / 2 := by
  obtain ⟨upper, lower⟩ := @roundHalfEven_near num den whole
  have upper : (2 * (roundHalfEven num den * den) : ℚ) ≤ 2 * num + den := by exact_mod_cast upper
  have lower : (2 * num : ℚ) ≤ 2 * (roundHalfEven num den * den) + den := by exact_mod_cast lower
  have whole : (0 : ℚ) < den := by exact_mod_cast whole
  rw [abs_le]
  constructor
  · rw [le_sub_iff_add_le, ← le_sub_iff_add_le', div_le_iff₀ whole]
    linarith
  · rw [sub_le_iff_le_add, ← sub_le_iff_le_add', le_div_iff₀ whole]
    linarith

theorem roundsTo_of_near (near : |v - m * 2 ^ q| < 2 ^ q / 4) : RoundsTo v m q := by
  obtain ⟨above, below⟩ := abs_lt.mp near
  have place := zpow_pos_two q
  have gap_pos : (1 : ℚ) ≤ gap m q := by
    have : 1 ≤ gap m q := by unfold gap; split <;> decide
    exact_mod_cast this
  have low : lowest m q < v := by
    have : lowest m q ≤ m * 2 ^ q - 2 ^ q / 4 := by
      rw [lowest]
      nlinarith
    linarith
  have high : v < highest m q := by
    have : m * 2 ^ q + 2 ^ q / 4 < highest m q := by
      rw [highest]
      linarith
    linarith
  unfold RoundsTo
  split
  · exact ⟨low.le, high.le⟩
  · exact ⟨low, high⟩

theorem isSome_onGrid? (positive : 0 < m) {place : Int} (fine : 2 * (10 : ℚ) ^ place < 2 ^ q) :
    ((cell m q).onGrid? place).isSome := by
  have unit : (0 : ℚ) < 10 ^ place := zpow_pos (by norm_num) place
  have whole : 0 < (cell m q).den * Nat.pow 10 place.toNat :=
    Nat.mul_pos cell_den_pos (Nat.pow_pos (by decide))
  have near := near_roundHalfEven ((cell m q).value * Nat.pow 10 (-place).toNat) whole
  have quotient : (((cell m q).value * Nat.pow 10 (-place).toNat : ℕ) : ℚ) /
      ((cell m q).den * Nat.pow 10 place.toNat : ℕ) = m * 2 ^ q / 10 ^ place := by
    rw [← cell_value, zpow_eq_div 10 (by norm_num)]
    push_cast [Nat.pow_eq]
    field_simp
  rw [quotient] at near
  simp only [Cell.onGrid?]
  generalize roundHalfEven _ _ = nearest at near ⊢
  have inside : (cell m q).contains (nearest * Nat.pow 10 place.toNat) (Nat.pow 10 (-place).toNat) = true := by
    rw [contains_grid_iff positive, toRat]
    refine roundsTo_of_near ?_
    calc |(nearest * 10 ^ place - m * 2 ^ q : ℚ)| = |(nearest - m * 2 ^ q / 10 ^ place : ℚ)| * 10 ^ place := by
          rw [← abs_of_pos unit, ← abs_mul, abs_of_pos unit, sub_mul, div_mul_cancel₀ _ unit.ne']
      _ ≤ 1 / 2 * 10 ^ place := by gcongr
      _ < 2 ^ q / 4 := by linarith
  rw [if_pos inside]
  rfl

theorem ten_zpow_le {k n : Nat} (lower : 2 ^ n ≤ 10 ^ k) (upper : 10 ^ k ≤ 2 ^ (n + 1)) (positive : 0 < n)
    {e : Int} (small : e ≤ n) : (10 : ℚ) ^ (e * k / n) ≤ 2 ^ (e + 1) := by
  have floor : e * k / n * n ≤ e * k := Int.ediv_mul_le _ (by omega)
  have power : ((10 : ℚ) ^ (e * k / n)) ^ n ≤ (2 ^ (e + 1)) ^ n := by
    calc ((10 : ℚ) ^ (e * k / n)) ^ n = 10 ^ (e * k / n * n) := by rw [zpow_mul, zpow_natCast]
      _ ≤ 10 ^ (e * k) := zpow_le_zpow_right₀ (by norm_num) floor
      _ = ((10 : ℚ) ^ k) ^ e := by rw [mul_comm, zpow_mul, zpow_natCast]
      _ ≤ 2 ^ (n * e + n) := by
        rcases le_total 0 e with up | down
        · have upper : ((10 : ℚ) ^ k) ≤ 2 ^ (n + 1) := by exact_mod_cast upper
          calc ((10 : ℚ) ^ k) ^ e ≤ (2 ^ (n + 1)) ^ e := zpow_le_zpow_left₀ up (by positivity) upper
            _ = 2 ^ ((n + 1 : ℕ) * e) := by rw [zpow_mul, zpow_natCast]
            _ ≤ 2 ^ (n * e + n) := by
              refine zpow_le_zpow_right₀ (by norm_num) ?_
              push_cast
              linarith
        · have lower : ((2 : ℚ) ^ n) ≤ 10 ^ k := by exact_mod_cast lower
          calc ((10 : ℚ) ^ k) ^ e ≤ (2 ^ n) ^ e := by
                obtain ⟨j, rfl⟩ := Int.exists_eq_neg_ofNat down
                rw [zpow_neg, zpow_neg, zpow_natCast, zpow_natCast]
                exact inv_anti₀ (by positivity) (pow_le_pow_left₀ (by positivity) lower j)
            _ = 2 ^ (n * e) := by rw [zpow_mul, zpow_natCast]
            _ ≤ 2 ^ (n * e + n) := zpow_le_zpow_right₀ (by norm_num) (by omega)
      _ = (2 ^ (e + 1)) ^ n := by
        rw [← zpow_natCast, ← zpow_mul]
        congr 1
        ring
  exact le_of_pow_le_pow_left₀ positive.ne' (by positivity) power

theorem Regular.fine (regular : Regular m q) (positive : 0 < m) :
    2 * (10 : ℚ) ^ ((Int.ofNat m.log2 + q) * 30103 / 100000 + 1 - (23 : ℕ)) < 2 ^ q := by
  have digits : m.log2 < 53 := (Nat.log2_lt positive.ne').mpr regular.below
  have leading : (10 : ℚ) ^ ((Int.ofNat m.log2 + q) * 30103 / 100000) ≤ 2 ^ (Int.ofNat m.log2 + q + 1) := by
    have lower : 2 ^ 100000 ≤ 10 ^ 30103 := by decide +kernel
    have upper : 10 ^ 30103 ≤ 2 ^ (100000 + 1) := by decide +kernel
    have most := regular.most
    exact ten_zpow_le lower upper (by decide) (by simp only [Int.ofNat_eq_natCast]; omega)
  have last := zpow_pos_two q
  calc 2 * (10 : ℚ) ^ ((Int.ofNat m.log2 + q) * 30103 / 100000 + 1 - (23 : ℕ))
      = 2 / 10 ^ 22 * 10 ^ ((Int.ofNat m.log2 + q) * 30103 / 100000) := by
        rw [add_sub_assoc, zpow_add₀ (by norm_num)]
        norm_num
        ring
    _ ≤ 2 / 10 ^ 22 * 2 ^ (Int.ofNat m.log2 + q + 1) := by gcongr
    _ ≤ 2 / 10 ^ 22 * 2 ^ (53 + q) := by
        have : (2 : ℚ) ^ (Int.ofNat m.log2 + q + 1) ≤ 2 ^ (53 + q) :=
          zpow_le_zpow_right₀ (by norm_num) (by simp only [Int.ofNat_eq_natCast]; omega)
        gcongr
    _ = 2 ^ 54 / 10 ^ 22 * 2 ^ q := by
        rw [zpow_add₀ (by norm_num)]
        norm_num
        ring
    _ < 1 * 2 ^ q := by
        gcongr
        norm_num
    _ = 2 ^ q := one_mul _

theorem Regular.roundsTo_shortest (regular : Regular m q) : RoundsTo (shortest m q).toRat m q := by
  rcases Nat.eq_zero_or_pos m with rfl | positive
  · have zero : (shortest 0 q).toRat = 0 := by simp [shortest, toRat]
    rw [zero]
    refine roundsTo_of_near ?_
    have place := zpow_pos_two q
    simpa using place
  have enough : 23 < 24 := by decide
  have found := isSome_search (isSome_onGrid? positive (regular.fine positive)) enough
  obtain ⟨d, found⟩ := Option.isSome_iff_exists.mp found
  have short : shortest m q = d.reduce 20 := by simp only [shortest, positive.ne', if_false, found]
  rw [short, toRat_reduce]
  exact roundsTo_of_search positive found

end Flowsheet.Decimal
