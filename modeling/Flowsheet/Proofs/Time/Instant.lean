import Mathlib.Algebra.Group.Nat.Defs
import Mathlib.Data.List.Basic
import Mathlib.Tactic.ByContra
import Mathlib.Tactic.Set
import Flowsheet.Proofs.Json.Text
import Flowsheet.Proofs.Text.Digits
import Flowsheet.Time.Instant

set_option autoImplicit false

namespace Flowsheet.Instant

open Text (isDigit_toDigits foldl_digits)

def yearDays (n : Int) : Int := n - n / 1460 + n / 36524 - n / 146096

def yearStart (y : Int) : Int := 365 * y + y / 4 - y / 100 + y / 400

theorem yearDays_mono {m n : Int} (le : m ≤ n) (low : 0 ≤ m) (high : n < 146097) :
    yearDays m ≤ yearDays n := by
  unfold yearDays
  by_cases last : n = 146096
  · subst last
    omega
  · have early : n / 146096 = 0 := by omega
    omega

theorem yearDays_yearStart : ∀ k : Nat, k < 400 → 365 * (k : Int) ≤ yearDays (yearStart k) ∧
    yearDays (yearStart (k + 1) - 1) < 365 * (k + 1) := by
  decide +kernel

theorem year_of_day {n : Int} (low : 0 ≤ n) (high : n < 146097) :
    0 ≤ yearDays n / 365 ∧ yearDays n / 365 < 400 ∧ yearStart (yearDays n / 365) ≤ n ∧
      n < yearStart (yearDays n / 365 + 1) := by
  have bounds : 0 ≤ yearDays n / 365 ∧ yearDays n / 365 < 400 := by
    unfold yearDays
    omega
  obtain ⟨k, year⟩ : ∃ k : Nat, yearDays n / 365 = k := ⟨(yearDays n / 365).toNat, by omega⟩
  rw [year] at bounds ⊢
  have count : 365 * (k : Int) ≤ yearDays n ∧ yearDays n < 365 * (k + 1) := by omega
  refine ⟨bounds.1, bounds.2, ?_, ?_⟩
  · by_contra before
    -- then the count has not got past the last day of the year before
    obtain ⟨j, rfl⟩ : ∃ j, k = j + 1 := ⟨k - 1, by unfold yearStart at before; omega⟩
    have last := (yearDays_yearStart j (by omega)).2
    have mono := yearDays_mono (n := yearStart (j + 1) - 1) (m := n) (by push_cast at before; omega) low
      (by unfold yearStart; omega)
    push_cast at count
    omega
  · by_contra after
    by_cases final : k = 399
    · subst final
      unfold yearStart at after
      omega
    · have first := (yearDays_yearStart (k + 1) (by omega)).1
      have mono := yearDays_mono (m := yearStart (k + 1)) (n := n) (by omega) (by unfold yearStart; omega) high
      push_cast at first
      omega

theorem month_of_day {n : Int} (low : 0 ≤ n) (high : n ≤ 365) : ∃ k : Int, (5 * n + 2) / 153 = k ∧
    0 ≤ k ∧ k ≤ 11 ∧ 1 ≤ n - (153 * k + 2) / 5 + 1 ∧ n - (153 * k + 2) / 5 + 1 ≤ 31 ∧
    (k = 1 ∨ k = 3 ∨ k = 6 ∨ k = 8 → n - (153 * k + 2) / 5 + 1 ≤ 30) ∧
    (k = 11 → n - (153 * k + 2) / 5 + 1 ≤ 29 ∧ (n < 365 → n - (153 * k + 2) / 5 + 1 ≤ 28)) := by
  refine ⟨_, rfl, by omega, by omega, ?_⟩
  generalize month : (5 * n + 2) / 153 = k
  have table : k = 0 ∨ k = 1 ∨ k = 2 ∨ k = 3 ∨ k = 4 ∨ k = 5 ∨ k = 6 ∨ k = 7 ∨ k = 8 ∨ k = 9 ∨ k = 10 ∨ k = 11 := by
    omega
  rcases table with rfl | rfl | rfl | rfl | rfl | rfl | rfl | rfl | rfl | rfl | rfl | rfl
  all_goals omega

theorem yearStart_succ : ∀ k : Nat, k < 400 →
    yearStart (k + 1) = yearStart k + if isLeap (k + 1) then 366 else 365 := by
  decide +kernel

theorem isLeap_of_era {k y : Nat} {era : Int} (same : (y : Int) = k + era * 400) : isLeap y = isLeap k := by
  have four : y % 4 = k % 4 := by omega
  have hundred : y % 100 = k % 100 := by omega
  have fourHundred : y % 400 = k % 400 := by omega
  rw [isLeap, isLeap, four, hundred, fourHundred]

theorem daysFromCivil_eq {y m d era : Int} {k : Nat} (small : k < 400)
    (march : (if m ≤ 2 then y - 1 else y) = k + era * 400) : daysFromCivil y m d =
      era * 146097 + (k * 365 + k / 4 - k / 100 + ((153 * (if m > 2 then m - 3 else m + 9) + 2) / 5 + d - 1)) -
        719468 := by
  have eras : (k + era * 400 : Int).fdiv 400 = era := by
    rw [Int.fdiv_eq_ediv_of_nonneg _ (by decide)]
    omega
  have place : (k + era * 400 : Int) - era * 400 = k := by omega
  unfold daysFromCivil
  simp only [march, eras, place]

theorem civil (day : Int) : ∃ y m d : Int, civilFromDays day = (y, m, d) ∧ 1 ≤ m ∧ m ≤ 12 ∧ 1 ≤ d ∧
    (0 ≤ y → d ≤ daysIn y.toNat m.toNat) ∧ daysFromCivil y m d = day := by
  -- `n` is the day of an era, `k` its year there and `doy` its day of that year, all from March.
  obtain ⟨era, n, rfl, low, high⟩ : ∃ era n, day = era * 146097 + n - 719468 ∧ 0 ≤ n ∧ n < 146097 :=
    ⟨(day + 719468) / 146097, (day + 719468) % 146097, by omega, by omega, by omega⟩
  have eras : (era * 146097 + n - 719468 + 719468).fdiv 146097 = era := by
    rw [Int.fdiv_eq_ediv_of_nonneg _ (by decide)]
    omega
  have place : era * 146097 + n - 719468 + 719468 - era * 146097 = n := by omega
  obtain ⟨yearLow, yearHigh, first, last⟩ := year_of_day low high
  obtain ⟨k, year⟩ : ∃ k : Nat, yearDays n / 365 = k := ⟨(yearDays n / 365).toNat, by omega⟩
  rw [year] at yearHigh first last
  rw [yearStart_succ k (by omega)] at last
  have whole : yearStart k = 365 * k + k / 4 - k / 100 := by unfold yearStart; omega
  rw [whole] at first last
  obtain ⟨doy, passed⟩ : ∃ doy, n - (365 * (k : Int) + k / 4 - k / 100) = doy := ⟨_, rfl⟩
  have within : doy ≤ 365 := by split at last <;> omega
  have common : isLeap (k + 1) = false → doy < 365 := by
    intro common
    rw [if_neg (by simp [common])] at last
    omega
  obtain ⟨mp, month, monthLow, monthHigh, dayLow, dayHigh, short, february⟩ :=
    month_of_day (n := doy) (by omega) within
  have date : civilFromDays (era * 146097 + n - 719468) =
      (k + era * 400 + (if (if mp < 10 then mp + 3 else mp - 9) ≤ 2 then 1 else 0),
        if mp < 10 then mp + 3 else mp - 9, doy - (153 * mp + 2) / 5 + 1) := by
    unfold civilFromDays
    simp only [eras, place, show (n - n / 1460 + n / 36524 - n / 146096) / 365 = k from year, passed, month]
  by_cases march : mp < 10
  · have later : ¬ mp + 3 ≤ 2 := by omega
    rw [if_pos march, if_neg later] at date
    refine ⟨_, _, _, date, by omega, by omega, dayLow, fun _ => ?_, ?_⟩
    · unfold daysIn
      simp only [Bool.or_eq_true, decide_eq_true_eq]
      split
      · omega
      · split <;> omega
    · have year : (if mp + 3 ≤ 2 then (k + era * 400 + 0 : Int) - 1 else k + era * 400 + 0) = k + era * 400 := by
        rw [if_neg later]
        omega
      rw [daysFromCivil_eq (by omega) year, if_pos (by omega)]
      omega
  -- January and February belong to the calendar year that follows.
  · have earlier : mp - 9 ≤ 2 := by omega
    rw [if_neg march, if_pos earlier] at date
    refine ⟨_, _, _, date, by omega, by omega, dayLow, fun positive => ?_, ?_⟩
    · have same : ((k + era * 400 + 1).toNat : Int) = (k + 1 : Nat) + era * 400 := by omega
      have leap := isLeap_of_era same
      unfold daysIn
      simp only [Bool.or_eq_true, decide_eq_true_eq, leap]
      split
      next second =>
        obtain rfl : mp = 11 := by omega
        obtain ⟨most, usual⟩ := february rfl
        split
        · omega
        next plain => exact_mod_cast usual (common (by simpa using plain))
      next => split <;> omega
    · have year : (if mp - 9 ≤ 2 then (k + era * 400 + 1 : Int) - 1 else k + era * 400 + 1) = k + era * 400 := by
        rw [if_pos earlier]
        omega
      rw [daysFromCivil_eq (by omega) year, if_neg (by omega)]
      omega

theorem number?_of_digits {cs : List Char} (digits : ∀ c ∈ cs, c.isDigit = true) (nonempty : cs ≠ []) :
    number? cs = some (Nat.ofDigitChars 10 cs 0) := by
  have all : cs.all Char.isDigit = true := List.all_eq_true.mpr digits
  simp [number?, all, nonempty, foldl_digits]

theorem toList_digits (width n : Nat) : (digits width n).toList =
    List.replicate (width - (Nat.toDigits 10 n).length) '0' ++ Nat.toDigits 10 n := by
  simp [digits, Nat.toList_repr, ← String.length_toList]

theorem isDigit_digits {width n : Nat} {c : Char} (inside : c ∈ (digits width n).toList) : c.isDigit = true := by
  rw [toList_digits] at inside
  rcases List.mem_append.mp inside with zero | digit
  · rw [List.eq_of_mem_replicate zero]
    rfl
  · exact isDigit_toDigits c digit

theorem digits_parts {width n : Nat} (positive : 0 < width) (fits : n < 10 ^ width) :
    (digits width n).toList.length = width ∧ (∀ c ∈ (digits width n).toList, c.isDigit = true) ∧
      Nat.ofDigitChars 10 (digits width n).toList 0 = n := by
  have short : (Nat.toDigits 10 n).length ≤ width := (Nat.length_toDigits_le_iff (by decide) positive).mpr fits
  refine ⟨by rw [toList_digits]; simp; omega, fun c => isDigit_digits, ?_⟩
  · rw [toList_digits]
    rw [Nat.ofDigitChars_append, Nat.ofDigitChars_replicate_zero, Nat.mul_zero, Nat.ofDigitChars_ten_toDigits]

theorem number?_digits {width n : Nat} (positive : 0 < width) (fits : n < 10 ^ width) :
    number? (digits width n).toList = some n := by
  obtain ⟨length, digits, value⟩ := digits_parts positive fits
  rw [number?_of_digits digits (List.ne_nil_of_length_pos (by omega)), value]

theorem pair?_digits {n most : Nat} (fits : n ≤ most) (two : most < 100) (rest : List Char) :
    pair? most ((digits 2 n).toList ++ rest) = some (n, rest) := by
  have number := @number?_digits 2 n (by decide) (by omega)
  obtain ⟨length, -⟩ := @digits_parts 2 n (by decide) (by omega)
  obtain ⟨a, b, pair⟩ := List.length_eq_two.mp length
  rw [pair] at number ⊢
  simp [pair?, number, fits]

theorem hour?_digits {n : Nat} (fits : n ≤ 23) (rest : List Char) :
    hour? ((digits 2 n).toList ++ rest) = some (n, rest) := by
  have pair := @pair?_digits n 23 fits (by decide) rest
  obtain ⟨length, isDigit, -⟩ := @digits_parts 2 n (by decide) (by omega)
  obtain ⟨a, b, two⟩ := List.length_eq_two.mp length
  have digit : b.isDigit = true := isDigit b (two ▸ List.mem_cons_of_mem _ (List.mem_singleton_self b))
  rw [two] at pair ⊢
  exact (if_pos digit).trans pair

theorem clock?_clockText {s : Nat} (day : s < 86400) (rest : List Char) :
    clock? ((clockText s).toList ++ rest) = some (s, rest) := by
  have text : (clockText s).toList ++ rest = (digits 2 (s / 3600)).toList ++ ':' ::
      ((digits 2 (s / 60 % 60)).toList ++ ':' :: ((digits 2 (s % 60)).toList ++ rest)) := by
    simp [clockText, toString]
  have hour := @hour?_digits (s / 3600) (by omega)
  have minute := @pair?_digits (s / 60 % 60) 59 (by omega) (by decide)
  have second := @pair?_digits (s % 60) 59 (by omega) (by decide)
  have whole : s / 3600 * 3600 + s / 60 % 60 * 60 + s % 60 = s := by omega
  rw [text, clock?, hour]
  simp only [Option.bind_eq_bind, Option.bind_some, mark?, if_true, minute, second, whole]

theorem exists_zeros (cs : List Char) : ∃ k, cs = List.replicate k '0' ++ cs.dropWhile (· = '0') := by
  induction cs with
  | nil => exact ⟨0, rfl⟩
  | cons c cs ih =>
    by_cases zero : c = '0'
    · obtain ⟨k, split⟩ := ih
      subst zero
      exact ⟨k + 1, congrArg ('0' :: ·) split⟩
    · exact ⟨0, by simp [zero]⟩

theorem fraction?_fractionText {nanos : Nat} (second : nanos < 1000000000) :
    fraction? ((fractionText nanos).toList ++ ['Z']) = some (nanos, ['Z']) := by
  obtain ⟨length, digits, value⟩ := @digits_parts 9 nanos (by decide) (by omega)
  obtain ⟨k, split⟩ := exists_zeros (Instant.digits 9 nanos).toList.reverse
  have split := congrArg List.reverse split
  rw [List.reverse_reverse, List.reverse_append, List.reverse_replicate] at split
  unfold fractionText
  generalize ((Instant.digits 9 nanos).toList.reverse.dropWhile (· = '0')).reverse = ds at split ⊢
  rw [split] at length digits value
  rw [Nat.ofDigitChars_append, Nat.ofDigitChars_replicate_zero] at value
  rw [List.length_append, List.length_replicate] at length
  cases ds with
  | nil =>
    have zero : nanos = 0 := by simpa using value.symm
    subst zero
    rfl
  | cons c cs =>
    have kept : ∀ d ∈ c :: cs, d.isDigit = true := fun d inside => digits d (List.mem_append_left _ inside)
    have taken : (c :: cs ++ ['Z']).takeWhile Char.isDigit = c :: cs := by
      rw [List.takeWhile_append_of_pos kept, List.takeWhile_cons_of_neg (by decide), List.append_nil]
    have places : 9 - (c :: cs).length = k := by omega
    have text : ("." ++ String.ofList (c :: cs)).toList ++ ['Z'] = '.' :: (c :: cs ++ ['Z']) := by simp
    rw [text, fraction?]
    simp only [taken, List.take_of_length_le (show (c :: cs).length ≤ 9 by omega), places,
      number?_of_digits kept (List.cons_ne_nil c cs), List.drop_left, Option.map_some]
    rw [← value, Nat.mul_comm]
    rfl

theorem date?_dateText {day : Int} (writable : 0 ≤ (civilFromDays day).1 ∧ (civilFromDays day).1 ≤ 9999)
    (rest : List Char) : date? ((dateText day).toList ++ rest) = some (day, rest) := by
  obtain ⟨y, m, d, date, monthLow, monthHigh, dayLow, dayHigh, back⟩ := civil day
  rw [date] at writable
  obtain ⟨early, late⟩ := writable
  have days : daysIn y.toNat m.toNat ≤ 31 := by
    unfold daysIn
    split_ifs <;> omega
  have inside := dayHigh early
  have year := @number?_digits 4 y.toNat (by decide) (by omega)
  obtain ⟨four, -⟩ := @digits_parts 4 y.toNat (by decide) (by omega)
  have month := @pair?_digits m.toNat 12 (by omega) (by decide)
  have dayOf := @pair?_digits d.toNat 31 (by omega) (by decide)
  have text : (dateText day).toList ++ rest = (digits 4 y.toNat).toList ++ '-' ::
      ((digits 2 m.toNat).toList ++ '-' :: ((digits 2 d.toNat).toList ++ rest)) := by
    simp [dateText, date, toString]
  have valid : (m.toNat < 1 || d.toNat < 1 || daysIn y.toNat m.toNat < d.toNat : Bool) = false := by
    simp
    omega
  rw [text, date?, List.take_left' four, List.drop_left' four, year]
  simp only [Option.bind_eq_bind, Option.bind_some, mark?, if_true, month, dayOf, valid, Bool.false_eq_true,
    if_false]
  rw [Int.toNat_of_nonneg early, Int.toNat_of_nonneg (by omega), Int.toNat_of_nonneg (by omega), back]

theorem parse?_text {t : Instant} (writable : t.isWritable = true) : parse? t.text = some t := by
  obtain ⟨n⟩ := t
  have year : 0 ≤ (civilFromDays (day ⟨n⟩)).1 ∧ (civilFromDays (day ⟨n⟩)).1 ≤ 9999 := by
    simpa [isWritable] using writable
  obtain ⟨s, seconds⟩ : ∃ s, n.fdiv 1000000000 = s := ⟨_, rfl⟩
  obtain ⟨d, days⟩ : ∃ d, s.fdiv 86400 = d := ⟨_, rfl⟩
  have dayOf : day ⟨n⟩ = d := by rw [day, seconds, days]
  have text : (text ⟨n⟩).toList = (dateText d).toList ++ 'T' :: ((clockText (s - d * 86400).toNat).toList ++
      ((fractionText (n - s * 1000000000).toNat).toList ++ ['Z'])) := by
    rw [text, dayOf]
    simp [seconds]
  rw [Int.fdiv_eq_ediv_of_nonneg _ (by decide)] at seconds days
  have date := date?_dateText (dayOf ▸ year)
  have clock := clock?_clockText (s := (s - d * 86400).toNat) (by omega)
  have fraction := @fraction?_fractionText (n - s * 1000000000).toNat (by omega)
  have whole : (d * 86400 + Int.ofNat (s - d * 86400).toNat - 0) * 1000000000 +
      Int.ofNat (n - s * 1000000000).toNat = n := by
    simp only [Int.ofNat_eq_natCast]
    omega
  have zone : offset? ['Z'] = some 0 := rfl
  rw [parse?, text]
  simp only [date, clock, fraction, zone, mark?, if_true, Option.bind_eq_bind, Option.bind_some, whole, pure]

def Plain (s : String) : Prop := ∀ c ∈ s.toList, c.isDigit = true ∨ c ∈ ['-', ':', 'T', '.', 'Z']

theorem Plain.append {s s' : String} (plain : Plain s) (plain' : Plain s') : Plain (s ++ s') := by
  intro c inside
  rw [String.toList_append] at inside
  exact (List.mem_append.mp inside).elim (plain c) (plain' c)

theorem plain_digits (width n : Nat) : Plain (digits width n) := fun _ inside => .inl (isDigit_digits inside)

theorem plain_dateText (day : Int) : Plain (dateText day) := by
  have dash : Plain "-" := by simp [Plain]
  obtain ⟨y, m, d, date⟩ : ∃ y m d, civilFromDays day = (y, m, d) := ⟨_, _, _, rfl⟩
  rw [dateText, date]
  exact ((((plain_digits 4 _).append dash).append (plain_digits 2 _)).append dash).append (plain_digits 2 _)

theorem plain_clockText (seconds : Nat) : Plain (clockText seconds) := by
  have colon : Plain ":" := by simp [Plain]
  exact ((((plain_digits 2 _).append colon).append (plain_digits 2 _)).append colon).append (plain_digits 2 _)

theorem plain_fractionText (nanos : Nat) : Plain (fractionText nanos) := by
  have kept {ds : List Char} (split : ((digits 9 nanos).toList.reverse.dropWhile (· = '0')).reverse = ds) :
      Plain (String.ofList ds) := by
    intro c inside
    rw [String.toList_ofList, ← split] at inside
    have among := (List.dropWhile_sublist _).subset (List.mem_reverse.mp inside)
    exact .inl (isDigit_digits (List.mem_reverse.mp among))
  unfold fractionText
  generalize split : ((digits 9 nanos).toList.reverse.dropWhile (· = '0')).reverse = ds
  cases ds with
  | nil => exact fun c inside => nomatch inside
  | cons d ds =>
    have point : Plain "." := by simp [Plain]
    exact point.append (kept split)

theorem plain_text (t : Instant) : Plain t.text := by
  have between : Plain "T" := by simp [Plain]
  have zone : Plain "Z" := by simp [Plain]
  exact ((((plain_dateText _).append between).append (plain_clockText _)).append (plain_fractionText _)).append zone

theorem spelling_text (t : Instant) : Json.spelling (Text.bytes t.text) = t.text := by
  refine Json.spelling_bytes fun c inside => ?_
  rcases plain_text t c inside with digit | mark
  · exact Json.stringChar_of_isDigit digit
  · have unescaped : ∀ c ∈ ['-', ':', 'T', '.', 'Z'], Json.stringChar true c = [c] := by
      simp [Json.stringChar, Json.isMarkup]
    exact unescaped c mark

theorem since_mono {now later t : Instant} (le : now.nanoseconds ≤ later.nanoseconds) :
    now.since t ≤ later.since t := by
  change (now.since t).nanoseconds ≤ (later.since t).nanoseconds
  unfold Instant.since
  dsimp only
  omega

end Flowsheet.Instant
