import Flowsheet.Proofs.Text.Order
import Mathlib.Tactic.SplitIfs

set_option autoImplicit false

namespace Flowsheet.Text

theorem val_ofNat {n : Nat} (valid : n.isValidChar) : (Char.ofNat n).val.toNat = n := by
  rw [Char.ofNat, dif_pos valid]
  rfl

theorem utf8EncodeChar_eq_singleton_iff {a : UInt8} {c : Char} :
    String.utf8EncodeChar c = [a] ↔ a < 0x80 ∧ Char.ofNat a.toNat = c := by
  rw [UInt8.lt_iff_toNat_lt]
  change _ ↔ a.toNat < 128 ∧ _
  constructor
  · intro written
    simp only [String.utf8EncodeChar] at written
    split_ifs at written
    all_goals
      simp only [List.cons.injEq, reduceCtorEq, and_true, and_false, ← UInt8.toNat_inj, UInt8.toNat_ofNat'] at written
    rw [show a.toNat = c.val.toNat by omega]
    exact ⟨by omega, Char.ofNat_toNat c⟩
  · rintro ⟨small, rfl⟩
    simp only [String.utf8EncodeChar, val_ofNat (n := a.toNat) (.inl (by omega))]
    rw [if_pos (by omega), UInt8.ofNat_toNat]

theorem twoByte?_eq_some_iff {a b : UInt8} {c : Char} :
    twoByte? a b = some c ↔ String.utf8EncodeChar c = [a, b] := by
  unfold twoByte? isContinuation low6
  simp only [Bool.and_eq_true, decide_eq_true_eq, UInt8.le_iff_toNat_le, UInt8.reduceToNat]
  constructor
  · intro read
    split at read
    next range =>
      obtain rfl := Option.some.inj read
      have value := val_ofNat (n := a.toNat % 0x20 * 0x40 + b.toNat % 0x40) (by simp only [Nat.isValidChar]; omega)
      simp only [String.utf8EncodeChar, value]
      rw [if_neg (by omega), if_pos (by omega)]
      simp only [List.cons.injEq, and_true, ← UInt8.toNat_inj, UInt8.toNat_ofNat']
      omega
    next => cases read
  · intro written
    simp only [String.utf8EncodeChar] at written
    split_ifs at written
    all_goals
      simp only [List.cons.injEq, reduceCtorEq, and_true, and_false, ← UInt8.toNat_inj, UInt8.toNat_ofNat'] at written
    have value : a.toNat % 0x20 * 0x40 + b.toNat % 0x40 = c.val.toNat := by omega
    rw [if_pos (by omega), value]
    exact congrArg some (Char.ofNat_toNat c)

theorem threeByte?_eq_some_iff {a b d : UInt8} {c : Char} :
    threeByte? a b d = some c ↔ String.utf8EncodeChar c = [a, b, d] := by
  unfold threeByte? isContinuation low6
  simp only [Bool.and_eq_true, Bool.not_eq_true', Bool.and_eq_false_iff, decide_eq_true_eq, decide_eq_false_iff_not,
    UInt8.le_iff_toNat_le, UInt8.reduceToNat]
  constructor
  · intro read
    split at read
    next range =>
      split at read
      next scalar =>
        obtain rfl := Option.some.inj read
        have value := val_ofNat (n := a.toNat % 0x10 * 0x1000 + b.toNat % 0x40 * 0x40 + d.toNat % 0x40)
          (by simp only [Nat.isValidChar]; omega)
        simp only [String.utf8EncodeChar, value, third_digit]
        rw [if_neg (by omega), if_neg (by omega), if_pos (by omega)]
        simp only [List.cons.injEq, and_true, ← UInt8.toNat_inj, UInt8.toNat_ofNat']
        omega
      next => cases read
    next => cases read
  -- A character is no surrogate, so the number that its bytes spell is in range.
  · intro written
    have scalar : c.val.toNat.isValidChar := c.valid
    simp only [Nat.isValidChar] at scalar
    simp only [String.utf8EncodeChar, third_digit] at written
    split_ifs at written
    all_goals
      simp only [List.cons.injEq, reduceCtorEq, and_true, and_false, ← UInt8.toNat_inj, UInt8.toNat_ofNat'] at written
    have value : a.toNat % 0x10 * 0x1000 + b.toNat % 0x40 * 0x40 + d.toNat % 0x40 = c.val.toNat := by omega
    rw [if_pos (by omega), value, if_pos (by omega)]
    exact congrArg some (Char.ofNat_toNat c)

theorem fourByte?_eq_some_iff {a b d e : UInt8} {c : Char} :
    fourByte? a b d e = some c ↔ String.utf8EncodeChar c = [a, b, d, e] := by
  unfold fourByte? isContinuation low6
  simp only [Bool.and_eq_true, decide_eq_true_eq, UInt8.le_iff_toNat_le, UInt8.reduceToNat]
  constructor
  · intro read
    split at read
    next range =>
      split at read
      next scalar =>
        obtain rfl := Option.some.inj read
        have value := val_ofNat
          (n := a.toNat % 0x08 * 0x40000 + b.toNat % 0x40 * 0x1000 + d.toNat % 0x40 * 0x40 + e.toNat % 0x40)
          (by simp only [Nat.isValidChar]; omega)
        simp only [String.utf8EncodeChar, value, fourth_digit, third_digit]
        rw [if_neg (by omega), if_neg (by omega), if_neg (by omega)]
        simp only [List.cons.injEq, and_true, ← UInt8.toNat_inj, UInt8.toNat_ofNat']
        omega
      next => cases read
    next => cases read
  · intro written
    have scalar : c.val.toNat.isValidChar := c.valid
    simp only [Nat.isValidChar] at scalar
    simp only [String.utf8EncodeChar, fourth_digit, third_digit] at written
    split_ifs at written
    all_goals
      simp only [List.cons.injEq, reduceCtorEq, and_true, and_false, ← UInt8.toNat_inj, UInt8.toNat_ofNat'] at written
    have value : a.toNat % 0x08 * 0x40000 + b.toNat % 0x40 * 0x1000 + d.toNat % 0x40 * 0x40 + e.toNat % 0x40 =
        c.val.toNat := by omega
    rw [if_pos (by omega), value, if_pos (by omega)]
    exact congrArg some (Char.ofNat_toNat c)

theorem utf8EncodeChar_append_inj {c d : Char} {rest later : List UInt8}
    (same : String.utf8EncodeChar c ++ rest = String.utf8EncodeChar d ++ later) : c = d := by
  rcases lt_trichotomy c d with less | equal | greater
  · exact absurd (utf8EncodeChar_lt less rest later) (same ▸ List.lt_irrefl _)
  · exact equal
  · exact absurd (utf8EncodeChar_lt greater later rest) (same ▸ List.lt_irrefl _)

theorem bytes_firstPiece (a : UInt8) (rest : List UInt8) :
    (firstPiece a rest).1.bytes ++ rest.drop (firstPiece a rest).2 = a :: rest := by
  unfold firstPiece
  split
  next ascii => exact congrArg (· ++ rest) (utf8EncodeChar_eq_singleton_iff.mpr ⟨ascii, rfl⟩)
  next =>
    split
    next => rfl
    next b rest =>
      split
      next c two => exact congrArg (· ++ rest) (twoByte?_eq_some_iff.mp two)
      next =>
        split
        next => rfl
        next d rest =>
          split
          next c three => exact congrArg (· ++ rest) (threeByte?_eq_some_iff.mp three)
          next =>
            split
            next => rfl
            next e rest =>
              split
              next c four => exact congrArg (· ++ rest) (fourByte?_eq_some_iff.mp four)
              next => rfl

theorem flatMap_bytes_pieces (bs : List UInt8) : (pieces bs).flatMap Piece.bytes = bs := by
  induction bs using pieces.induct with
  | case1 => rw [pieces, List.flatMap_nil]
  | case2 a rest ih => rw [pieces, List.flatMap_cons, ih, bytes_firstPiece]

theorem firstPiece_of_written {c : Char} {a : UInt8} {more : List UInt8} (written : String.utf8EncodeChar c = a :: more)
    (rest : List UInt8) : firstPiece a (more ++ rest) = (.char c, more.length) := by
  -- shorter forms are tried first and spell nothing, because their bytes would begin those of `c`
  have only {d : Char} {front later : List UInt8} (shorter : String.utf8EncodeChar d = front)
      (split : a :: more = front ++ later) : later = [] := by
    have same : String.utf8EncodeChar c ++ [] = String.utf8EncodeChar d ++ later := by
      rw [List.append_nil, written, shorter, split]
    obtain rfl := utf8EncodeChar_append_inj same
    exact (List.append_cancel_left same).symm
  cases more with
  | nil =>
    obtain ⟨small, rfl⟩ := utf8EncodeChar_eq_singleton_iff.mp written
    simp [firstPiece, small]
  | cons b more =>
    have large : ¬ a < 0x80 := by
      intro small
      cases only (utf8EncodeChar_eq_singleton_iff.mpr ⟨small, rfl⟩) rfl
    cases more with
    | nil => simp [firstPiece, large, twoByte?_eq_some_iff.mpr written]
    | cons d more =>
      have two : twoByte? a b = none := by
        refine Option.eq_none_iff_forall_ne_some.mpr fun other spelled => ?_
        cases only (twoByte?_eq_some_iff.mp spelled) rfl
      cases more with
      | nil => simp [firstPiece, large, two, threeByte?_eq_some_iff.mpr written]
      | cons e more =>
        have three : threeByte? a b d = none := by
          refine Option.eq_none_iff_forall_ne_some.mpr fun other spelled => ?_
          cases only (threeByte?_eq_some_iff.mp spelled) rfl
        cases more with
        | nil => simp [firstPiece, large, two, three, fourByte?_eq_some_iff.mpr written]
        | cons =>
          simp only [String.utf8EncodeChar] at written
          split_ifs at written <;> simp at written

theorem pieces_utf8EncodeChar (c : Char) (rest : List UInt8) :
    pieces (String.utf8EncodeChar c ++ rest) = .char c :: pieces rest := by
  obtain ⟨a, more, written⟩ := List.exists_cons_of_ne_nil (String.utf8EncodeChar_ne_nil (c := c))
  rw [written, List.cons_append, pieces, firstPiece_of_written written, List.drop_left]

theorem pieces_bytes (s : String) : pieces (bytes s) = s.toList.map .char := by
  rw [← String.ofList_toList (s := s), bytes_ofList, String.toList_ofList]
  induction s.toList with
  | nil => rw [List.flatMap_nil, pieces, List.map_nil]
  | cons c cs ih => rw [List.flatMap_cons, pieces_utf8EncodeChar, ih, List.map_cons]

theorem ofBytes_bytes (s : String) : ofBytes (bytes s) = s := by
  rw [ofBytes, pieces_bytes, shown_map_char, String.ofList_toList]

theorem mapM_char?_eq_some_iff {ps : List Piece} {cs : List Char} :
    ps.mapM Piece.char? = some cs ↔ ps = cs.map .char := by
  induction ps generalizing cs with
  | nil => cases cs <;> simp
  | cons p ps ih =>
    cases p with
    | char c =>
      cases cs with
      | nil => simp [Piece.char?, Option.bind_eq_some_iff]
      | cons d ds => simp [Piece.char?, Option.bind_eq_some_iff, ih, and_comm]
    | stray b => cases cs <;> simp [Piece.char?]

theorem ofBytes?_eq_some_iff {bs : List UInt8} {s : String} : ofBytes? bs = some s ↔ bs = bytes s := by
  rw [ofBytes?, Option.map_eq_some_iff]
  constructor
  · rintro ⟨cs, read, rfl⟩
    rw [← flatMap_bytes_pieces bs, mapM_char?_eq_some_iff.mp read, bytes_ofList, List.flatMap_map]
    rfl
  · rintro rfl
    exact ⟨s.toList, mapM_char?_eq_some_iff.mpr (pieces_bytes s), String.ofList_toList⟩

theorem ofBytes_eq_empty_iff {bs : List UInt8} : ofBytes bs = "" ↔ bs = [] := by
  constructor
  · intro empty
    have none : pieces bs = [] := by simpa [ofBytes, shown] using congrArg String.toList empty
    rw [← flatMap_bytes_pieces bs, none, List.flatMap_nil]
  · rintro rfl
    rw [ofBytes, pieces]
    rfl

theorem bytes_eq_nil_iff {s : String} : bytes s = [] ↔ s = "" := by
  rw [← ofBytes_eq_empty_iff, ofBytes_bytes]

theorem bytes_ofBytes_iff {bs : List UInt8} : bytes (ofBytes bs) = bs ↔ ∃ s, bs = bytes s := by
  constructor
  · intro kept
    exact ⟨ofBytes bs, kept.symm⟩
  · rintro ⟨s, rfl⟩
    rw [ofBytes_bytes]

end Flowsheet.Text
