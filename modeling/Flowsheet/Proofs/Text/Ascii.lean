import Flowsheet.Text.Utf8

set_option autoImplicit false

namespace Flowsheet.Text

def IsAscii (c : Char) : Prop := c.toNat < 128

instance (c : Char) : Decidable (IsAscii c) := inferInstanceAs (Decidable (c.toNat < 128))

def byte (c : Char) : UInt8 := UInt8.ofNat c.toNat

theorem toList_loop (bs : ByteArray) (i : Nat) (r : List UInt8) :
    ByteArray.toList.loop bs i r = r.reverse ++ bs.data.toList.drop i := by
  induction remaining : bs.size - i generalizing i r with
  | zero =>
    have done : bs.size ≤ i := by omega
    have size : bs.data.toList.length ≤ i := done
    rw [ByteArray.toList.loop, if_neg (by omega), List.drop_of_length_le size, List.append_nil]
  | succ n ih =>
    have inside : i < bs.size := by omega
    have bound : i < bs.data.toList.length := inside
    have entry : bs.get! i = bs.data.toList[i] := by
      change bs.data[i]! = bs.data.toList[i]
      rw [getElem!_pos bs.data i inside, Array.getElem_toList]
    rw [ByteArray.toList.loop, if_pos inside, ih (i + 1) _ (by omega), List.drop_eq_getElem_cons bound,
      entry]
    simp

theorem bytes_eq (s : String) : bytes s = s.toByteArray.data.toList := by
  simpa [bytes, ByteArray.toList] using toList_loop s.toByteArray 0 []

theorem bytes_injective {s t : String} (same : bytes s = bytes t) : s = t := by
  rw [bytes_eq, bytes_eq] at same
  exact String.toByteArray_inj.mp (ByteArray.ext (Array.toList_inj.mp same))

theorem bytes_ofList (cs : List Char) : bytes (String.ofList cs) = cs.flatMap String.utf8EncodeChar := by
  rw [bytes_eq, String.toByteArray_ofList, List.utf8Encode, List.toList_data_toByteArray]

theorem utf8EncodeChar_of_isAscii {c : Char} (ascii : IsAscii c) : String.utf8EncodeChar c = [byte c] := by
  have small : c.val.toNat ≤ 0x7f := Nat.le_of_lt_succ ascii
  simp only [String.utf8EncodeChar, if_pos small]
  rfl

theorem bytes_ofList_of_ascii {cs : List Char} (ascii : ∀ c ∈ cs, IsAscii c) :
    bytes (String.ofList cs) = cs.map byte := by
  rw [bytes_ofList]
  induction cs with
  | nil => rfl
  | cons c cs ih =>
    rw [List.flatMap_cons, utf8EncodeChar_of_isAscii (ascii c (by simp)),
      ih (fun d member => ascii d (List.mem_cons_of_mem _ member))]
    rfl

theorem toNat_byte {c : Char} (ascii : IsAscii c) : (byte c).toNat = c.toNat := by
  have small : c.toNat < 256 := Nat.lt_trans ascii (by decide)
  simp [byte, Nat.mod_eq_of_lt small]

theorem ofNat_byte {c : Char} (ascii : IsAscii c) : Char.ofNat (byte c).toNat = c := by
  rw [toNat_byte ascii, Char.ofNat_toNat]

theorem pieces_cons_of_ascii {b : UInt8} (small : b < 0x80) (rest : List UInt8) :
    pieces (b :: rest) = .char (Char.ofNat b.toNat) :: pieces rest := by
  rw [pieces]
  simp [firstPiece, small]

end Flowsheet.Text
