set_option autoImplicit false

namespace Flowsheet.Text

inductive Piece where
  | char (c : Char)
  | stray (b : UInt8)
deriving DecidableEq, Repr

def isContinuation (b : UInt8) : Bool := 0x80 ≤ b && b ≤ 0xBF

def low6 (b : UInt8) : Nat := b.toNat % 0x40

def threeByte? (a b c : UInt8) : Option Char :=
  -- The code points that a lead byte with two continuation bytes may spell: neither overlong forms
  -- nor surrogates.
  if 0xE0 ≤ a && a ≤ 0xEF && isContinuation b && isContinuation c then
    let n := (a.toNat % 0x10) * 0x1000 + low6 b * 0x40 + low6 c
    if 0x800 ≤ n && !(0xD800 ≤ n && n ≤ 0xDFFF) then some (Char.ofNat n) else none
  else none

def fourByte? (a b c d : UInt8) : Option Char :=
  if 0xF0 ≤ a && a ≤ 0xF4 && isContinuation b && isContinuation c && isContinuation d then
    let n := (a.toNat % 0x08) * 0x40000 + low6 b * 0x1000 + low6 c * 0x40 + low6 d
    if 0x10000 ≤ n && n ≤ 0x10FFFF then some (Char.ofNat n) else none
  else none

def twoByte? (a b : UInt8) : Option Char :=
  if 0xC2 ≤ a && a ≤ 0xDF && isContinuation b then
    some (Char.ofNat ((a.toNat % 0x20) * 0x40 + low6 b))
  else none

def firstPiece (a : UInt8) (rest : List UInt8) : Piece × Nat :=
  if a < 0x80 then (.char (Char.ofNat a.toNat), 0)
  else
    match rest with
    | [] => (.stray a, 0)
    | b :: rest₁ =>
      match twoByte? a b with
      | some c => (.char c, 1)
      | none =>
        match rest₁ with
        | [] => (.stray a, 0)
        | c :: rest₂ =>
          match threeByte? a b c with
          | some ch => (.char ch, 2)
          | none =>
            match rest₂ with
            | [] => (.stray a, 0)
            | d :: _ =>
              match fourByte? a b c d with
              | some ch => (.char ch, 3)
              | none => (.stray a, 0)

def pieces : List UInt8 → List Piece
  | [] => []
  | a :: rest => (firstPiece a rest).1 :: pieces (rest.drop (firstPiece a rest).2)
termination_by bytes => bytes.length
decreasing_by simp only [List.length_cons, List.length_drop]; omega

def Piece.char? : Piece → Option Char
  | .char c => some c
  | .stray _ => none

def Piece.bytes : Piece → List UInt8
  | .char c => String.utf8EncodeChar c
  | .stray b => [b]

def Piece.shown : Piece → Char
  | .char c => c
  | .stray _ => Char.ofNat 0xFFFD

def Piece.code : Piece → Nat
  | .char c => c.toNat
  | .stray b => b.toNat

def shown (ps : List Piece) : List Char := ps.map Piece.shown

@[simp] theorem shown_map_char (cs : List Char) : shown (cs.map .char) = cs := by
  simp [shown, Function.comp_def, Piece.shown]

def ofBytes (bytes : List UInt8) : String := String.ofList (shown (pieces bytes))

def ofBytes? (bytes : List UInt8) : Option String :=
  ((pieces bytes).mapM Piece.char?).map String.ofList

def bytes (s : String) : List UInt8 := s.toUTF8.toList

end Flowsheet.Text
