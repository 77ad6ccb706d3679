import Flowsheet.Text.Printable
import Flowsheet.Text.Utf8

set_option autoImplicit false

namespace Flowsheet.Text

def hexDigit (n : Nat) : Char :=
  if n < 10 then Char.ofNat (48 + n) else Char.ofNat (87 + n)

def hex : Nat → Nat → List Char
  | 0, _ => []
  | width + 1, n => hex width (n / 16) ++ [hexDigit (n % 16)]

@[simp] theorem hex_length (width n : Nat) : (hex width n).length = width := by
  induction width generalizing n with
  | zero => rfl
  | succ k ih => simp [hex, ih]

def quotedChar (c : Char) : List Char :=
  if c = '"' then ['\\', '"']
  else if c = '\\' then ['\\', '\\']
  else if isPrintable c then [c]
  else
    match c.toNat with
    | 7 => ['\\', 'a']
    | 8 => ['\\', 'b']
    | 12 => ['\\', 'f']
    | 10 => ['\\', 'n']
    | 13 => ['\\', 'r']
    | 9 => ['\\', 't']
    | 11 => ['\\', 'v']
    | n =>
      if n < 0x20 || n = 0x7F then '\\' :: 'x' :: hex 2 n
      else if n < 0x10000 then '\\' :: 'u' :: hex 4 n
      else '\\' :: 'U' :: hex 8 n

def Piece.quoted : Piece → List Char
  | .char c => quotedChar c
  | .stray b => '\\' :: 'x' :: hex 2 b.toNat

def quote (s : String) : String :=
  String.ofList ('"' :: s.toList.flatMap quotedChar ++ ['"'])

def quoteChar (c : Char) : String :=
  let body := if c = '\'' then ['\\', '\''] else if c = '"' then [c] else quotedChar c
  String.ofList ('\'' :: body ++ ['\''])

def quoteBytes (bs : List UInt8) : String :=
  String.ofList ('"' :: (pieces bs).flatMap Piece.quoted ++ ['"'])

end Flowsheet.Text
