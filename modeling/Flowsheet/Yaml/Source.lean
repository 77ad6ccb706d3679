import Flowsheet.Text.Utf8

set_option autoImplicit false

namespace Flowsheet.Yaml

def isAllowed (c : Char) : Bool :=
  let n := c.toNat
  n = 0x09 || n = 0x0A || n = 0x0D || (0x20 ≤ n && n ≤ 0x7E) || n = 0x85 ||
    (0xA0 ≤ n && n ≤ 0xFFFD && n ≠ 0xFEFF) || 0x10000 ≤ n

def units16? : List UInt8 → Option (List Nat)
  | [] => some []
  | [_] => none
  | a :: b :: rest => (units16? rest).map fun us => (a.toNat * 256 + b.toNat) :: us

def swapPairs : List UInt8 → List UInt8
  | a :: b :: rest => b :: a :: swapPairs rest
  | rest => rest

def chars16? : List Nat → Option (List Char)
  | [] => some []
  | [n] => if 0xD800 ≤ n && n < 0xE000 then none else some [Char.ofNat n]
  | n :: m :: rest =>
    if 0xD800 ≤ n && n < 0xDC00 then
      if 0xDC00 ≤ m && m < 0xE000 then
        (chars16? rest).map fun cs =>
          Char.ofNat (0x10000 + (n - 0xD800) * 0x400 + (m - 0xDC00)) :: cs
      else none
    else if 0xDC00 ≤ n && n < 0xE000 then none
    else (chars16? (m :: rest)).map fun cs => Char.ofNat n :: cs

def chars? (bytes : List UInt8) : Option (List Char) :=
  let cs : Option (List Char) :=
    match bytes with
    | 0xEF :: 0xBB :: 0xBF :: rest => (Text.ofBytes? rest).map String.toList
    | 0xFE :: 0xFF :: rest => (units16? rest).bind chars16?
    | 0xFF :: 0xFE :: rest => (units16? (swapPairs rest)).bind chars16?
    | _ => (Text.ofBytes? bytes).map String.toList
  cs.bind fun cs => if cs.all isAllowed then some cs else none

end Flowsheet.Yaml
