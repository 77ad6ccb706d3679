import Flowsheet.Template.Datum
import Flowsheet.Text.Quoted

set_option autoImplicit false

namespace Flowsheet.Template

open Text (Piece)

structure Spec where
  minus : Bool := false
  plus : Bool := false
  zero : Bool := false
  blank : Bool := false
  width : Option Nat := none
  precision : Option Nat := none

def Spec.pad (s : Spec) (text : List UInt8) : List UInt8 :=
  let room := s.width.getD 0 - (Text.pieces text).length
  let blanks := Text.bytes (String.ofList (List.replicate room ' '))
  if s.minus then text ++ blanks else blanks ++ text

def Spec.padText (s : Spec) (text : String) : List UInt8 := s.pad (Text.bytes text)

def Spec.padNumber (s : Spec) (text : String) : List UInt8 :=
  -- Pads a number; zeros go between the sign and the digits.
  let text :=
    if text.startsWith "-" || text.startsWith "+" then text
    else if s.plus then "+" ++ text
    else if s.blank then " " ++ text
    else text
  if s.zero && !s.minus then
    let room := s.width.getD 0 - text.length
    let zeros := List.replicate room '0'
    Text.bytes (String.ofList (match text.toList with
      | c :: cs => if c = '-' || c = '+' || c = ' ' then c :: zeros ++ cs else zeros ++ c :: cs
      | [] => zeros))
  else s.padText text

def inBase (base n : Nat) : String := String.ofList (Nat.toDigits base n)

def signedIn (base : Nat) (n : Int) : String :=
  (if n < 0 then "-" else "") ++ inBase base n.natAbs

def upperHex (s : String) : String := s.map Char.toUpper

def hexOf (bs : List UInt8) : String := String.ofList (bs.flatMap fun b => Text.hex 2 b.toNat)

def described (d : Datum) : List UInt8 :=
  match d with
  | .nil => Text.bytes "<nil>"
  | d => Text.bytes (d.typeName ++ "=") ++ d.display

def badVerb (verb : Char) (d : Datum) : List UInt8 :=
  Text.bytes ("%!" ++ verb.toString ++ "(") ++ described d ++ Text.bytes ")"

def charOf (n : Int) : Char :=
  -- The character with a code; a code without one shows as a replacement.
  if 0 ≤ n ∧ n.toNat.isValidChar then Char.ofNat n.toNat else Char.ofNat 0xFFFD

def codePoint (n : Nat) : String :=
  let digits := upperHex (inBase 16 n)
  "U+" ++ String.ofList (List.replicate (4 - digits.length) '0') ++ digits

def formatInt (s : Spec) (verb : Char) (d : Datum) (n : Int) : List UInt8 :=
  match verb with
  | 'v' | 'd' => s.padNumber (toString n)
  | 'b' => s.padNumber (signedIn 2 n)
  | 'o' => s.padNumber (signedIn 8 n)
  | 'x' => s.padNumber (signedIn 16 n)
  | 'X' => s.padNumber (upperHex (signedIn 16 n))
  | 'c' => s.padText (charOf n).toString
  | 'q' => s.padText (Text.quoteChar (charOf n))
  | 'U' => s.padText (codePoint n.toNat)
  | _ => badVerb verb d

def formatFloat (s : Spec) (verb : Char) (d : Datum) (x : Float) : List UInt8 :=
  match verb with
  | 'v' | 'g' =>
    match s.precision with
    | none => s.padNumber (Decimal.Layout.general.text x)
    | some p =>
      match Decimal.magnitude x with
      | .finite m q =>
        let digits := Decimal.significant (max p 1) m q
        let digits := digits.reduce 400
        let sign := if Decimal.isNegative x then "-" else ""
        let layout : Decimal.Layout := ⟨some (-4), some (Int.ofNat (max p 1)), 2⟩
        s.padNumber (sign ++ String.ofList (layout.finite digits))
      | _ => s.padNumber (Decimal.Layout.general.text x)
  | 'f' | 'F' => s.padNumber (Decimal.fixed (s.precision.getD 6) x)
  | 'e' => s.padNumber (Decimal.exponential (s.precision.getD 6) x)
  | _ => badVerb verb d

def formatText (s : Spec) (verb : Char) (t : List UInt8) : List UInt8 :=
  let kept := match s.precision with
    | some p => ((Text.pieces t).take p).flatMap Piece.bytes
    | none => t
  match verb with
  | 'v' | 's' => s.pad kept
  | 'q' => s.padText (Text.quoteBytes kept)
  | 'x' => s.padText (hexOf kept)
  | 'X' => s.padText (upperHex (hexOf kept))
  | _ => badVerb verb (.text t)

def format (s : Spec) (verb : Char) : Bool → Datum → List UInt8
  | inside, .nil => if inside || verb = 'v' then s.padText "<nil>" else badVerb verb .nil
  | _, .bool b =>
    if verb = 'v' || verb = 't' then s.padText (if b then "true" else "false") else badVerb verb (.bool b)
  | _, .int n => formatInt s verb (.int n) n
  | _, .long n => formatInt s verb (.long n) n
  | _, .byte n => formatInt s verb (.byte n) (Int.ofNat n)
  | _, .float x => formatFloat s verb (.float x) x
  | _, .text t => formatText s verb t
  | _, .list items => Text.bytes "[" ++ Datum.spaced (formats items) ++ Text.bytes "]"
  | _, .map entries =>
    Text.bytes "map[" ++ Datum.spaced ((Datum.byKey (pairs entries)).map (·.2)) ++ Text.bytes "]"
where
  formats : List Datum → List (List UInt8)
    | [] => []
    | d :: rest => format s verb true d :: formats rest
  pairs : List (List UInt8 × Datum) → List (List UInt8 × List UInt8)
    | [] => []
    | (k, d) :: rest =>
      (k, formatText s verb k ++ Text.bytes ":" ++ format s verb true d) :: pairs rest

def flags : List Piece → Spec → Spec × List Piece
  | .char '-' :: r, s => flags r { s with minus := true }
  | .char '+' :: r, s => flags r { s with plus := true }
  | .char '0' :: r, s => flags r { s with zero := true }
  | .char ' ' :: r, s => flags r { s with blank := true }
  | .char '#' :: r, s => flags r s
  | r, s => (s, r)

def leadingNumber (ps : List Piece) : List Char := (Text.shown ps).takeWhile Char.isDigit

def digitsOf (cs : List Char) : Nat := cs.foldl (fun n c => 10 * n + (c.toNat - 48)) 0

def spec (ps : List Piece) : Spec × List Piece :=
  let (s, ps) := flags ps {}
  let width := leadingNumber ps
  let ps := ps.drop width.length
  let s := if width.isEmpty then s else { s with width := some (digitsOf width) }
  match ps with
  | .char '.' :: r =>
    let precision := leadingNumber r
    ({ s with precision := some (digitsOf precision) }, r.drop precision.length)
  | _ => (s, ps)

def fillFormat : Nat → List Piece → List Datum → List UInt8
  -- Fills a format with values. Missing, surplus and unsuitable values are reported in the text.
  | 0, _, _ => []
  | _, [], [] => []
  | _, [], args =>
    Text.bytes "%!(EXTRA " ++ (Text.bytes ", ").intercalate (args.map described) ++ Text.bytes ")"
  | fuel + 1, .char '%' :: rest, args =>
    let (s, rest) := spec rest
    match rest with
    | [] => Text.bytes "%!(NOVERB)" ++ fillFormat fuel [] args
    | .char '%' :: rest => Text.bytes "%" ++ fillFormat fuel rest args
    | p :: rest =>
      let verb := p.shown
      match args with
      | [] => Text.bytes ("%!" ++ verb.toString ++ "(MISSING)") ++ fillFormat fuel rest []
      | d :: args =>
        -- A value in its own form shows no plus sign.
        let s := if verb = 'v' then { s with plus := false } else s
        (if verb = 'T' then s.padText d.typeName else format s verb false d) ++ fillFormat fuel rest args
  | fuel + 1, p :: rest, args => p.bytes ++ fillFormat fuel rest args

end Flowsheet.Template
