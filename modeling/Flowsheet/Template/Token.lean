import Flowsheet.Json.Parser
import Flowsheet.Text.Printable
import Flowsheet.Decimal.Reader
import Flowsheet.Word

set_option autoImplicit false

namespace Flowsheet.Template

open Text (Piece shown)

-- A number as written: the integer it is, if it is one, and the float. Only a spelling with a point or an
-- exponent is taken for a float where both would do.
structure NumberLiteral where
  int : Option Int
  float : Float
  isFloat : Bool

inductive Keyword where
  | ifWord
  | elseWord
  | endWord
  | rangeWord
  | withWord
  | other
deriving DecidableEq, Repr

inductive Token where
  | text (s : List UInt8)
  | actionStart
  | actionEnd
  | space
  | assign
  | declare
  | pipe
  | comma
  | openParen
  | closeParen
  | dot
  | field (name : String)
  | variable (name : String)
  | word (name : String)
  | keyword (k : Keyword)
  | string (s : List UInt8)
  | number (n : NumberLiteral)
  | bool (b : Bool)
  | nil

def isSpace : Piece → Bool
  | .char c => c = ' ' || c = '\t' || c = '\r' || c = '\n'
  | .stray _ => false

def isWordPart : Piece → Bool
  -- Letters, digits and the underscore; outside ASCII everything printable but the signs of the
  -- first two blocks and the replacement character.
  | .char c =>
    c.isAlphanum || c = '_' ||
      (0xC0 ≤ c.toNat && c.toNat ≠ 0xD7 && c.toNat ≠ 0xF7 && c.toNat ≠ 0xFFFD && Text.isPrintable c)
  | .stray _ => false

def trimRight (ps : List Piece) : List Piece := (ps.reverse.dropWhile isSpace).reverse

def endsWord : List Piece → Bool
  | [] => true
  | p :: _ => isSpace p || ".,|:)(\x7d".toList.contains p.shown

def actionEnd? : List Piece → Option (List Piece)
  | .char '\x7d' :: rest => some rest
  | p :: .char '-' :: .char '\x7d' :: rest => if isSpace p then some (rest.dropWhile isSpace) else none
  | _ => none

def octal? (c : Char) : Option Nat := if '0' ≤ c ∧ c ≤ '7' then some (c.toNat - 48) else none

def codePoint? (n : Nat) : Option Char :=
  if 0x10FFFF < n || (0xD800 ≤ n && n < 0xE000) then none else some (Char.ofNat n)

def hexRun? (count : Nat) (ps : List Piece) : Option (Nat × List Piece) := do
  let ds ← (ps.take count).mapM fun p => p.char?.bind Json.hexValue?
  if ds.length ≠ count then none
  some (ds.foldl (fun n d => n * 16 + d) 0, ps.drop count)

-- One character of a literal between quotes of the given kind. An escape that counts bytes stands for a byte,
-- which need not be a character.
def literalPiece? (quote : Char) : List Piece → Option (Piece × List Piece)
  | .char '\\' :: .char 'a' :: r => some (.char (Char.ofNat 7), r)
  | .char '\\' :: .char 'b' :: r => some (.char (Char.ofNat 8), r)
  | .char '\\' :: .char 'f' :: r => some (.char (Char.ofNat 12), r)
  | .char '\\' :: .char 'n' :: r => some (.char '\n', r)
  | .char '\\' :: .char 'r' :: r => some (.char '\r', r)
  | .char '\\' :: .char 't' :: r => some (.char '\t', r)
  | .char '\\' :: .char 'v' :: r => some (.char (Char.ofNat 11), r)
  | .char '\\' :: .char '\\' :: r => some (.char '\\', r)
  | .char '\\' :: .char 'x' :: r => do
    let (n, r) ← hexRun? 2 r
    some (.stray n.toUInt8, r)
  | .char '\\' :: .char 'u' :: r => do
    let (n, r) ← hexRun? 4 r
    some (.char (← codePoint? n), r)
  | .char '\\' :: .char 'U' :: r => do
    let (n, r) ← hexRun? 8 r
    some (.char (← codePoint? n), r)
  | .char '\\' :: a :: r =>
    if a = .char quote then some (a, r)
    else
      match r with
      | b :: c :: r => do
        let n := (← octal? a.shown) * 64 + (← octal? b.shown) * 8 + (← octal? c.shown)
        if 255 < n then none
        some (.stray n.toUInt8, r)
      | _ => none
  | [.char '\\'] => none
  | p :: r => if p = .char '\n' then none else some (.char p.shown, r)
  | [] => none

def stringLiteral? : Nat → List UInt8 → List Piece → Option (List UInt8 × List Piece)
  | 0, _, _ => none
  | fuel + 1, done, ps =>
    match ps with
    | .char '"' :: rest => some (done, rest)
    | _ => do
      let (p, rest) ← literalPiece? '"' ps
      stringLiteral? fuel (done ++ p.bytes) rest

def charLiteral? (ps : List Piece) : Option (NumberLiteral × List Piece) := do
  match ps with
  | .char '\'' :: _ => none
  | _ =>
    let (p, rest) ← literalPiece? '\'' ps
    match rest with
    | .char '\'' :: rest => some (⟨some (Int.ofNat p.code), p.code.toFloat, false⟩, rest)
    | _ => none

def numberText (cs : List Char) : List Char :=
  let digits (ok : Char → Bool) (cs : List Char) := cs.span fun c => ok c || c = '_'
  let isHex (c : Char) := (Json.hexValue? c).isSome
  let sign := cs.take (if cs.head? = some '+' || cs.head? = some '-' then 1 else 0)
  let cs := cs.drop sign.length
  let (mark, ok, hex, dec, cs) : List Char × (Char → Bool) × Bool × Bool × List Char := match cs with
    | '0' :: x :: r =>
      if x = 'x' || x = 'X' then (['0', x], isHex, true, false, r)
      else if x = 'o' || x = 'O' then (['0', x], fun c => (octal? c).isSome, false, false, r)
      else if x = 'b' || x = 'B' then (['0', x], fun c => c = '0' || c = '1', false, false, r)
      else ([], Char.isDigit, false, true, cs)
    | _ => ([], Char.isDigit, false, true, cs)
  let (whole, cs) := digits ok cs
  let (fraction, cs) := match cs with
    | '.' :: r =>
      let (ds, r) := digits ok r
      ('.' :: ds, r)
    | r => ([], r)
  let exponent := match cs with
    | e :: r =>
      if (dec && (e = 'e' || e = 'E')) || (hex && (e = 'p' || e = 'P')) then
        let s := r.take (if r.head? = some '+' || r.head? = some '-' then 1 else 0)
        e :: s ++ (digits Char.isDigit (r.drop s.length)).1
      else []
    | [] => []
  sign ++ mark ++ whole ++ fraction ++ exponent

def integer? (cs : List Char) : Option Int :=
  -- An integer with the base its first characters announce, digits grouped by underscores.
  let (negative, body) := Decimal.splitSign cs
  let isDigitOf (base : Nat) (c : Char) := (Decimal.digitIn? base c).isSome
  let read (base : Nat) (marked : Bool) (ds : List Char) : Option Nat :=
    if Decimal.underscoresSeparate (isDigitOf base) marked ds &&
        ds.all (fun c => c = '_' || isDigitOf base c) && Decimal.countIn base ds ≠ 0 then
      some (Decimal.valueIn base 0 ds)
    else none
  let n := match body with
    | '0' :: x :: r =>
      match Decimal.lowered x with
      | 'x' => read 16 true r
      | 'o' => read 8 true r
      | 'b' => read 2 true r
      | _ => read 8 true (x :: r)
    | _ => read 10 false body
  n.bind fun n =>
    let i := if negative then -Int.ofNat n else Int.ofNat n
    if Word.isSigned i then some i else none

def wholeFloat? (x : Float) : Option Int :=
  match Decimal.magnitude x with
  | .finite m q =>
    let den := Nat.pow 2 (-q).toNat
    if m % den = 0 then
      let i := Int.ofNat (m * Nat.pow 2 q.toNat / den)
      let i := if Decimal.isNegative x then -i else i
      if Word.isSigned i then some i else none
    else none
  | _ => none

def number? (cs : List Char) : Option NumberLiteral :=
  let isFloat := cs.any fun c => ".eEpP".toList.contains c
  match integer? cs with
  | some i =>
    let hexLike := cs.any fun c => c = 'x' || c = 'X'
    let x := (Decimal.toFloat? ⟨i.natAbs, 0⟩).getD 0
    some ⟨some i, if i < 0 then -x else x, isFloat && !hexLike⟩
  | none =>
    if isFloat then
      (Decimal.readFloat? (String.ofList cs)).map fun x => ⟨wholeFloat? x, x, true⟩
    else none

def keyword? : String → Option Keyword
  | "if" => some .ifWord
  | "else" => some .elseWord
  | "end" => some .endWord
  | "range" => some .rangeWord
  | "with" => some .withWord
  | "block" | "define" | "template" => some .other
  | _ => none

def wordToken (w : String) : Token :=
  match w with
  | "true" => .bool true
  | "false" => .bool false
  | "nil" => .nil
  | _ =>
    match keyword? w with
    | some k => .keyword k
    | none => .word w

def actionToken? : List Piece → Option (Token × List Piece)
  | [] => none
  | .char '=' :: r => some (.assign, r)
  | .char ':' :: .char '=' :: r => some (.declare, r)
  | .char '|' :: r => some (.pipe, r)
  | .char ',' :: r => some (.comma, r)
  | .char '(' :: r => some (.openParen, r)
  | .char ')' :: r => some (.closeParen, r)
  | .char '"' :: r => (stringLiteral? (r.length + 1) [] r).map fun (s, r) => (.string s, r)
  | .char '\'' :: r => (charLiteral? r).map fun (n, r) => (.number n, r)
  | .char '$' :: r =>
    let name := r.takeWhile isWordPart
    let rest := r.dropWhile isWordPart
    if endsWord rest then some (.variable (String.ofList ('$' :: shown name)), rest) else none
  | p :: r =>
    let c := p.shown
    if isSpace p then some (.space, r.dropWhile isSpace)
    else if c.toNat = 96 then
      match r.dropWhile (·.shown.toNat ≠ 96) with
      | [] => none
      | _ :: rest =>
        some (.string (((r.takeWhile (·.shown.toNat ≠ 96)).filter (· ≠ .char '\r')).flatMap Piece.bytes), rest)
    else if c = '.' && !(r.head?.any (·.shown.isDigit)) && r ≠ [] then
      let name := r.takeWhile isWordPart
      let rest := r.dropWhile isWordPart
      if !endsWord rest then none
      else if name.isEmpty then some (.dot, rest)
      else some (.field (String.ofList (shown name)), rest)
    else if c = '.' || c = '+' || c = '-' || c.isDigit then
      let t := numberText (shown (p :: r))
      let rest := (p :: r).drop t.length
      if rest.head?.any isWordPart || (rest.head?.map Piece.shown).any (fun d => d = '+' || d = '-') then none
      else (number? t).map fun n => (.number n, rest)
    else if isWordPart p then
      let name := (p :: r).takeWhile isWordPart
      let rest := (p :: r).dropWhile isWordPart
      if endsWord rest then some (wordToken (String.ofList (shown name)), rest) else none
    else none

def afterComment? : List Piece → Option (List Piece)
  | .char '*' :: .char '/' :: rest => some rest
  | _ :: rest => afterComment? rest
  | [] => none

def textToken (ps : List Piece) : List Token := if ps.isEmpty then [] else [.text (ps.flatMap Piece.bytes)]

mutual

def textTokens : Nat → List Piece → List Piece → Option (List Token)
  | 0, _, _ => none
  | fuel + 1, done, ps =>
    match ps with
    | [] => some (textToken done.reverse)
    | .char '$' :: .char '\x7b' :: rest =>
      let (before, rest) := match rest with
        | .char '-' :: p :: rest' =>
          if isSpace p then (trimRight done.reverse, rest') else (done.reverse, rest)
        | _ => (done.reverse, rest)
      match rest with
      | .char '/' :: .char '*' :: rest' => do
        let rest'' ← afterComment? rest'
        let after ← actionEnd? rest''
        return textToken before ++ (← textTokens fuel [] after)
      | _ => do return textToken before ++ .actionStart :: (← actionTokens fuel 0 rest)
    | p :: rest => textTokens fuel (p :: done) rest

def actionTokens : Nat → Nat → List Piece → Option (List Token)
  | 0, _, _ => none
  | fuel + 1, depth, ps =>
    match actionEnd? ps with
    | some after =>
      if depth = 0 then do return .actionEnd :: (← textTokens fuel [] after) else none
    | none =>
      match ps with
      | p :: q :: _ =>
        if isSpace p && isSpace q then actionTokens fuel depth (ps.drop 1)
        else nextTokens fuel depth ps
      | _ => nextTokens fuel depth ps

def nextTokens : Nat → Nat → List Piece → Option (List Token)
  | 0, _, _ => none
  | fuel + 1, depth, ps =>
    match actionToken? ps with
    | none => none
    | some (.openParen, rest) => do return .openParen :: (← actionTokens fuel (depth + 1) rest)
    | some (.closeParen, rest) =>
      if depth = 0 then none else do return .closeParen :: (← actionTokens fuel (depth - 1) rest)
    | some (t, rest) => do return t :: (← actionTokens fuel depth rest)

end

def tokens? (ps : List Piece) : Option (List Token) := textTokens (3 * ps.length + 3) [] ps

end Flowsheet.Template
