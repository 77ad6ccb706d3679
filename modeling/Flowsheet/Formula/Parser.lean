import Flowsheet.Formula.Token
import Flowsheet.Text.Blank

set_option autoImplicit false

namespace Flowsheet.Formula

structure ParseError where
  fault : Fault
  source : List UInt8
deriving DecidableEq, Repr

def ParseError.message (e : ParseError) : String :=
  let at' (what : String) (offset : Nat) : String :=
    s!"parse error: {what} at offset {offset} in " ++ Text.quoteBytes e.source
  match e.fault with
  | .empty => "parse error: empty expression"
  | .unknownToken text offset => at' ("unknown token " ++ Text.quote text) offset
  | .invalidNumber text offset => at' ("invalid number " ++ Text.quote text) offset
  | .unexpected none offset => at' "unexpected end of expression" offset
  | .unexpected (some text) offset => at' ("unexpected " ++ Text.quote text) offset
  | .unbalanced offset => at' "unbalanced parenthesis" offset
  | .unclosed offset => at' "unbalanced parenthesis opened" offset

variable {N : Type}

def faultAt (stop : Nat) : List (Lexeme N) → Fault
  -- What is wrong with standing at the front of these lexemes; `stop` is the offset of the end.
  | [] => .unexpected none stop
  | t :: _ =>
    match t.token with
    | .closeParen => .unbalanced t.offset
    | _ => .unexpected (some t.text) t.offset

def additive? : List (Lexeme N) → Option (Operator × List (Lexeme N))
  | ⟨.operator .add, _, _⟩ :: rest => some (.add, rest)
  | ⟨.operator .sub, _, _⟩ :: rest => some (.sub, rest)
  | _ => none

def multiplicative? : List (Lexeme N) → Option (Operator × List (Lexeme N))
  | ⟨.operator .mul, _, _⟩ :: rest => some (.mul, rest)
  | ⟨.operator .div, _, _⟩ :: rest => some (.div, rest)
  | _ => none

abbrev Parsed (N : Type) := Except Fault (Formula N × List (Lexeme N))

mutual

def parseSum (stop : Nat) : Nat → List (Lexeme N) → Parsed N
  | 0, ts => .error (faultAt stop ts)
  | fuel + 1, ts =>
    match parseProduct stop fuel ts with
    | .error e => .error e
    | .ok (left, rest) => sumFrom stop fuel left rest

def sumFrom (stop : Nat) : Nat → Formula N → List (Lexeme N) → Parsed N
  | 0, _, ts => .error (faultAt stop ts)
  | fuel + 1, left, ts =>
    match additive? ts with
    | none => .ok (left, ts)
    | some (op, rest) =>
      match parseProduct stop fuel rest with
      | .error e => .error e
      | .ok (right, rest') => sumFrom stop fuel (.binary op left right) rest'

def parseProduct (stop : Nat) : Nat → List (Lexeme N) → Parsed N
  | 0, ts => .error (faultAt stop ts)
  | fuel + 1, ts =>
    match parseSigned stop fuel ts with
    | .error e => .error e
    | .ok (left, rest) => productFrom stop fuel left rest

def productFrom (stop : Nat) : Nat → Formula N → List (Lexeme N) → Parsed N
  | 0, _, ts => .error (faultAt stop ts)
  | fuel + 1, left, ts =>
    match multiplicative? ts with
    | none => .ok (left, ts)
    | some (op, rest) =>
      match parseSigned stop fuel rest with
      | .error e => .error e
      | .ok (right, rest') => productFrom stop fuel (.binary op left right) rest'

def parseSigned (stop : Nat) : Nat → List (Lexeme N) → Parsed N
  | 0, ts => .error (faultAt stop ts)
  | fuel + 1, ts =>
    match additive? ts with
    | some (op, rest) =>
      match parseSigned stop fuel rest with
      | .error e => .error e
      | .ok (body, rest') => .ok (.signed (if op = .sub then .minus else .plus) body, rest')
    | none => parsePrimary stop fuel ts

def parsePrimary (stop : Nat) : Nat → List (Lexeme N) → Parsed N
  | 0, ts => .error (faultAt stop ts)
  | fuel + 1, ts =>
    match ts with
    | ⟨.number v, _, _⟩ :: rest => .ok (.number v, rest)
    | ⟨.name x, _, _⟩ :: rest => .ok (.name x, rest)
    | ⟨.openParen, _, offset⟩ :: rest =>
      match parseSum stop fuel rest with
      | .error e => .error e
      | .ok (inner, ⟨.closeParen, _, _⟩ :: rest') => .ok (inner, rest')
      | .ok _ => .error (.unclosed offset)
    | _ => .error (faultAt stop ts)

end

def nesting (ts : List (Lexeme N)) : Nat := 6 * (ts.length + 1)

def parseLexemes (stop : Nat) (ts : List (Lexeme N)) : Except Fault (Formula N) :=
  match parseSum stop (nesting ts) ts with
  | .error e => .error e
  | .ok (e, []) => .ok e
  | .ok (_, rest) => .error (faultAt stop rest)

def isBlankPiece : Text.Piece → Bool
  | .char c => Text.isBlank c
  | .stray _ => false

def parseBytes [Quantity N] (source : List UInt8) : Except ParseError (Formula N) :=
  let result : Except Fault (Formula N) :=
    if (Text.pieces source).all isBlankPiece then .error .empty
    else
      match lexemes 0 source with
      | .error f => .error f
      | .ok ts => parseLexemes source.length ts
  result.mapError fun f => ⟨f, source⟩

def parse [Quantity N] (text : String) : Except ParseError (Formula N) :=
  parseBytes (Text.bytes text)

end Flowsheet.Formula
