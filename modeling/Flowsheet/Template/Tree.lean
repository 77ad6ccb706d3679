import Flowsheet.Template.Token

set_option autoImplicit false

namespace Flowsheet.Template

inductive Operand where
  | dot
  | nil
  | bool (b : Bool)
  | number (n : NumberLiteral)
  | text (s : List UInt8)
  | field (names : List String)
  | variable (name : String) (fields : List String)
  | function (name : String)
  | pipeline (declared : List String) (assign : Bool) (commands : List (List Operand))
  | chain (base : Operand) (fields : List String)

structure Pipeline where
  declared : List String
  assign : Bool
  commands : List (List Operand)

inductive Block where
  | conditional
  | iteration
  | scope
deriving DecidableEq, Repr

inductive Node where
  | text (s : List UInt8)
  | action (p : Pipeline)
  | block (kind : Block) (p : Pipeline) (body otherwise : List Node)

structure Parser where
  tokens : List Token
  declared : List String

namespace Parser

def skipSpace (s : Parser) : Parser :=
  match s.tokens with
  | .space :: rest => { s with tokens := rest }
  | _ => s

def skip (s : Parser) : Parser := { s with tokens := s.tokens.drop 1 }

def fieldRun : Nat → Parser → List String × Parser
  | 0, s => ([], s)
  | fuel + 1, s =>
    match s.tokens with
    | .field f :: _ =>
      let (fs, s) := fieldRun fuel s.skip
      (f :: fs, s)
    | _ => ([], s)

def withFields (o : Operand) (s : Parser) : Option (Operand × Parser) :=
  -- Fields that follow an operand directly.
  let (fs, s) := fieldRun s.tokens.length s
  if fs.isEmpty then some (o, s)
  else
    match o with
    | .field names => some (.field (names ++ fs), s)
    | .variable x names => some (.variable x (names ++ fs), s)
    | .dot | .nil | .bool _ | .number _ | .text _ => none
    | o => some (.chain o fs, s)

def declaration (range : Bool) (s : Parser) : Option (List String × Bool × Parser) :=
  let s := s.skipSpace
  match s.tokens with
  | .variable x :: _ =>
    let after := s.skip.skipSpace
    match after.tokens with
    | .assign :: _ => some ([x], true, { after.skip with declared := x :: s.declared })
    | .declare :: _ => some ([x], false, { after.skip with declared := x :: s.declared })
    | .comma :: _ =>
      if range then
        let second := after.skip.skipSpace
        match second.tokens with
        | .variable y :: _ =>
          let s' := second.skip.skipSpace
          match s'.tokens with
          | .assign :: _ => some ([x, y], true, { s'.skip with declared := y :: x :: s.declared })
          | .declare :: _ => some ([x, y], false, { s'.skip with declared := y :: x :: s.declared })
          | _ => none
        | _ => none
      else none
    | _ => some ([], false, s)
  | _ => some ([], false, s)

def isExecutable : List Operand → Bool
  -- Only the first command may be a plain value.
  | .dot :: _ | .nil :: _ | .bool _ :: _ | .number _ :: _ | .text _ :: _ => false
  | _ => true

def isClose (paren : Bool) : Token → Bool
  | .closeParen => paren
  | .actionEnd => !paren
  | _ => false

def startsOperand : Token → Bool
  | .bool _ | .dot | .field _ | .word _ | .number _ | .nil | .string _ | .variable _
  | .openParen => true
  | _ => false

mutual

def pipeline (known : String → Bool) (range paren : Bool) :
    Nat → Parser → Option (Pipeline × Parser)
  | 0, _ => none
  | fuel + 1, s => do
    let (declared, assign, s) ← declaration range s
    let (cmds, s) ← commands known paren fuel s
    if cmds.isEmpty || !(cmds.drop 1).all isExecutable then none
    some (⟨declared, assign, cmds⟩, s)

def commands (known : String → Bool) (paren : Bool) :
    Nat → Parser → Option (List (List Operand) × Parser)
  | 0, _ => none
  | fuel + 1, s =>
    let s := s.skipSpace
    match s.tokens with
    | [] => none
    | t :: _ =>
      if isClose paren t then some ([], s.skip)
      else if startsOperand t then do
        let (args, s) ← operands known fuel s
        let (rest, s) ← commands known paren fuel s
        some (args :: rest, s)
      else none

def operands (known : String → Bool) : Nat → Parser → Option (List Operand × Parser)
  -- The operands of one command; the bar after them is consumed.
  | 0, _ => none
  | fuel + 1, s => do
    let s := s.skipSpace
    let (first, s) ← operand known fuel s
    match s.tokens with
    | .space :: _ => do
      let (rest, s) ← operands known fuel s
      some (first.toList ++ rest, s)
    | .pipe :: _ => some (first.toList, s.skip)
    | .actionEnd :: _ | .closeParen :: _ => some (first.toList, s)
    | _ => none

def operand (known : String → Bool) : Nat → Parser → Option (Option Operand × Parser)
  | 0, _ => none
  | fuel + 1, s =>
    let plain (o : Operand) : Option (Option Operand × Parser) :=
      (withFields o s.skip).map fun (o, s) => (some o, s)
    match s.tokens with
    | .word w :: _ => if known w then plain (.function w) else none
    | .dot :: _ => plain .dot
    | .nil :: _ => plain .nil
    | .variable x :: _ => if s.declared.contains x then plain (.variable x []) else none
    | .field f :: _ => plain (.field [f])
    | .bool b :: _ => plain (.bool b)
    | .number n :: _ => plain (.number n)
    | .string t :: _ => plain (.text t)
    | .openParen :: _ => do
      let (p, s) ← pipeline known false true fuel s.skip
      let (o, s) ← withFields (.pipeline p.declared p.assign p.commands) s
      some (some o, s)
    | _ => some (none, s)

end

inductive Stop where
  | finished
  | ended
  | otherwise

mutual

def nodes (known : String → Bool) : Nat → Parser → Option (List Node × Stop × Parser)
  | 0, _ => none
  | fuel + 1, s =>
    match s.tokens with
    | [] => some ([], .finished, s)
    | .text t :: _ => do
      let (rest, stop, s) ← nodes known fuel s.skip
      some (.text t :: rest, stop, s)
    | .actionStart :: _ =>
      let inside := s.skip.skipSpace
      match inside.tokens with
      | .keyword .endWord :: _ =>
        let s := inside.skip.skipSpace
        match s.tokens with
        | .actionEnd :: _ => some ([], .ended, s.skip)
        | _ => none
      | .keyword .elseWord :: _ => some ([], .otherwise, inside.skip.skipSpace)
      | .keyword .ifWord :: _ => blockThen known .conditional fuel inside.skip
      | .keyword .rangeWord :: _ => blockThen known .iteration fuel inside.skip
      | .keyword .withWord :: _ => blockThen known .scope fuel inside.skip
      | .keyword .other :: _ => none
      | _ => do
        let (p, s) ← pipeline known false false fuel s.skip
        let (rest, stop, s) ← nodes known fuel s
        some (.action p :: rest, stop, s)
    | _ => none

def blockThen (known : String → Bool) (kind : Block) :
    Nat → Parser → Option (List Node × Stop × Parser)
  | 0, _ => none
  | fuel + 1, s => do
    let (n, s') ← block known kind fuel s
    let (rest, stop, s'') ← nodes known fuel { s' with declared := s.declared }
    some (n :: rest, stop, s'')

def block (known : String → Bool) (kind : Block) : Nat → Parser → Option (Node × Parser)
  | 0, _ => none
  | fuel + 1, s => do
    let (p, s) ← pipeline known (kind = .iteration) false fuel s
    let (body, stop, s) ← nodes known fuel s
    match stop with
    | .finished => none
    | .ended => some (.block kind p body [], s)
    | .otherwise =>
      match s.tokens with
      | .keyword .ifWord :: _ =>
        if kind = .conditional then do
          let (n, s) ← block known .conditional fuel s.skip
          some (.block kind p body [n], s)
        else none
      | .keyword .withWord :: _ =>
        if kind = .scope then do
          let (n, s) ← block known .scope fuel s.skip
          some (.block kind p body [n], s)
        else none
      | .actionEnd :: _ => do
        let (other, stop, s) ← nodes known fuel s.skip
        match stop with
        | .ended => some (.block kind p body other, s)
        | _ => none
      | _ => none

end

end Parser

def parseNodes? (known : String → Bool) (ps : List Text.Piece) : Option (List Node) := do
  let ts ← tokens? ps
  match ← Parser.nodes known (4 * ts.length + 8) ⟨ts, ["$"]⟩ with
  | (ns, .finished, _) => some ns
  | _ => none

end Flowsheet.Template
