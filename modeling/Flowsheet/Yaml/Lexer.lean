import Flowsheet.Yaml.Scalar

set_option autoImplicit false

namespace Flowsheet.Yaml

structure KeyStart where
  required : Bool
  token : Nat
  index : Nat
  line : Nat
  column : Nat

structure Lexer where
  at' : Cursor
  tokens : List Token := []
  count : Nat := 0
  indent : Int := -1
  indents : List Int := []
  keys : List (Option KeyStart) := [none]
  keyAllowed : Bool := true

namespace Lexer

def depth (s : Lexer) : Nat := s.keys.length - 1

def inFlow (s : Lexer) : Bool := 0 < s.depth

def push (s : Lexer) (t : Token) : Lexer :=
  { s with tokens := t :: s.tokens, count := s.count + 1 }

def insert (s : Lexer) (number : Nat) (t : Token) : Lexer :=
  let later := s.count - number
  { s with
    tokens := s.tokens.take later ++ t :: s.tokens.drop later
    count := s.count + 1 }

def openBlock (s : Lexer) (column : Nat) (number : Nat) (t : Token) : Lexer :=
  if !s.inFlow && s.indent < column then
    { s with indents := s.indent :: s.indents, indent := column }.insert number t
  else s

def closeBlocks (column : Int) : Nat → Lexer → Lexer
  | 0, s => s
  | fuel + 1, s =>
    if s.indent ≤ column then s
    else
      match s.indents with
      | [] => s
      | i :: is => closeBlocks column fuel ({ s with indent := i, indents := is }.push .blockEnd)

def unroll (s : Lexer) (column : Int) : Lexer :=
  if s.inFlow then s else closeBlocks column (s.indents.length + 1) s

def dropKey (s : Lexer) : Option Lexer :=
  -- Gives up the possible key of the current level; a required one must have had its colon.
  match s.keys with
  | some k :: ks => if k.required then none else some { s with keys := none :: ks }
  | _ => some s

def saveKey (s : Lexer) : Option Lexer :=
  if s.keyAllowed then do
    let required := !s.inFlow && s.indent = s.at'.column
    let s ← s.dropKey
    let k : KeyStart := ⟨required, s.count, s.at'.index, s.at'.line, s.at'.column⟩
    some { s with keys := some k :: s.keys.drop 1 }
  else some s

-- The possible key of the current level, if its colon may still come: on the same line and not too far away.
def currentKey (s : Lexer) : Option (Option KeyStart) :=
  match s.keys with
  | some k :: _ =>
    if k.line < s.at'.line || k.index + 1024 < s.at'.index then
      if k.required then none else some none
    else some (some k)
  | _ => some none

def skipToToken : Nat → Lexer → Lexer
  | 0, s => s
  | fuel + 1, s =>
    let tabs := s.inFlow || !s.keyAllowed
    let c := s.at'.skipWhile fun x => x = ' ' || (tabs && x = '\t')
    let c := if c.peek = some '#' then c.skipWhile fun x => !isBreak x else c
    match c.peek with
    | some x =>
      if isBreak x then
        skipToToken fuel { s with at' := c.skipLine, keyAllowed := s.keyAllowed || !s.inFlow }
      else { s with at' := c }
    | none => { s with at' := c }

def openFlow (s : Lexer) (t : Token) : Option Lexer := do
  let s ← s.saveKey
  some ({ s with keys := none :: s.keys, keyAllowed := true, at' := s.at'.skip }.push t)

def closeFlow (s : Lexer) (t : Token) : Option Lexer := do
  let s ← s.dropKey
  let keys := if s.inFlow then s.keys.drop 1 else s.keys
  some ({ s with keys := keys, keyAllowed := false, at' := s.at'.skip }.push t)

def flowEntry (s : Lexer) : Option Lexer := do
  let s ← s.dropKey
  some ({ s with keyAllowed := true, at' := s.at'.skip }.push .flowEntry)

def blockEntry (s : Lexer) : Option Lexer := do
  if !s.inFlow && !s.keyAllowed then none
  let s := s.openBlock s.at'.column s.count .blockSequenceStart
  let s ← s.dropKey
  some ({ s with keyAllowed := true, at' := s.at'.skip }.push .blockEntry)

def explicitKey (s : Lexer) : Option Lexer := do
  if !s.inFlow && !s.keyAllowed then none
  let s := s.openBlock s.at'.column s.count .blockMappingStart
  let s ← s.dropKey
  some ({ s with keyAllowed := !s.inFlow, at' := s.at'.skip }.push .key)

def valueMark (s : Lexer) : Option Lexer := do
  match ← s.currentKey with
  | some k =>
    let s := s.insert k.token .key
    let s := s.openBlock k.column k.token .blockMappingStart
    some ({ s with
      keys := none :: s.keys.drop 1, keyAllowed := false, at' := s.at'.skip }.push .value)
  | none =>
    if !s.inFlow && !s.keyAllowed then none
    let s := s.openBlock s.at'.column s.count .blockMappingStart
    some ({ s with
      keys := none :: s.keys.drop 1, keyAllowed := !s.inFlow, at' := s.at'.skip }.push .value)

def endsAnchor (c : Option Char) : Bool :=
  isBlankOrEnd c || c.any fun x => "?:,]\x7d%@".toList.contains x || x.toNat = 96

def anchorOrAlias (s : Lexer) (make : String → Token) : Option Lexer := do
  let s ← s.saveKey
  let c := s.at'.skip
  let name := c.rest.takeWhile isWordChar
  let c := c.skip name.length
  if name.isEmpty || !endsAnchor c.peek then none
  some ({ s with at' := c, keyAllowed := false }.push (make (String.ofList name)))

def isUriChar (c : Char) : Bool :=
  isWordChar c || ";/?:@&=+$.!~*'()%,[]".toList.contains c

def uriText? (cs : List Char) : Option String :=
  let rec go : Nat → List Char → Option (List UInt8)
    | 0, _ => none
    | _, [] => some []
    | fuel + 1, '%' :: a :: b :: rest => do
      let a ← Json.hexValue? a
      let b ← Json.hexValue? b
      (go fuel rest).map (UInt8.ofNat (a * 16 + b) :: ·)
    | _, ['%'] => none
    | _, ['%', _] => none
    | fuel + 1, c :: rest => (go fuel rest).map (Text.bytes c.toString ++ ·)
  (go (cs.length + 1) cs).bind Text.ofBytes?

def tagToken (c : Cursor) : Option (Token × Cursor) := do
  if c.peekAt 1 = some '<' then
    let c := c.skip 2
    let uri := c.rest.takeWhile isUriChar
    let c := c.skip uri.length
    if uri.isEmpty || c.peek ≠ some '>' then none
    some (.tag "" (← uriText? uri), c.skip)
  else
    let word := (c.rest.drop 1).takeWhile isWordChar
    let c' := c.skip (1 + word.length)
    if c'.peek = some '!' then
      let c'' := c'.skip
      let uri := c''.rest.takeWhile isUriChar
      if uri.isEmpty then none
      some (.tag ("!" ++ String.ofList word ++ "!") (← uriText? uri), c''.skip uri.length)
    else
      let uri := c'.rest.takeWhile isUriChar
      let suffix := word ++ uri
      let c'' := c'.skip uri.length
      if suffix.isEmpty then some (.tag "" "!", c'')
      else some (.tag "!" (← uriText? suffix), c'')

def tagMark (s : Lexer) : Option Lexer := do
  let s ← s.saveKey
  let (t, c) ← tagToken s.at'
  if !isBlankOrEnd c.peek then none
  some ({ s with at' := c, keyAllowed := false }.push t)

def blockText (s : Lexer) (literal : Bool) : Option Lexer := do
  let s ← s.dropKey
  let (text, c) ← blockScalar literal s.indent s.at'.skip
  some ({ s with at' := c, keyAllowed := true }.push (.scalar (String.ofList text.reverse) false))

def quotedText (s : Lexer) (single : Bool) : Option Lexer := do
  let s ← s.saveKey
  let c := s.at'.skip
  let (text, c) ← quotedScalar single (2 * c.rest.length + 2) c []
  some ({ s with at' := c, keyAllowed := false }.push (.scalar (String.ofList text.reverse) false))

def plainText (s : Lexer) : Option Lexer := do
  let s ← s.saveKey
  let c := s.at'
  let (text, c, broken) ←
    plainScalar s.inFlow (s.indent + 1) (2 * c.rest.length + 2) c [] {}
  some ({ s with at' := c, keyAllowed := broken }.push (.scalar (String.ofList text.reverse) true))

def documentMark (s : Lexer) (t : Token) : Option Lexer := do
  let s ← (s.unroll (-1)).dropKey
  some ({ s with keyAllowed := false, at' := s.at'.skip 3 }.push t)

def number? (cs : List Char) : Option Nat :=
  if cs.isEmpty || 9 < cs.length then none
  else some (cs.foldl (fun n c => n * 10 + (c.toNat - 48)) 0)

def directiveToken (c : Cursor) : Option (Token × Cursor) := do
  let name := c.rest.takeWhile isWordChar
  let c := c.skip name.length
  if name.isEmpty || !isBlankOrEnd c.peek then none
  match String.ofList name with
  | "YAML" =>
    let c := c.skipWhile isBlank
    let major := c.rest.takeWhile Char.isDigit
    let c := c.skip major.length
    if c.peek ≠ some '.' then none
    let c := c.skip
    let minor := c.rest.takeWhile Char.isDigit
    some (.versionDirective (← number? major) (← number? minor), c.skip minor.length)
  | "TAG" =>
    let c := c.skipWhile isBlank
    if c.peek ≠ some '!' then none
    let word := (c.rest.drop 1).takeWhile isWordChar
    let c := c.skip (1 + word.length)
    let bare := word.isEmpty && c.peek ≠ some '!'
    if !bare && c.peek ≠ some '!' then none
    let c := if bare then c else c.skip
    match c.peek with
    | none => none
    | some x =>
      if !isBlank x then none
      let c := c.skipWhile isBlank
      let uri := c.rest.takeWhile isUriChar
      let c := c.skip uri.length
      if uri.isEmpty || !isBlankOrEnd c.peek then none
      let handle := if bare then "!" else "!" ++ String.ofList word ++ "!"
      some (.tagDirective handle (← uriText? uri), c)
  | _ => none

def directive (s : Lexer) : Option Lexer := do
  let s ← (s.unroll (-1)).dropKey
  let (t, c) ← directiveToken s.at'.skip
  let c := c.skipWhile isBlank
  let c := if c.peek = some '#' then c.skipWhile fun x => !isBreak x else c
  if !isBreakOrEnd c.peek then none
  some ({ s with keyAllowed := false, at' := c.skipLine }.push t)

def isIndicator (c : Char) : Bool :=
  "-?:,[]\x7b\x7d#&*!|>'\"%@".toList.contains c || c.toNat = 96

def startsPlain (s : Lexer) (x : Char) : Bool :=
  let next := s.at'.peekAt 1
  !(isBlank x || isBreak x || isIndicator x) ||
    (x = '-' && !next.any isBlank) ||
    (!s.inFlow && (x = '?' || x = ':') && !isBlankOrEnd next)

def step (s : Lexer) : Option Lexer := do
  -- Finds the next token; none if nothing at this place can be one.
  let s := skipToToken (s.at'.rest.length + 1) s
  let s := s.unroll s.at'.column
  let c := s.at'
  match c.peek with
  | none =>
    let s ← (s.unroll (-1)).dropKey
    some ({ s with keyAllowed := false }.push .streamEnd)
  | some x =>
    if c.column = 0 && x = '%' then s.directive
    else if c.atMark '-' then s.documentMark .documentStart
    else if c.atMark '.' then s.documentMark .documentEnd
    else if x = '[' then s.openFlow .flowSequenceStart
    else if x = '\x7b' then s.openFlow .flowMappingStart
    else if x = ']' then s.closeFlow .flowSequenceEnd
    else if x = '\x7d' then s.closeFlow .flowMappingEnd
    else if x = ',' then s.flowEntry
    else if x = '-' && isBlankOrEnd (c.peekAt 1) then s.blockEntry
    else if x = '?' && (s.inFlow || isBlankOrEnd (c.peekAt 1)) then s.explicitKey
    else if x = ':' && (s.inFlow || isBlankOrEnd (c.peekAt 1)) then s.valueMark
    else if x = '*' then s.anchorOrAlias .alias
    else if x = '&' then s.anchorOrAlias .anchor
    else if x = '!' then s.tagMark
    else if x = '|' && !s.inFlow then s.blockText true
    else if x = '>' && !s.inFlow then s.blockText false
    else if x = '\'' then s.quotedText true
    else if x = '"' then s.quotedText false
    else if s.startsPlain x then s.plainText
    else none

def run : Nat → Lexer → List Token × Bool
  | 0, s => (s.tokens, false)
  | fuel + 1, s =>
    match s.step with
    | none => (s.tokens, false)
    | some s' =>
      match s'.tokens with
      | .streamEnd :: _ => (s'.tokens, true)
      | _ => run fuel s'

end Lexer

-- The tokens of a text. Reading looks two tokens ahead, so the last two before a place that holds no token
-- are lost with it.
def tokens (cs : List Char) : List Token :=
  match Lexer.run (cs.length + 2) ⟨{ rest := cs }, [], 0, -1, [], [none], true⟩ with
  | (ts, true) => ts.reverse
  | (ts, false) => (ts.drop 2).reverse

end Flowsheet.Yaml
