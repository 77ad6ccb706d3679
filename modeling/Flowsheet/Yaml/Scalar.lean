import Flowsheet.Yaml.Token
import Flowsheet.Json.Parser

set_option autoImplicit false

namespace Flowsheet.Yaml

structure Gap where
  spaces : List Char := []
  lineBreak : List Char := []
  more : List Char := []
  broken : Bool := false

def Gap.folded (g : Gap) : List Char :=
  if g.broken then
    if g.lineBreak = ['\n'] then if g.more.isEmpty then [' '] else g.more
    else g.more ++ g.lineBreak.reverse
  else g.spaces

def Gap.isEmpty (g : Gap) : Bool := !g.broken && g.spaces.isEmpty

def readGap (least : Int) : Nat → Cursor → Gap → Option (Gap × Cursor)
  -- Passes blanks and line breaks. A tab may not stand left of `least` on a new line.
  | 0, c, g => some (g, c)
  | fuel + 1, c, g =>
    match c.peek with
    | none => some (g, c)
    | some x =>
      if isBlank x then
        if g.broken then
          if x = '\t' && (c.column : Int) < least then none else readGap least fuel c.skip g
        else readGap least fuel c.skip { g with spaces := x :: g.spaces }
      else if isBreak x then
        let (b, c') := c.readLine
        if g.broken then readGap least fuel c' { g with more := b ++ g.more }
        else readGap least fuel c' { g with spaces := [], lineBreak := b, broken := true }
      else some (g, c)

def endsPlain (inFlow : Bool) (c : Cursor) (x : Char) : Bool :=
  (x = ':' && isBlankOrEnd (c.peekAt 1)) ||
    (inFlow && (x = ',' || x = '?' || x = '[' || x = ']' || x = '\x7b' || x = '\x7d'))

-- The rest of a plain scalar, with the text so far newest first. The last component says that the scalar
-- ended on a later line.
def plainScalar (inFlow : Bool) (least : Int) :
    Nat → Cursor → List Char → Gap → Option (List Char × Cursor × Bool)
  | 0, c, done, g => some (done, c, g.broken)
  | fuel + 1, c, done, g =>
    match c.peek with
    | none => some (done, c, g.broken)
    | some x =>
      if isBlank x || isBreak x then
        match readGap least fuel c g with
        | none => none
        | some (g', c') =>
          if (!inFlow && (c'.column : Int) < least) || c'.atDocumentMark || c'.peek = some '#' then
            some (done, c', g'.broken)
          else plainScalar inFlow least fuel c' done g'
      else if endsPlain inFlow c x then some (done, c, g.broken)
      else plainScalar inFlow least fuel c.skip (x :: g.folded ++ done) {}

def escape? : Char → Option Char
  | '0' => some (Char.ofNat 0)
  | 'a' => some (Char.ofNat 7)
  | 'b' => some (Char.ofNat 8)
  | 't' | '\t' => some '\t'
  | 'n' => some '\n'
  | 'v' => some (Char.ofNat 11)
  | 'f' => some (Char.ofNat 12)
  | 'r' => some '\r'
  | 'e' => some (Char.ofNat 27)
  | ' ' => some ' '
  | '"' => some '"'
  | '\'' => some '\''
  | '\\' => some '\\'
  | 'N' => some (Char.ofNat 0x85)
  | '_' => some (Char.ofNat 0xA0)
  | 'L' => some (Char.ofNat 0x2028)
  | 'P' => some (Char.ofNat 0x2029)
  | _ => none

def codeLength : Char → Nat
  | 'x' => 2
  | 'u' => 4
  | 'U' => 8
  | _ => 0

def codeChar? (digits : List Char) (length : Nat) : Option Char := do
  let values ← digits.mapM Json.hexValue?
  if values.length ≠ length then none
  else
    let n := values.foldl (fun n d => n * 16 + d) 0
    if (0xD800 ≤ n && n ≤ 0xDFFF) || 0x10FFFF < n then none else some (Char.ofNat n)

def quotedScalar (single : Bool) : Nat → Cursor → List Char → Option (List Char × Cursor)
  | 0, _, _ => none
  | fuel + 1, c, done =>
    match c.peek with
    | none => none
    | some x =>
      if c.atDocumentMark then none
      else if isBlank x || isBreak x then
        match readGap 0 fuel c {} with
        | none => none
        | some (g, c') => quotedScalar single fuel c' (g.folded ++ done)
      else if single then
        if x = '\'' then
          if c.peekAt 1 = some '\'' then quotedScalar single fuel (c.skip 2) ('\'' :: done)
          else some (done, c.skip)
        else quotedScalar single fuel c.skip (x :: done)
      else if x = '"' then some (done, c.skip)
      else if x = '\\' then
        match c.peekAt 1 with
        | none => none
        | some e =>
          if isBreak e then
            -- An escaped line break leaves nothing but further empty lines.
            match readGap 0 fuel c.skip.skipLine { broken := true } with
            | none => none
            | some (g, c') => quotedScalar single fuel c' (g.more ++ done)
          else if codeLength e = 0 then
            match escape? e with
            | none => none
            | some y => quotedScalar single fuel (c.skip 2) (y :: done)
          else
            match codeChar? ((c.rest.drop 2).take (codeLength e)) (codeLength e) with
            | none => none
            | some y => quotedScalar single fuel (c.skip (2 + codeLength e)) (y :: done)
      else quotedScalar single fuel c.skip (x :: done)

inductive Chomping where
  | strip
  | clip
  | keep
deriving DecidableEq, Repr

-- Passes indentation and empty lines in front of a line of a block. Indentation 0 stands for one still to be
-- found. Returns the breaks, newest first, and the widest indentation met.
def blockBreaks (indent : Nat) : Nat → Cursor → List Char → Nat →
    Option (List Char × Nat × Cursor)
  | 0, c, breaks, widest => some (breaks, widest, c)
  | fuel + 1, c, breaks, widest =>
    let room := indent - c.column
    let spaces := c.rest.takeWhile (· = ' ')
    let c := c.skip (if indent = 0 then spaces.length else min room spaces.length)
    let widest := max widest c.column
    if (indent = 0 || c.column < indent) && c.peek = some '\t' then none
    else
      match c.peek with
      | some x =>
        if isBreak x then
          let (b, c') := c.readLine
          blockBreaks indent fuel c' (b ++ breaks) widest
        else some (breaks, widest, c)
      | none => some (breaks, widest, c)

structure BlockText where
  text : List Char := []
  lineBreak : List Char := []
  breaks : List Char := []
  leadingBlank : Bool := false

def blockLines (literal : Bool) (indent : Nat) :
    Nat → Cursor → BlockText → Option (BlockText × Cursor)
  | 0, c, b => some (b, c)
  | fuel + 1, c, b =>
    match c.peek with
    | none => some (b, c)
    | some x =>
      if c.column ≠ indent then some (b, c)
      else
        let blank := isBlank x
        let joint :=
          if !literal && b.lineBreak = ['\n'] && !b.leadingBlank && !blank then
            if b.breaks.isEmpty then [' '] else []
          else b.lineBreak.reverse
        let line := c.rest.takeWhile fun y => !isBreak y
        let text := line.reverse ++ (b.breaks ++ (joint ++ b.text))
        let (lineBreak, c') := (c.skip line.length).readLine
        match blockBreaks indent (c'.rest.length + 1) c' [] 0 with
        | none => none
        | some (breaks, _, c'') => blockLines literal indent fuel c'' ⟨text, lineBreak, breaks, blank⟩

def chomping? : Option Char → Option Chomping
  | some '+' => some .keep
  | some '-' => some .strip
  | _ => none

def blockHeader (c : Cursor) : Option (Chomping × Nat × Cursor) :=
  -- The indicators after the mark of a block: chomping and indentation in either order.
  let digit (c : Cursor) : Option (Nat × Cursor) :=
    match c.peek with
    | some d => if d.isDigit then some (d.toNat - 48, c.skip) else none
    | none => none
  match chomping? c.peek with
  | some ch =>
    match digit c.skip with
    | some (0, _) => none
    | some (n, c') => some (ch, n, c')
    | none => some (ch, 0, c.skip)
  | none =>
    match digit c with
    | some (0, _) => none
    | some (n, c') =>
      match chomping? c'.peek with
      | some ch => some (ch, n, c'.skip)
      | none => some (.clip, n, c')
    | none => some (.clip, 0, c)

def blockScalar (literal : Bool) (parent : Int) (c : Cursor) : Option (List Char × Cursor) := do
  let (chomping, increment, c) ← blockHeader c
  let c := c.skipWhile isBlank
  let c := if c.peek = some '#' then c.skipWhile (fun x => !isBreak x) else c
  if !isBreakOrEnd c.peek then none
  let c := c.skipLine
  let declared := if increment = 0 then 0 else (max parent 0).toNat + increment
  let (breaks, widest, c) ← blockBreaks declared (c.rest.length + 1) c [] 0
  let indent := if declared = 0 then max (max widest (parent + 1).toNat) 1 else declared
  let (b, c) ← blockLines literal indent (c.rest.length + 1) c { breaks := breaks }
  let text := b.text
  let text := if chomping = .strip then text else b.lineBreak.reverse ++ text
  let text := if chomping = .keep then b.breaks ++ text else text
  some (text, c)

end Flowsheet.Yaml
