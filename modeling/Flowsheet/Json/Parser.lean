import Flowsheet.Json.Basic

set_option autoImplicit false

namespace Flowsheet.Json

def isSpace (c : Char) : Bool := c = ' ' || c = '\t' || c = '\n' || c = '\r'

def skipSpace (cs : List Char) : List Char := cs.dropWhile isSpace

def hexValue? (c : Char) : Option Nat :=
  if '0' ≤ c ∧ c ≤ '9' then some (c.toNat - 48)
  else if 'a' ≤ c ∧ c ≤ 'f' then some (c.toNat - 87)
  else if 'A' ≤ c ∧ c ≤ 'F' then some (c.toNat - 55)
  else none

def hex4? : List Char → Option (Nat × List Char)
  | a :: b :: c :: d :: rest => do
    let a ← hexValue? a
    let b ← hexValue? b
    let c ← hexValue? c
    let d ← hexValue? d
    some (a * 0x1000 + b * 0x100 + c * 0x10 + d, rest)
  | _ => none

def replacement : Char := Char.ofNat 0xFFFD

def unitChar (n : Nat) (rest : List Char) : Char × List Char :=
  -- The character that a code unit spells, together with a low surrogate that may follow it. A
  -- surrogate without its partner is replaced.
  if 0xD800 ≤ n && n < 0xDC00 then
    match rest with
    | '\\' :: 'u' :: rest' =>
      match hex4? rest' with
      | some (m, rest'') =>
        if 0xDC00 ≤ m && m < 0xE000 then
          (Char.ofNat (0x10000 + (n - 0xD800) * 0x400 + (m - 0xDC00)), rest'')
        else (replacement, rest)
      | none => (replacement, rest)
    | _ => (replacement, rest)
  else if 0xDC00 ≤ n && n < 0xE000 then (replacement, rest)
  else (Char.ofNat n, rest)

def shortEscape? : Char → Option Char
  | '"' => some '"'
  | '\\' => some '\\'
  | '/' => some '/'
  | 'b' => some (Char.ofNat 8)
  | 'f' => some (Char.ofNat 12)
  | 'n' => some '\n'
  | 'r' => some '\r'
  | 't' => some '\t'
  | _ => none

def stringRest (spelled : Bool) : Nat → List Char → List Char → Option (String × List Char)
  | 0, _, _ => none
  | fuel + 1, done, cs =>
    match cs with
    | [] => none
    | '"' :: rest => some (String.ofList done.reverse, rest)
    | '\\' :: 'u' :: ds => do
      let (n, rest) ← hex4? ds
      if spelled then stringRest spelled fuel ((ds.take 4).reverse ++ 'u' :: '\\' :: done) rest
      else
        let (c, rest) := unitChar n rest
        stringRest spelled fuel (c :: done) rest
    | '\\' :: c :: rest => do
      let d ← shortEscape? c
      stringRest spelled fuel (if spelled then c :: '\\' :: done else d :: done) rest
    | c :: rest => if c.toNat < 0x20 then none else stringRest spelled fuel (c :: done) rest

def unescaped (s : String) : String :=
  ((stringRest false (s.length + 1) [] (s.toList ++ ['"'])).map (·.1)).getD s

def whole? : List Char → Option (List Char × List Char)
  -- The digits in front of a point: no zero leads others.
  | '0' :: rest => some (['0'], rest)
  | c :: rest => if c.isDigit then some ((c :: rest).span Char.isDigit) else none
  | [] => none

def fraction? : List Char → Option (List Char × List Char)
  | '.' :: rest =>
    let (ds, rest') := rest.span Char.isDigit
    if ds.isEmpty then none else some ('.' :: ds, rest')
  | cs => some ([], cs)

def exponent? : List Char → Option (List Char × List Char)
  | [] => some ([], [])
  | e :: rest =>
    if e = 'e' || e = 'E' then
      let (s, rest) := match rest with
        | '+' :: r => (['+'], r)
        | '-' :: r => (['-'], r)
        | r => ([], r)
      let (ds, rest') := rest.span Char.isDigit
      if ds.isEmpty then none else some (e :: s ++ ds, rest')
    else some ([], e :: rest)

def splitMinus : List Char → List Char × List Char
  | '-' :: rest => (['-'], rest)
  | cs => ([], cs)

def number? (cs : List Char) : Option (String × List Char) := do
  let (sign, cs) := splitMinus cs
  let (whole, cs) ← whole? cs
  let (fraction, cs) ← fraction? cs
  let (exponent, cs) ← exponent? cs
  some (String.ofList (sign ++ whole ++ fraction ++ exponent), cs)

-- Lists and objects may stand in each other only so deep.

mutual

def value? (spelled : Bool) : Nat → Nat → List Char → Option (Json × List Char)
  | 0, _, _ => none
  | fuel + 1, depth, cs =>
    match skipSpace cs with
    | 'n' :: 'u' :: 'l' :: 'l' :: rest => some (.null, rest)
    | 't' :: 'r' :: 'u' :: 'e' :: rest => some (.bool true, rest)
    | 'f' :: 'a' :: 'l' :: 's' :: 'e' :: rest => some (.bool false, rest)
    | '"' :: rest => (stringRest spelled (rest.length + 1) [] rest).map fun (s, r) => (.string s, r)
    | '[' :: rest =>
      if depth = 0 then none
      else
        match skipSpace rest with
        | ']' :: rest' => some (.array [], rest')
        | rest' => (items? spelled fuel (depth - 1) [] rest').map fun (xs, r) => (.array xs, r)
    | '\x7b' :: rest =>
      if depth = 0 then none
      else
        match skipSpace rest with
        | '\x7d' :: rest' => some (.object [], rest')
        | rest' => (members? spelled fuel (depth - 1) [] rest').map fun (xs, r) => (.object xs, r)
    | cs => (number? cs).map fun (t, r) => (.number t, r)

def items? (spelled : Bool) : Nat → Nat → List Json → List Char → Option (List Json × List Char)
  | 0, _, _, _ => none
  | fuel + 1, depth, done, cs => do
    let (v, rest) ← value? spelled fuel depth cs
    match skipSpace rest with
    | ',' :: rest' => items? spelled fuel depth (v :: done) rest'
    | ']' :: rest' => some ((v :: done).reverse, rest')
    | _ => none

def members? (spelled : Bool) : Nat → Nat → List (String × Json) → List Char →
    Option (List (String × Json) × List Char)
  | 0, _, _, _ => none
  | fuel + 1, depth, done, cs =>
    match skipSpace cs with
    | '"' :: rest => do
      let (k, rest) ← stringRest spelled (rest.length + 1) [] rest
      match skipSpace rest with
      | ':' :: rest => do
        let (v, rest) ← value? spelled fuel depth rest
        match skipSpace rest with
        | ',' :: rest' => members? spelled fuel depth ((k, v) :: done) rest'
        | '\x7d' :: rest' => some (((k, v) :: done).reverse, rest')
        | _ => none
      | _ => none
    | _ => none

end

def deepest : Nat := 10000

def parseAs? (spelled : Bool) (text : String) : Option Json :=
  let cs := text.toList
  match value? spelled (2 * cs.length + 2) deepest cs with
  | some (v, rest) => if (skipSpace rest).isEmpty then some v else none
  | none => none

def parse? : String → Option Json := parseAs? false

def spelled? : String → Option Json := parseAs? true

end Flowsheet.Json
