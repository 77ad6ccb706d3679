import Flowsheet.Json.Parser
import Flowsheet.Text.Utf8

set_option autoImplicit false

namespace Flowsheet

structure Url where
  scheme : String := ""
  opaquePart : String := ""
  user : List UInt8 := []
  password : List UInt8 := []
  host : List UInt8 := []
  path : List UInt8 := []
  query : String := ""

namespace Url

inductive Part where
  | path
  | userinfo
  | host
  | zone
  | query
  | fragment
deriving DecidableEq, Repr

def hostMarks : List Char := "!$&'()*+,;=:[]<>\"-_.~".toList

def isHostChar (c : Char) : Bool := c.isAlphanum || hostMarks.contains c || 0x80 ≤ c.toNat

def mayEscape (part : Part) (b : Nat) : Bool :=
  -- Whether an escaped byte may stand in a part. In a host only bytes beyond ASCII are escaped,
  -- and the percent sign; in a zone also blanks and what a host may have.
  match part with
  | .host => b = 0x25 || 0x80 ≤ b
  | .zone => b = 0x25 || b = 0x20 || (b < 0x80 && isHostChar (Char.ofNat b))
  | _ => true

def unescape? (part : Part) : List Char → Option (List UInt8)
  | [] => some []
  | '%' :: a :: b :: rest => do
    let n := (← Json.hexValue? a) * 16 + (← Json.hexValue? b)
    if mayEscape part n then return UInt8.ofNat n :: (← unescape? part rest) else none
  | c :: rest => do
    if c = '%' then none
    else if (part = .host || part = .zone) && !isHostChar c then none
    else
      let c := if c = '+' && part = .query then ' ' else c
      return Text.bytes c.toString ++ (← unescape? part rest)

def cut (c : Char) (cs : List Char) : List Char × Option (List Char) :=
  match cs.dropWhile (· ≠ c) with
  | [] => (cs, none)
  | _ :: rest => (cs.takeWhile (· ≠ c), some rest)

def cutLast (c : Char) (cs : List Char) : Option (List Char × List Char) :=
  match cut c cs.reverse with
  | (_, none) => none
  | (after, some before) => some (before.reverse, after.reverse)

def scheme? (cs : List Char) : Option (List Char × List Char) :=
  -- The scheme before the first colon, if there is a sound one. A colon at the start is an error.
  match cut ':' cs with
  | ([], some _) => none
  | (s, some rest) =>
    let isFirst := s.head?.any Char.isAlpha
    if isFirst && s.all fun c => c.isAlphanum || ['+', '-', '.'].contains c then some (s, rest)
    else some ([], cs)
  | (_, none) => some ([], cs)

def isPort : List Char → Bool
  | [] => true
  | c :: ds => c = ':' && ds.all Char.isDigit

def host? (cs : List Char) : Option (List UInt8) :=
  match cs with
  | '[' :: _ => do
    let (inside, port) ← cutLast ']' cs
    if !isPort port then none
    else
      match splitZone inside with
      | some (address, zone) =>
        return (← unescape? .host address) ++ (← unescape? .zone zone) ++
          (← unescape? .host (']' :: port))
      | none => unescape? .host cs
  | _ =>
    match cutLast ':' cs with
    | some (_, port) => if isPort (':' :: port) then unescape? .host cs else none
    | none => unescape? .host cs
where
  splitZone : List Char → Option (List Char × List Char)
    | [] => none
    | c :: rest =>
      if "%25".toList.isPrefixOf (c :: rest) then some ([], c :: rest)
      else (splitZone rest).map fun (a, z) => (c :: a, z)

def isUserChar (c : Char) : Bool := c.isAlphanum || "-._:~!$&'()*+,;=%@".toList.contains c

def authority? (cs : List Char) : Option (List UInt8 × List UInt8 × List UInt8) :=
  match cutLast '@' cs with
  | none => do return ([], [], ← host? cs)
  | some (info, host) => do
    let host ← host? host
    if !info.all isUserChar then none
    else
      let (user, password) := cut ':' info
      return (← unescape? .userinfo user, ← unescape? .userinfo (password.getD []), host)

def isControl (c : Char) : Bool := c.toNat < 0x20 || c.toNat = 0x7f

def parse? (s : String) : Option Url := do
  let (whole, fragment) := cut '#' s.toList
  if whole.any isControl then none
  if (unescape? .fragment (fragment.getD [])).isNone then none
  if whole = ['*'] then return { path := Text.bytes "*" }
  let (scheme, rest) ← scheme? whole
  let name := String.ofList (scheme.map Char.toLower)
  let (rest, query) := cut '?' rest
  let url : Url := { scheme := name, query := String.ofList (query.getD []) }
  match rest with
  | '/' :: '/' :: after =>
    if scheme.isEmpty && after.head? = some '/' then
      return { url with path := ← unescape? .path rest }
    else
      let (user, password, host) ← authority? (after.takeWhile (· ≠ '/'))
      let path ← unescape? .path (after.dropWhile (· ≠ '/'))
      return { url with user, password, host, path }
  | '/' :: _ => return { url with path := ← unescape? .path rest }
  | _ =>
    if !scheme.isEmpty then return { url with opaquePart := String.ofList rest }
    else if (rest.takeWhile (· ≠ '/')).contains ':' then none
    else return { url with path := ← unescape? .path rest }

def pairs (query : String) : List (List UInt8 × List UInt8) :=
  (query.splitOn "&").filterMap fun item =>
    if item = "" || item.contains ';' then none
    else
      let (k, v) := cut '=' item.toList
      match unescape? .query k, unescape? .query (v.getD []) with
      | some k, some v => some (k, v)
      | _, _ => none

end Url

end Flowsheet
