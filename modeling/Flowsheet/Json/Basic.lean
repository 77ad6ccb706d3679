import Flowsheet.Decimal.Layout
import Flowsheet.Text.Quoted

set_option autoImplicit false

namespace Flowsheet

inductive Json where
  | null
  | bool (b : Bool)
  | number (text : String)
  | string (s : String)
  | array (items : List Json)
  | object (members : List (String × Json))
deriving Repr, Inhabited

namespace Json

def ofNat (n : Nat) : Json := .number n.repr

def ofInt (n : Int) : Json := .number (toString n)

def ofFloat (x : Float) : Json := .number (Decimal.Layout.json.text x)

def ofStrings (xs : List String) : Json := .array (xs.map .string)

def isMarkup (c : Char) : Bool := c = '<' || c = '>' || c = '&'

def stringChar (escapeMarkup : Bool) (c : Char) : List Char :=
  -- A character inside a JSON string. Line and paragraph separators are always escaped, markup
  -- characters on demand.
  let n := c.toNat
  if c = '"' then ['\\', '"']
  else if c = '\\' then ['\\', '\\']
  else if n = 8 then ['\\', 'b']
  else if n = 12 then ['\\', 'f']
  else if n = 10 then ['\\', 'n']
  else if n = 13 then ['\\', 'r']
  else if n = 9 then ['\\', 't']
  else if n < 0x20 || n = 0x2028 || n = 0x2029 || (escapeMarkup && isMarkup c) then
    '\\' :: 'u' :: Text.hex 4 n
  else [c]

def quote (escapeMarkup : Bool) (s : String) : String :=
  String.ofList ('"' :: s.toList.flatMap (stringChar escapeMarkup) ++ ['"'])

def render : Json → String
  | .null => "null"
  | .bool true => "true"
  | .bool false => "false"
  | .number t => t
  | .string s => quote true s
  | .array items => "[" ++ renderItems items ++ "]"
  | .object members => "\x7b" ++ renderMembers members ++ "\x7d"
where
  renderItems : List Json → String
    | [] => ""
    | [v] => v.render
    | v :: rest => v.render ++ "," ++ renderItems rest
  renderMembers : List (String × Json) → String
    | [] => ""
    | [(k, v)] => quote true k ++ ":" ++ v.render
    | (k, v) :: rest => quote true k ++ ":" ++ v.render ++ "," ++ renderMembers rest

def get? : Json → String → Option Json
  | .object members, k => members.lookup k
  | _, _ => none

end Json

end Flowsheet
