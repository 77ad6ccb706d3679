import Flowsheet.Json.Parser
import Flowsheet.Text.Case
import Flowsheet.Word

set_option autoImplicit false

namespace Flowsheet.Json

def foldChar (c : Char) : Char :=
  -- Letters that differ only in case are one, in names of members.
  if c.toNat = 0x17F then 's' else if c.toNat = 0x212A then 'k' else Text.lowerChar c

def foldName (s : String) : String := s.map foldChar

def record? {σ : Type} (field : String → Option (Json → Option (σ → σ))) (start : σ) :
    Json → Option σ
  -- Reads an object, whose strings are as spelled, into a record: members are matched by name
  -- whatever their case, unknown ones and nulls change nothing, the last of several wins. A null
  -- reads as the record itself.
  | .null => some start
  | .object members =>
    members.foldlM (fun s (k, v) =>
      match field (foldName (unescaped k)), v with
      | none, _ | _, .null => some s
      | some read, v => (read v).map (· s)) start
  | _ => none

def string? {σ : Type} (set : String → σ → σ) : Json → Option (σ → σ)
  | .string s => some (set (unescaped s))
  | _ => none

def int? {σ : Type} (set : Int → σ → σ) : Json → Option (σ → σ)
  | .number t =>
    let (negative, ds) := match t.toList with
      | '-' :: r => (true, r)
      | r => (false, r)
    if ds.all Char.isDigit then
      let n : Nat := ds.foldl (fun n c => n * 10 + (c.toNat - 48)) 0
      if n < Word.half || (negative && n = Word.half) then
        some (set (if negative then -(n : Int) else n))
      else none
    else none
  | _ => none

end Flowsheet.Json
