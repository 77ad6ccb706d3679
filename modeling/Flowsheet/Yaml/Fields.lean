import Flowsheet.Yaml.Decoder
import Flowsheet.Word

set_option autoImplicit false

namespace Flowsheet.Yaml.Node

def mistyped {α : Type} : Decoder (Option α) := do
  Decoder.mistyped
  return none

def atom (n : Node) : Decoder (Option Atom) := do
  let n ← n.target
  match n with
  | .scalar .. =>
    match n.atom? with
    | none => Decoder.stop
    | some .null => return none
    | some a => return some a
  | _ => mistyped

def intToFloat (n : Int) : Float :=
  let x := (Decimal.toFloat? ⟨n.natAbs, 0⟩).getD 0
  if n < 0 then -x else x

def float? (n : Node) : Decoder (Option Float) := do
  match ← n.atom with
  | some (.int i) => return some (intToFloat i)
  | some (.float x) => return some x
  | some _ => mistyped
  | none => return none

def yesWords : List String := ["y", "Y", "yes", "Yes", "YES", "on", "On", "ON"]

def noWords : List String := ["n", "N", "no", "No", "NO", "off", "Off", "OFF"]

def bool? (n : Node) : Decoder (Option Bool) := do
  -- A truth value; here, and only here, `yes`, `on` and their like count too.
  match ← n.atom with
  | some (.bool b) => return some b
  | some (.text s) =>
    if yesWords.contains s then return some true
    else if noWords.contains s then return some false
    else mistyped
  | some _ => mistyped
  | none => return none

def truncated? (x : Float) : Option Int :=
  -- The integer of 64 bits that a number loses its fraction to. A number that is too low becomes
  -- the lowest integer.
  match Decimal.magnitude x with
  | .finite m q =>
    let i := Int.ofNat (m * Nat.pow 2 q.toNat / Nat.pow 2 (-q).toNat)
    let i := if Decimal.isNegative x then -i else i
    if Word.isSigned i then some i
    else if i ≤ Int.ofNat Word.half then some Word.least
    else none
  | .infinite => if Decimal.isNegative x then some Word.least else none
  | .undefined => none

def int? (n : Node) : Decoder (Option Int) := do
  match ← n.atom with
  | some (.int i) => if i < Int.ofNat Word.half then return some i else mistyped
  | some (.float x) =>
    match truncated? x with
    | some i => return some i
    | none => mistyped
  | some _ => mistyped
  | none => return none

def list? {α : Type} (item : Node → Decoder (Option α)) (n : Node) :
    Decoder (Option (Option (List α))) := do
  -- A list, whose null and mistyped items are left out; absent for a null.
  let n ← n.target
  match n with
  | .sequence _ items => return some (some ((← items.mapM item).filterMap id))
  | .scalar .. =>
    match n.atom? with
    | none => Decoder.stop
    | some .null => return some none
    | some _ => mistyped
  | _ => mistyped

def enter {σ : Type} (field : String → Option (Node → Decoder (σ → σ))) (s : σ) :
    Value × Node → Decoder σ
  | (.text name, v) =>
    match field name with
    | some read => do return (← read v) s
    | none => return s
  | _ => return s

def record? {σ : Type} (field : String → Option (Node → Decoder (σ → σ))) (start : σ) (n : Node) :
    Decoder (Option σ) := do
  -- A record: each entry with a known name changes the record so far.
  let n ← n.target
  match n with
  | .mapping _ entries =>
    let es ← collect true (← get).depth none entries
    return some (← es.found.foldlM (enter field) start)
  | .scalar .. =>
    match n.atom? with
    | none => Decoder.stop
    | some .null => return none
    | some _ => mistyped
  | _ => mistyped

def put {α σ : Type} (read : Node → Decoder (Option α)) (set : α → σ → σ) (n : Node) :
    Decoder (σ → σ) := do
  match ← read n with
  | some a => return set a
  | none => return id

end Flowsheet.Yaml.Node
