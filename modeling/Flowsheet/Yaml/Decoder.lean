import Flowsheet.Yaml.Node
import Flowsheet.Yaml.Value

set_option autoImplicit false

namespace Flowsheet.Yaml

inductive DecodeError where
  | malformed
  | refused (reason : String)

-- What decoding keeps count of: whether some value had the wrong type, and how much of the work is repeated
-- through aliases.
structure Tally where
  depth : Nat
  mistyped : Bool := false
  visits : Nat := 0
  aliased : Nat := 0
  aliasDepth : Nat := 0

-- Decoding goes on after a value of the wrong type, so that the rest is still looked at; it stops at once
-- where the tree makes no sense.
abbrev Decoder := StateT Tally (Except DecodeError)

namespace Decoder

def stop {α : Type} : Decoder α := throw .malformed

def mistyped : Decoder Unit := modify fun t => { t with mistyped := true }

def excessive (t : Tally) : Bool :=
  -- The share of work that may be spent in aliases shrinks as a document grows.
  100 < t.aliased && 1000 < t.visits &&
    (let allowed : Nat :=
      if t.visits ≤ 400000 then 99 * 3600000
      else if 4000000 ≤ t.visits then 10 * 3600000
      else 99 * 3600000 - 89 * (t.visits - 400000)
    allowed * t.visits < t.aliased * 100 * 3600000)

def visit : Decoder Unit := do
  modify fun t =>
    { t with visits := t.visits + 1, aliased := t.aliased + (if 0 < t.aliasDepth then 1 else 0) }
  if excessive (← get) then stop

def throughAlias {α : Type} (d : Decoder α) : Decoder α := do
  modify fun t => { t with aliasDepth := t.aliasDepth + 1 }
  let a ← d
  modify fun t => { t with aliasDepth := t.aliasDepth - 1 }
  return a

def result {α : Type} (depth : Nat) (d : Decoder α) : Except DecodeError α :=
  match StateT.run d { depth := depth } with
  | .error e => .error e
  | .ok (a, t) => if t.mistyped then .error .malformed else .ok a

end Decoder

namespace Node

def resolved? : Node → Option Node
  | .alias _ none => none
  | .alias _ (some n) => n.resolved?
  | n => some n

def target (n : Node) : Decoder Node :=
  match n.resolved? with
  | none => Decoder.stop
  | some n => do
    Decoder.visit
    return n

def atom? : Node → Option Atom
  | .scalar "!!binary" _ text =>
    ((Atom.base64? text.toList).map Text.ofBytes).map .text
  | .scalar tag plain text => Atom.read? tag plain text
  | _ => none

def isNull : Node → Bool
  | .scalar tag plain text =>
    tag = "!!null" || (tag = "" && plain &&
      match Atom.implicit true text with
      | .null => true
      | _ => false)
  | .alias _ (some n) => isNull n
  | _ => false

def isMerge : Node → Bool
  | .scalar tag plain text => text = "<<" && ((tag = "" && plain) || tag = "!!merge")
  | _ => false

def sameSpelling : Node → Node → Bool
  | .scalar _ _ a, .scalar _ _ b => a = b
  | .sequence .., .sequence .. => true
  | .mapping .., .mapping .. => true
  | .alias a _, .alias b _ => a = b
  | _, _ => false

def hasRepeatedKey : List (Node × Node) → Bool
  | [] => false
  | (k, _) :: rest => rest.any (fun e => k.sameSpelling e.1) || hasRepeatedKey rest

def text? (n : Node) : Decoder (Option String) := do
  -- The text of a scalar that is read as text, whatever it looks like; nothing for a null.
  match ← n.target with
  | .scalar tag plain text =>
    match (Node.scalar tag plain text).atom? with
    | none => Decoder.stop
    | some .null => return none
    | some (.text s) => return some (if tag = "!!binary" then s else text)
    | some _ => return some text
  | _ => do
    Decoder.mistyped
    return none

def isTextual : Node → Bool
  | .scalar tag plain text =>
    tag = "!!str" || tag = "!!merge" || (tag = "" && (!plain ||
      match Atom.implicit true text with
      | .text _ => true
      | _ => false))
  | .alias _ (some n) => isTextual n
  | _ => false

def setKey {α : Type} (entries : List (Value × α)) (k : Value) (v : α) : List (Value × α) :=
  if entries.any fun e => e.1.same k then
    entries.map fun e => if e.1.same k then (k, v) else e
  else entries ++ [(k, v)]

structure Entries where
  found : List (Value × Node) := []
  taken : Option (List Value) := none

mutual

def value : Nat → Node → Decoder Value
  | 0, _ => Decoder.stop
  | fuel + 1, n => do
    Decoder.visit
    match n with
    | .scalar .. =>
      match n.atom? with
      | some a => return .ofAtom a
      | none => Decoder.stop
    | .sequence _ items => return .list (← items.mapM (value fuel))
    | .mapping _ entries =>
      let textKeys := entries.all fun e => isTextual e.1
      let es ← collect textKeys fuel none entries
      let pairs ← es.found.mapM fun (k, v) => do return (k, ← value fuel v)
      return .map pairs
    | .alias _ none => Decoder.stop
    | .alias _ (some n) => Decoder.throughAlias (value fuel n)

def collect (textKeys : Bool) : Nat → Option (List Value) → List (Node × Node) → Decoder Entries
  | 0, _, _ => Decoder.stop
  | fuel + 1, taken, entries => do
    if hasRepeatedKey entries then
      Decoder.mistyped
      return { taken := taken }
    let own ← (entries.filter fun e => !e.1.isMerge).foldlM (fun (es : Entries) (k, v) => do
      let key : Option Value ←
        if textKeys then (·.map Value.text) <$> k.text? else some <$> value fuel k
      match key with
      | none => return es
      | some key =>
        if key.isCollection then Decoder.stop
        else if (es.taken.getD []).any (·.same key) then return es
        else return ⟨setKey es.found key v, es.taken.map (key :: ·)⟩) { taken := taken }
    match (entries.filter fun e => e.1.isMerge).getLast? with
    | none => return own
    | some (_, source) =>
      let mine ←
        match taken with
        | some _ => pure (own.taken.getD [])
        | none => entries.mapM fun e => value fuel e.1
      let merged ← merge textKeys fuel { own with taken := some mine } source
      return { merged with taken := if taken.isSome then merged.taken else none }

def merge (textKeys : Bool) : Nat → Entries → Node → Decoder Entries
  | 0, _, _ => Decoder.stop
  | fuel + 1, es, source => do
    let one (es : Entries) (n : Node) : Decoder Entries := do
      Decoder.visit
      match n with
      | .mapping _ entries | .alias _ (some (.mapping _ entries)) =>
        let more ← collect textKeys fuel es.taken entries
        return ⟨more.found.foldl (fun acc e => setKey acc e.1 e.2) es.found, more.taken⟩
      | _ => Decoder.stop
    match source with
    | .sequence _ items => items.foldlM one es
    | n => one es n

end

end Node

structure Tree where
  root : Node
  depth : Nat

namespace Tree

def parse (bytes : List UInt8) : Except DecodeError (Option Tree) :=
  match Yaml.parse bytes with
  | .malformed => .error .malformed
  | .empty => .ok none
  | .document root => .ok (some ⟨root, 4 * bytes.length + 16⟩)

def topMap (t : Tree) : Except DecodeError (Option Value) :=
  Decoder.result t.depth do
    Decoder.visit
    match t.root with
    | .mapping _ entries =>
      let es ← Node.collect true t.depth none entries
      let pairs ← es.found.mapM fun (k, v) => do return (k, ← Node.value t.depth v)
      return some (.map pairs)
    | n =>
      match n.atom? with
      | some .null => return none
      | _ => do
        Decoder.mistyped
        return none

end Tree

end Flowsheet.Yaml
