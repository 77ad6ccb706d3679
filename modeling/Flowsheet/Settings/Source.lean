import Flowsheet.Time.Duration
import Flowsheet.Yaml.Fields

set_option autoImplicit false

namespace Flowsheet.Settings

abbrev Setting (σ : Type) := Option (Yaml.Node → Yaml.Decoder (σ → σ))

open Yaml Yaml.Node

def duration? (n : Node) : Decoder (Option Duration) := do
  -- A duration is always a text with a unit.
  match ← n.atom with
  | some (.text s) =>
    match Duration.parse? s with
    | some d => return some d
    | none => mistyped
  | some _ => mistyped
  | none => return none

def part? {σ τ : Type} (field : String → Setting τ) (get : σ → τ) (set : τ → σ → σ) :
    Setting σ :=
  -- A section inside a settings file changes a part of the settings.
  some fun n => do
    -- The section starts from what the settings have so far.
    match ← record? (fun name => (field name).map fun read n => do
      let change ← read n
      return fun (f : τ → τ) (t : τ) => change (f t)) id n with
    | some change => return fun s => set (change (get s)) s
    | none => return id

def read {σ : Type} (field : String → Setting σ) (start : σ) (bytes : List UInt8) :
    Except DecodeError σ := do
  match ← Tree.parse bytes with
  | none => return start
  | some tree =>
    Decoder.result tree.depth do
      return (← record? field start tree.root).getD start

end Flowsheet.Settings
