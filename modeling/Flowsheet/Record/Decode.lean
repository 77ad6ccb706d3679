import Flowsheet.Record.Basic
import Flowsheet.Yaml.Fields

set_option autoImplicit false

namespace Flowsheet.Record

open Yaml Yaml.Node

abbrev Field (σ : Type) := Option (Node → Decoder (σ → σ))

def numbers? (n : Node) : Decoder (Option (Option (List Float))) := list? float? n

def values? (n : Node) : Decoder (Option (Option (List Float))) := do
  match n with
  | .scalar .. | .alias _ (some (.scalar ..)) =>
    if n.isNull then list? float? n else return ((← float? n).map fun x => some [x])
  | _ => list? float? n

def labels {σ : Type} (change : (Labels → Labels) → σ → σ) : String → Field σ
  | "name" => some (put text? fun s => change ({ · with name := s }))
  | "description" => some (put text? fun s => change ({ · with description := s }))
  | "units" => some (put text? fun s => change ({ · with units := s }))
  | _ => none

def constant? (n : Node) : Decoder (Option (Constant Float)) :=
  record? (fun
    | "citation" => some (put text? fun s c => { c with citation := s })
    | "source" => some (put text? fun s c => { c with source := s })
    | "value" => some (put float? fun x c => { c with value := x })
    | "range" => some (put numbers? fun r c => { c with range := r })
    | other => labels (fun f c => { c with toLabels := f c.toLabels }) other)
    { value := 0 } n

def input? (n : Node) : Decoder (Option (Input Float)) :=
  record? (fun
    | "value" => some (put values? fun xs i => { i with value := xs.getD [] })
    | "from" => some (put text? fun s i => { i with origin := s })
    | "range" => some (put numbers? fun r i => { i with range := r })
    | other => labels (fun f i => { i with toLabels := f i.toLabels }) other)
    {} n

def arg? (n : Node) : Decoder (Option Arg) :=
  record? (fun
    | "name" => some (put text? fun s a => { a with name := s })
    | "type" => some (put text? fun s a => { a with kind := .ofText s })
    | "from" => some (put text? fun s a => { a with source := s })
    | _ => none)
    {} n

def itemFields {σ : Type} (change : (Item Float → Item Float) → σ → σ) : String → Field σ
  | "args" => some (put (list? arg?) fun xs => change ({ · with args := xs.getD [] }))
  | "operation" => some (put text? fun s => change ({ · with operation := s }))
  | "tests" => some (put numbers? fun xs => change ({ · with tests := xs.getD [] }))
  | other => labels (fun f => change fun i => { i with toLabels := f i.toLabels }) other

def output? (n : Node) : Decoder (Option (Output Float)) :=
  record? (fun
    | "value" => some fun n => do
      if n.isNull then return ({ · with value := none })
      else put float? (fun x o => { o with value := some x }) n
    | "range" => some (put numbers? fun r o => { o with range := r })
    | other => itemFields (fun f o => { o with toItem := f o.toItem }) other)
    {} n

def demand? (n : Node) : Decoder (Option (Demand Float)) :=
  record? (fun
    | "used" => some (put text? fun s d => { d with used := s })
    | "meta" => some (put text? fun s d => { d with tag := s })
    | other => itemFields (fun f d => { d with toItem := f d.toItem }) other)
    {} n

def metaDemand? (n : Node) : Decoder (Option (Item Float)) := record? (itemFields id) {} n

def outcomeRecord? (n : Node) : Decoder (Option (Outcome Float)) :=
  record? (fun
    | "same_result" => some (put text? fun s o => { o with sameResult := s })
    | "range" => some (put numbers? fun r o => { o with range := r })
    | "tests" => some (put numbers? fun xs o => { o with tests := xs.getD [] })
    | other => labels (fun f o => { o with toLabels := f o.toLabels }) other)
    {} n

def outcome? (n : Node) : Decoder (Option (Outcome Float)) := do
  match n with
  | .sequence _ items | .alias _ (some (.sequence _ items)) =>
    match items with
    | [item] => outcomeRecord? item
    | _ =>
      throw (.refused s!"expected exactly one outcome, got {items.length}")
  | _ => outcomeRecord? n

def processField {σ : Type} (change : (ProcessRecord Float → ProcessRecord Float) → σ → σ) :
    String → Field σ
  | "name" => some (put text? fun s => change ({ · with name := s }))
  | "short_name" => some (put text? fun s => change ({ · with shortName := s }))
  | "id" => some (put text? fun s => change ({ · with id := s }))
  | "type" => some (put text? fun s => change ({ · with category := s }))
  | "description" => some (put text? fun s => change ({ · with description := s }))
  | "version" => some (put text? fun s => change ({ · with version := s }))
  | "debug" => some (put bool? fun b => change ({ · with debug := b }))
  | "constants" => some (put (list? constant?) fun xs => change ({ · with constants := xs.getD [] }))
  | "inputs" => some (put (list? input?) fun xs => change ({ · with inputs := xs.getD [] }))
  | "outputs" => some (put (list? output?) fun xs => change ({ · with outputs := xs.getD [] }))
  | _ => none

def process (t : Tree) : Except DecodeError (ProcessRecord Float) :=
  Decoder.result t.depth do
    return (← record? (processField id) {} t.root).getD {}

def industry (t : Tree) : Except DecodeError (IndustryRecord Float) :=
  Decoder.result t.depth do
    let r ← record? (fun
      | "outcome" => some (put outcome? fun o r => { r with outcome := o })
      | "demands" => some (put (list? demand?) fun xs r => { r with demands := xs.getD [] })
      | "meta" => some (put (list? metaDemand?) fun xs r => { r with metaDemands := xs.getD [] })
      | other => processField (fun f r => { r with toProcessRecord := f r.toProcessRecord }) other)
      ({} : IndustryRecord Float) t.root
    return r.getD {}

end Flowsheet.Record
