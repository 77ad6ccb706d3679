import Flowsheet.Template.Function
import Flowsheet.Template.Tree

set_option autoImplicit false

namespace Flowsheet.Template

abbrev Variables := List (String × Datum)

def setVariable (x : String) (d : Datum) : Variables → Variables
  | [] => []
  | (y, e) :: rest => if x = y then (y, d) :: rest else (y, e) :: setVariable x d rest

def fieldOf? : Datum → String → Option Datum
  | .map entries, k => entries.lookup (Text.bytes k)
  | _, _ => none

def fieldsOf? (d : Datum) (names : List String) : Option Datum := names.foldlM fieldOf? d

def literal? : Operand → Option Datum
  | .bool b => some (.bool b)
  | .number n => if n.isFloat then some (.float n.float) else n.int.map .int
  | .text s => some (.text s)
  | _ => none

def literalFor? (p : Param) (o : Operand) : Option Datum :=
  match p, o with
  | .int, .number n => n.int.map .int
  | .text, .text s => some (.text s)
  | .any, .nil => some .nil
  | .any, o => literal? o
  | _, _ => none

structure Calls where
  library : Library
  answers : Answers

-- Every call has a moment of its own: nodes, rounds of an iteration, commands and arguments are told
-- apart by their numbers.

mutual

def evalPipeline (calls : Calls) (dot : Datum) :
    Nat → Moment → Variables → Pipeline → Option (Datum × Variables)
  | 0, _, _, _ => none
  | fuel + 1, here, vars, p => do
    let value ← p.commands.zipIdx.foldlM (fun (before : Option Datum) (args, i) =>
      (evalCommand calls dot fuel (toString i :: here) vars args before).map some) none
    let value ← value
    if p.assign then
      some (value, p.declared.foldl (fun vs x => setVariable x value vs) vars)
    else some (value, p.declared.foldl (fun vs x => (x, value) :: vs) vars)

def evalCommand (calls : Calls) (dot : Datum) :
    Nat → Moment → Variables → List Operand → Option Datum → Option Datum
  -- One command, with the value of the command before it as a last argument.
  | 0, _, _, _, _ => none
  | fuel + 1, here, vars, args, before =>
    match args with
    | [] => none
    | .function f :: rest => evalFunction calls dot fuel here vars f rest before
    | o :: rest =>
      if rest.isEmpty && before.isNone then
        match o with
        | .nil => none
        | o => evalOperand calls dot fuel here vars o
      else none

def evalOperand (calls : Calls) (dot : Datum) : Nat → Moment → Variables → Operand → Option Datum
  | 0, _, _, _ => none
  | fuel + 1, here, vars, o =>
    match o with
    | .dot => some dot
    | .nil => some .nil
    | .field names => fieldsOf? dot names
    | .variable x fields => (vars.lookup x).bind fun d => fieldsOf? d fields
    | .function f => evalFunction calls dot fuel here vars f [] none
    | .pipeline declared assign commands =>
      (evalPipeline calls dot fuel here vars ⟨declared, assign, commands⟩).map (·.1)
    | .chain .nil _ => none
    | .chain base fields => (evalOperand calls dot fuel here vars base).bind fun d => fieldsOf? d fields
    | o => literal? o

def evalArgument (calls : Calls) (dot : Datum) :
    Nat → Moment → Variables → Param → Operand → Option Datum
  | 0, _, _, _, _ => none
  | fuel + 1, here, vars, p, o =>
    match o with
    | .nil | .bool _ | .number _ | .text _ => literalFor? p o
    | o => (evalOperand calls dot fuel here vars o).filter p.accepts

def evalFunction (calls : Calls) (dot : Datum) :
    Nat → Moment → Variables → String → List Operand → Option Datum → Option Datum
  | 0, _, _, _, _, _ => none
  | fuel + 1, here, vars, name, args, before =>
    if name = "and" || name = "or" then
      if args.isEmpty && before.isNone then none
      else connective calls dot (name = "or") fuel here vars args before
    else
      match calls.library name with
      | none => none
      | some f =>
        if !f.takes (args.length + before.toList.length) then none
        else do
          let values ← args.zipIdx.mapM fun (o, i) => do
            evalArgument calls dot fuel (toString i :: here) vars (← f.param? i) o
          let last ← match before with
            | none => some []
            | some d => do
              let p ← f.param? args.length
              if p.accepts d then some [d] else none
          calls.answers here name (values ++ last)

def connective (calls : Calls) (dot : Datum) (deciding : Bool) :
    Nat → Moment → Variables → List Operand → Option Datum → Option Datum
  | 0, _, _, _, _ => none
  | fuel + 1, here, vars, args, before =>
    match args with
    | [] => before
    | o :: rest => do
      let d ← evalArgument calls dot fuel (toString rest.length :: here) vars .any o
      if d.truth = deciding || (rest.isEmpty && before.isNone) then some d
      else connective calls dot deciding fuel here vars rest before

end

def iterated? : Datum → Option (List (Datum × Datum))
  | .nil => some []
  | .list items => some (items.zipIdx.map fun (d, i) => (.int i, d))
  | .map entries => some ((Datum.byKey entries).map fun (k, d) => (.text k, d))
  | .int n => some ((List.range n.toNat).map fun i => (.int (Int.ofNat i), .int (Int.ofNat i)))
  | .long n => some ((List.range n.toNat).map fun i => (.long (Int.ofNat i), .long (Int.ofNat i)))
  | .byte n => some ((List.range n).map fun i => (.byte i, .byte i))
  | _ => none

def dropTo (n : Nat) (vars : Variables) : Variables := vars.drop (vars.length - n)

def bindIteration (p : Pipeline) (i d : Datum) (vars : Variables) : Variables :=
  match p.declared with
  | [x] => if p.assign then setVariable x d vars else (x, d) :: vars
  | [x, y] =>
    if p.assign then setVariable y d (setVariable x i vars) else (y, d) :: (x, i) :: vars
  | _ => vars

mutual

def renderNodes (calls : Calls) (dot : Datum) :
    Nat → Moment → Variables → List (List UInt8) → List Node → Option (List (List UInt8) × Variables)
  | 0, _, _, _, _ => none
  | _ + 1, _, vars, out, [] => some (out, vars)
  | fuel + 1, here, vars, out, n :: rest => do
    let (out, vars) ← renderNode calls dot fuel (toString rest.length :: here) vars out n
    renderNodes calls dot fuel here vars out rest

def renderNode (calls : Calls) (dot : Datum) :
    Nat → Moment → Variables → List (List UInt8) → Node → Option (List (List UInt8) × Variables)
  | 0, _, _, _, _ => none
  | fuel + 1, here, vars, out, n =>
    match n with
    | .text s => some (s :: out, vars)
    | .action p => do
      let (d, vars) ← evalPipeline calls dot fuel here vars p
      some (if p.declared.isEmpty then d.printed :: out else out, vars)
    | .block .iteration p body other => do
      let (d, _) ← evalPipeline calls dot fuel ("range" :: here) vars { p with declared := [] }
      let pairs ← iterated? d
      if pairs.isEmpty then
        let (out, vars') ← renderNodes calls dot fuel here vars out other
        some (out, dropTo vars.length vars')
      else
        pairs.zipIdx.foldlM (fun (out, vars') ((i, d), k) => do
          let (out, vars'') ← renderNodes calls d fuel (toString k :: here) (bindIteration p i d vars') out body
          some (out, dropTo vars.length vars'')) (out, vars)
    | .block kind p body other => do
      let (d, vars') ← evalPipeline calls dot fuel ("if" :: here) vars p
      let inner := if kind = .scope && d.truth then d else dot
      let (out, vars'') ← renderNodes calls inner fuel here vars' out (if d.truth then body else other)
      some (out, dropTo vars.length vars'')

end

def render? (calls : Calls) (fuel : Nat) (moment : Moment) (values : List (List UInt8 × Datum)) (ns : List Node) :
    Option (List UInt8) :=
  (renderNodes calls (.map values) fuel moment [("$", .map values)] [] ns).map fun (out, _) =>
    out.reverse.flatten

end Flowsheet.Template
