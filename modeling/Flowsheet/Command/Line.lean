import Flowsheet.Command.Flag
import Flowsheet.Failure
import Flowsheet.Text.Case

set_option autoImplicit false

namespace Flowsheet.Command

inductive Action where
  | compile
  | dag
  | enqueue
  | evaluate
  | validate
  | version
  | worker
  | help
  | completion
deriving DecidableEq, Repr

namespace Action

def all : List Action :=
  [.compile, .dag, .enqueue, .evaluate, .validate, .version, .worker, .help, .completion]

def name : Action → String
  | .compile => "compile"
  | .dag => "dag"
  | .enqueue => "enqueue"
  | .evaluate => "evaluate"
  | .validate => "validate"
  | .version => "version"
  | .worker => "worker"
  | .help => "help"
  | .completion => "completion"

def ofName? (s : String) : Option Action := all.find? fun a => a.name = s

end Action

def program : String := "iisim"

def commonFlags : List Flag := [⟨"config", .text, none⟩, ⟨"log-level", .text, none⟩, ⟨"log-format", .text, none⟩]

def helpFlag : Flag := ⟨"help", .switch, some 'h'⟩

def Action.ownFlags : Action → List Flag
  | .compile =>
    [⟨"output", .text, none⟩, ⟨"no-verify", .switch, none⟩, ⟨"metrics-textfile", .text, none⟩]
  | .dag => [⟨"dot", .switch, none⟩]
  | .enqueue => [⟨"output", .text, none⟩]
  | .evaluate => [⟨"outcome", .number, none⟩]
  | .version => [⟨"short", .switch, none⟩]
  | _ => []

def flagsOf (a : Option Action) : List Flag := ((a.map (·.ownFlags)).getD []) ++ commonFlags

def distanceRow (a : UInt8) (above : List Nat) (left : Nat) : List UInt8 → List Nat
  | [] => []
  | b :: bs =>
    match above with
    | diagonal :: up :: rest =>
      let d := if a = b then diagonal else 1 + min diagonal (min up left)
      d :: distanceRow a (up :: rest) d bs
    | _ => []

def editDistance (s t : List UInt8) : Nat :=
  let first := List.range (t.length + 1)
  let table := s.foldl (fun (row, n) a => (n :: distanceRow a row n t, n + 1)) (first, 1)
  table.1.getLastD 0

def suggestions (typed : String) : List String :=
  let typed := Text.lower typed
  (Action.all.map (·.name)).filter fun name =>
    editDistance (Text.bytes typed) (Text.bytes name) ≤ 2 || name.startsWith typed

def unknownCommand (typed : String) : Failure :=
  let hints := match suggestions typed with
    | [] => ""
    | names => "\n\nDid you mean this?\n" ++ String.join (names.map fun n => s!"\t{n}\n")
  ⟨[], s!"unknown command {Text.quote typed} for {Text.quote program}{hints}", [], []⟩

def select (args : List String) : Except Failure (Option Action × List String) :=
  -- The command that arguments ask for, and its arguments. Without one it is a call for help.
  match words commonFlags args with
  | [] => .ok (none, args)
  | typed :: _ =>
    match Action.ofName? typed with
    | some a => .ok (some a, dropWord commonFlags typed args)
    | none => .error (unknownCommand typed)

def countFailure (message : String) : Failure := ⟨[], message, [], []⟩

def checkCount (a : Action) (n : Nat) : Except Failure Unit :=
  match a with
  | .dag | .evaluate =>
    if n = 1 then .ok () else .error (countFailure s!"accepts 1 arg(s), received {n}")
  | .enqueue =>
    if n = 0 then .error (countFailure "requires at least 1 arg(s), only received 0") else .ok ()
  | _ => .ok ()

def checkRequired (a : Action) (p : Parsed) : Except Failure Unit :=
  if a = .evaluate && (p.value? "outcome").isNone then
    .error (countFailure "required flag(s) \"outcome\" not set")
  else .ok ()

inductive Invocation where
  | help
  | run (a : Action) (p : Parsed)
deriving DecidableEq, Repr

def parse (args : List String) : Except Failure Invocation := do
  let (action, args) ← select args
  let p ← (readFlags (helpFlag :: flagsOf action) {} args).mapError fun e =>
    (⟨[], e.message, [], []⟩ : Failure)
  if p.isOn "help" then return .help
  match action with
  | none | some .help | some .completion => return .help
  | some a =>
    checkCount a p.args.length
    checkRequired a p
    return .run a p

end Flowsheet.Command
