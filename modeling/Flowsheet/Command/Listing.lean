import Flowsheet.Compiler.Basic
import Flowsheet.Industry.Evaluate

set_option autoImplicit false

namespace Flowsheet.Command

section Graph

variable {N : Type} (i : Industry N)

def entry (id name : String) (sources users : List String) : List String :=
  let list (lead : String) (ids : List String) : List String :=
    if ids.isEmpty then [] else [lead ++ ", ".intercalate ids]
  [s!"  • {id} ({name})"] ++ list "    ← depends on: " sources ++ list "    → used by: " users

def processLines (id name : String) : Except Failure (List String) :=
  return entry id name (i.dependencies id) (← i.dependents id)

def sectionLines (level : Nat) (entries : List (List String)) : List String :=
  ["", s!"Level {level}:"] ++ entries.flatten

def levelLines (members : List (String × Process N)) (level : Nat) :
    Except Failure (List String) := do
  if members.isEmpty then return []
  return sectionLines level (← members.mapM fun (id, p) => processLines i id p.name)

def listing (sections : List (List String)) (queue : List String) : String :=
  let all := ["Dependency Graph:", "================="] ++ sections.flatten ++
    ["", "Execution queue:", "================", " → ".intercalate queue]
  String.join (all.map (· ++ "\n"))

def graphText : Except Failure String := do
  let queue ← i.executionQueue.mapError (·.failure)
  let levels ← i.levels.mapError (·.failure)
  let levelOf (id : String) : Nat := (levels.lookup id).getD 0
  let top := (queue.map levelOf).foldl max 0
  let sections ← (List.range (top + 1)).mapM fun n =>
    levelLines i ((i.queued queue).filter fun p => levelOf p.1 = n) n
  return listing sections queue

end Graph

def table (rows : List (String × String)) : String :=
  let width := (rows.map (·.1.length)).foldl max 0 + 2
  String.join (rows.map fun (a, b) =>
    a ++ String.ofList (List.replicate (width - a.length) ' ') ++ b ++ "\n")

def valuesText (vs : Values Float) : String :=
  let sorted := vs.mergeSort fun a b => decide (a.1 ≤ b.1)
  table (("NAME", "VALUE") :: sorted.map fun (k, v) => (k, Quantity.general v))

def resultLine (output : String) (r : Compiled) : String :=
  let state := if r.cached then "cached" else "compiled"
  s!"{r.industry}: {Path.join [output, r.filename]} ({r.processes} processes, {state})\n"

end Flowsheet.Command
