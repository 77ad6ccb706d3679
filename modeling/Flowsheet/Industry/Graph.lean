import Flowsheet.Industry.Basic

set_option autoImplicit false

namespace Flowsheet

inductive GraphFault where
  | selfReference (id : String)
  | unknownProcess (id dependency : String)
  | loop (source target : String)
  | blankTarget (source : String)
  | blankId
  | unordered (left total : Nat)
deriving DecidableEq, Repr

namespace GraphFault

def blankText : String := "don't know what to do with \"\""

def failure : GraphFault → Failure
  | .selfReference id => .of .cyclicDependency s!"cyclic dependency: {id} depends on itself"
  | .unknownProcess id d => .of .unknownProcess s!"unknown process: {id} depends on {d}"
  | .loop s t =>
    .of .cyclicDependency
      s!"cyclic dependency: {s} → {t}: edge between '{s}' and '{t}' would create a loop"
  | .blankTarget s => .of .cyclicDependency s!"cyclic dependency: {s} → : {blankText}"
  | .blankId => ⟨[], blankText, [], []⟩
  | .unordered n total =>
    .of .cyclicDependency s!"cyclic dependency: {n} of {total} processes could not be ordered"

end GraphFault

structure Edge where
  source : String
  target : String
deriving DecidableEq, Repr

namespace Edge

def expand (edges : List Edge) (nodes : List String) : List String :=
  (nodes ++ ((edges.filter fun e => nodes.contains e.source).map (·.target))).eraseDups

def within (edges : List Edge) : Nat → List String → List String
  | 0, nodes => nodes
  | n + 1, nodes => within edges n (expand edges nodes)

def reaches (edges : List Edge) (source target : String) : Bool :=
  -- Whether a path leads from one node to another. No path without a loop is longer than the list
  -- of edges.
  (within edges edges.length [source]).contains target

end Edge

namespace Industry

variable {N : Type}

def wishedEdges (i : Industry N) : List Edge :=
  -- The wished edges, by target in the order of insertion, then by the order of dependencies.
  i.processes.flatMap fun (id, p) => p.dependencies.map fun d => ⟨d, id⟩

def addEdge (i : Industry N) (edges : List Edge) (e : Edge) : Except GraphFault (List Edge) :=
  -- Adds an edge to a graph without loops, unless it would close one.
  if e.source = e.target then .error (.selfReference e.target)
  else if (i.process? e.source).isNone then .error (.unknownProcess e.target e.source)
  else if e.target = "" then .error (.blankTarget e.source)
  else if Edge.reaches edges e.target e.source then .error (.loop e.source e.target)
  else .ok (edges ++ [e])

def graph (i : Industry N) : Except GraphFault (List Edge) :=
  i.wishedEdges.foldlM i.addEdge []

def schedule (dependencies : String → List String) (done pending : List String) : List String :=
  -- Takes the first pending process whose dependencies are all done, again and again.
  match _h : pending.find? fun id => (dependencies id).all done.contains with
  | none => []
  | some id => id :: schedule dependencies (id :: done) (pending.erase id)
termination_by pending.length
decreasing_by
  have hm := List.mem_of_find?_eq_some _h
  have := List.length_erase_of_mem hm
  have := List.length_pos_of_mem hm
  omega

def executionQueue (i : Industry N) : Except GraphFault (List String) := do
  let _ ← i.graph
  if i.ids.contains "" then throw .blankId
  let queue := schedule i.dependencies [] i.ids
  if queue.length ≠ i.ids.length then
    throw (.unordered (i.ids.length - queue.length) i.ids.length)
  return queue

def queued (i : Industry N) (queue : List String) : List (String × Process N) :=
  queue.filterMap fun id => (i.process? id).map (id, ·)

def level (i : Industry N) (known : List (String × Nat)) (id : String) : Nat :=
  -- The depth of a process, given the depths of those before it.
  (i.dependencies id).foldl (fun n d => max n ((known.lookup d).getD 0 + 1)) 0

def levels (i : Industry N) : Except GraphFault (List (String × Nat)) := do
  let queue ← i.executionQueue
  return queue.foldl (fun known id => known ++ [(id, i.level known id)]) []

def dependents (i : Industry N) (id : String) : Except Failure (List String) := do
  let _ ← i.graph.mapError (·.failure)
  if id = "" || (i.process? id).isNone then
    throw (.of .unknownProcess s!"unknown process: {id}")
  return (i.processes.filter fun (_, p) => p.dependencies.contains id).map (·.1)

end Industry

end Flowsheet
