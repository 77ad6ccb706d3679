import Flowsheet.Industry.Graph
import Flowsheet.Text.Quoted

set_option autoImplicit false

namespace Flowsheet.Industry

variable {N : Type}

def nodeLine (id : String) (p : Process N) : String :=
  let shape := if p.dependencies.isEmpty then ", shape=box" else ""
  s!"  {Text.quote id} [label={Text.quote p.name}{shape}];\n"

def edgeLine (e : Edge) : String := s!"  {Text.quote e.source} -> {Text.quote e.target};\n"

def dot (i : Industry N) : Except GraphFault String := do
  let queue ← i.executionQueue
  let nodes := (i.queued queue).map fun (id, p) => nodeLine id p
  let edges := queue.flatMap fun id => (i.dependencies id).map fun d => edgeLine ⟨d, id⟩
  return "digraph industry \x7b\n  rankdir=LR;\n" ++ String.join (nodes ++ edges) ++ "\x7d"

end Flowsheet.Industry
