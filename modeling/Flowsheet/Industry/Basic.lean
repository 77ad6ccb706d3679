import Flowsheet.Industry.MetaProcess

set_option autoImplicit false

namespace Flowsheet

structure Industry (N : Type) where
  metaProcess : Option (MetaProcess N) := none
  processes : List (String × Process N) := []
  defaultBounds : N × N

namespace Industry

variable {N : Type}

def process? (i : Industry N) (id : String) : Option (Process N) := i.processes.lookup id

def ids (i : Industry N) : List String := i.processes.map (·.1)

def addProcess (i : Industry N) (id : String) (p : Process N) : Except Failure (Industry N) :=
  if (i.process? id).isSome then
    .error (.of .duplicateProcess s!"duplicate process id: {id}")
  else .ok { i with processes := i.processes ++ [(id, p)] }

def setMeta (i : Industry N) (m : MetaProcess N) : Industry N := { i with metaProcess := some m }

def dependencies (i : Industry N) (id : String) : List String :=
  ((i.process? id).map (·.dependencies)).getD []

def bounds (i : Industry N) : N × N :=
  match i.metaProcess.bind (·.outcome.range) with
  | some [lo, hi] => (lo, hi)
  | _ => i.defaultBounds

def metaNotSet : Failure := .of .metaNotSet "industry meta is not set"

def requireMeta (i : Industry N) : Except Failure (MetaProcess N) :=
  match i.metaProcess with
  | some m => .ok m
  | none => .error metaNotSet

end Industry

end Flowsheet
