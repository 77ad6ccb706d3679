import Flowsheet.Record.Range

set_option autoImplicit false

namespace Flowsheet

inductive ArgKind where
  | constants
  | inputs
  | outputs
  | demands
  | metaDemands
  | outcome
  | other (word : String)
deriving DecidableEq, Repr

def ArgKind.text : ArgKind → String
  | .constants => "constants"
  | .inputs => "inputs"
  | .outputs => "outputs"
  | .demands => "demands"
  | .metaDemands => "meta"
  | .outcome => "outcome"
  | .other w => w

def ArgKind.ofText : String → ArgKind
  | "constants" => .constants
  | "inputs" => .inputs
  | "outputs" => .outputs
  | "demands" => .demands
  | "meta" => .metaDemands
  | "outcome" => .outcome
  | w => .other w

@[simp] theorem ArgKind.text_ofText (w : String) : (ArgKind.ofText w).text = w := by
  unfold ofText
  split <;> rfl

structure Arg where
  name : String := ""
  kind : ArgKind := .other ""
  source : String := ""
deriving DecidableEq, Repr

structure Labels where
  name : String := ""
  description : String := ""
  units : String := ""
deriving DecidableEq, Repr

structure Constant (N : Type) extends Labels where
  citation : String := ""
  source : String := ""
  value : N
  range : Option (Range N) := none
deriving DecidableEq, Repr

structure Input (N : Type) extends Labels where
  value : List N := []
  origin : String := ""
  range : Option (Range N) := none
deriving DecidableEq, Repr

def Input.isExternal {N : Type} (i : Input N) : Bool := i.origin != ""

structure Item (N : Type) extends Labels where
  args : List Arg := []
  operation : String := ""
  tests : List N := []
deriving DecidableEq, Repr

structure Output (N : Type) extends Item N where
  value : Option N := none
  range : Option (Range N) := none
deriving DecidableEq, Repr

/-- A quantity computed by the industry and consumed by the process `used`. A demand with a tag
is superseded by a meta-demand. -/
structure Demand (N : Type) extends Item N where
  used : String := ""
  tag : String := ""
deriving DecidableEq, Repr

def Demand.isAggregated {N : Type} (d : Demand N) : Bool := d.tag != ""

structure Outcome (N : Type) extends Labels where
  sameResult : String := ""
  range : Option (Range N) := none
  tests : List N := []
deriving DecidableEq, Repr

structure ProcessRecord (N : Type) where
  name : String := ""
  shortName : String := ""
  id : String := ""
  category : String := ""
  description : String := ""
  version : String := ""
  debug : Bool := false
  constants : List (Constant N) := []
  inputs : List (Input N) := []
  outputs : List (Output N) := []
deriving DecidableEq, Repr

structure IndustryRecord (N : Type) extends ProcessRecord N where
  outcome : Outcome N := {}
  demands : List (Demand N) := []
  metaDemands : List (Item N) := []
deriving DecidableEq, Repr

end Flowsheet
