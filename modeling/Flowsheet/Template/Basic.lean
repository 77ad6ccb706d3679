import Flowsheet.Failure
import Flowsheet.Template.Render

set_option autoImplicit false

namespace Flowsheet

structure Template where
  name : String
  source : List UInt8
  placeholders : List String
  library : Template.Library
  nodes : List Template.Node
  steps : Nat
deriving Inhabited

namespace Template

def unreadable (name detail : String) : Failure :=
  .of .template s!"template error: failed to parse template {name}: {detail}"

def parse (library : Library) (name : String) (source : List UInt8) : Except Failure Template :=
  match actions (Text.pieces source) with
  | .error e => .error (unreadable name e.message)
  | .ok a =>
    match parseNodes? library.knows a.text with
    | none => .error (unreadable name "template: unreadable action")
    | some ns => .ok ⟨name, source, a.names.eraseDups, library, ns, 8 * a.text.length + 16⟩

def execute (t : Template) (answers : Answers) (moment : Moment) (values : List (List UInt8 × Datum)) :
    Except Failure (List UInt8) :=
  match render? ⟨t.library, answers⟩ t.steps moment values t.nodes with
  | some s => .ok s
  | none =>
    .error (.of .template s!"template error: failed to execute template {t.name}: template: no value")

def fill (t : Template) (answers : Answers) (moment : Moment) (values : List (String × List UInt8)) :
    Except Failure (List UInt8) :=
  t.execute answers moment (values.map fun (k, v) => (Text.bytes k, .text v))

end Template

end Flowsheet
