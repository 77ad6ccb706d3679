import Flowsheet.Industry.Graph
import Flowsheet.Json.Basic
import Flowsheet.Script.Statement
import Flowsheet.Template.Set

set_option autoImplicit false

namespace Flowsheet

variable {N : Type} [Quantity N]

def Constant.line (c : Constant N) : String :=
  s!"{c.name} = {floatText c.value}  # {c.description}"

def ProcessRecord.constantLines (p : ProcessRecord N) : List String :=
  if p.constants.isEmpty then [] else s!"# {p.name}'s constants" :: p.constants.map (·.line)

def ProcessRecord.constantsText (p : ProcessRecord N) : String := "\n".intercalate p.constantLines

def written (values : List (String × String)) : List (String × List UInt8) :=
  values.map fun (k, v) => (k, Text.bytes v)

def gettersText (getter : Template) (answers : Template.Answers) (items : List Labels) :
    Except Failure (List UInt8) := do
  let texts ← items.mapM fun l =>
    getter.fill answers ["getter", l.name] (written [("name", l.name), ("description", l.description)])
  return (Text.bytes "\n").intercalate texts

def Process.methodValues (p : Process N) : List (String × String) :=
  [("name", p.shortName), ("args", ", ".intercalate ("self" :: p.methodArgs)),
    ("description", p.description), ("operation", Statement.body p.statements)]

def Process.methodText (template : Template) (answers : Template.Answers) (id : String) (p : Process N) :
    Except Failure (List UInt8) :=
  (template.fill answers ["process", id] (written p.methodValues)).mapError (·.within s!"process '{p.name}'")

def fresh (seen : List String) : List Labels → List Labels
  | [] => []
  | l :: rest =>
    if seen.contains l.name then fresh seen rest else l :: fresh (l.name :: seen) rest

def freshParts (seen : List String) : List (List Labels) → List (List Labels)
  -- The fresh values of each of several lists, all lists before it counted as seen.
  | [] => []
  | part :: rest =>
    let new := fresh seen part
    new :: freshParts (seen ++ new.map (·.name)) rest

namespace Industry

def constructor (m : MetaProcess N) (ps : List (String × Process N)) : List (Statement N) :=
  (ps.flatMap fun (id, p) =>
    m.opening id ++ p.presets ((m.demandsFor id).map (·.name)) ++ [p.call]) ++ m.ending

def unitEntries (m : MetaProcess N) (ps : List (String × Process N)) : List Labels :=
  m.exposed ++ fresh (m.exposed.map (·.name)) (ps.flatMap fun (_, p) => p.exposed)

def unitLine (l : Labels) : String :=
  "    " ++ Json.quote false l.name ++ ": " ++ Json.quote false l.units

def unitsText (entries : List Labels) : String :=
  "\x7b\n" ++ ",\n".intercalate (entries.map unitLine) ++ "\n\x7d"

def dropLineEnds (s : List UInt8) : List UInt8 := (s.reverse.dropWhile (· = 10)).reverse

def processTexts (ts : Templates) (answers : Template.Answers) (id : String) (p : Process N)
    (new : List Labels) : Except Failure (List UInt8 × List (List UInt8)) := do
  let method ← p.methodText ts.process answers id
  if new.isEmpty then return (dropLineEnds method, [])
  else
    let getters ← (gettersText ts.getter answers new).mapError (·.within s!"process '{p.name}'")
    return (dropLineEnds method, [getters])

def script (i : Industry N) (ts : Templates) (answers : Template.Answers) : Except Failure (List UInt8) := do
  let m ← i.requireMeta
  let queue ← i.executionQueue.mapError (·.failure)
  let ps := i.queued queue
  let inIndustry (f : Failure) := f.within s!"industry '{m.name}'"
  let own := fresh [] m.exposed
  let ownGetters ← (gettersText ts.getter answers own).mapError inIndustry
  let parts := freshParts (own.map (·.name)) (ps.map fun (_, p) => p.exposed)
  let texts ← (ps.zip parts).mapM fun ((id, p), new) => processTexts ts answers id p new
  let constants := (m.constantsText :: ps.map fun (_, p) => p.constantsText).filter (· ≠ "")
  let (lo, hi) := i.bounds
  (ts.industry.fill answers ["industry"] (written
    [("name", m.shortName), ("fullname", Json.quote false m.name),
      ("description", m.description), ("outcome_name", m.outcome.name),
      ("constructor_method", Statement.body (constructor m ps)),
      ("constants", "\n\n".intercalate constants), ("args", "self, " ++ m.outcome.name),
      ("units", unitsText (unitEntries m ps)), ("min_units", Quantity.plain lo),
      ("max_units", Quantity.plain hi)] ++
    [("process_methods", (Text.bytes "\n\n").intercalate (texts.map (·.1))),
      ("get_methods",
        dropLineEnds ((Text.bytes "\n").intercalate (ownGetters :: texts.flatMap (·.2))))])).mapError inIndustry

end Industry

end Flowsheet
