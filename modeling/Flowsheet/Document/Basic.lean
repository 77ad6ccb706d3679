import Flowsheet.Record.Decode
import Flowsheet.Record.Validate

set_option autoImplicit false

namespace Flowsheet

inductive Kind where
  | industry
  | process
deriving DecidableEq, Repr

def Kind.text : Kind → String
  | .industry => "industry"
  | .process => "process"

structure Document where
  path : String
  data : List UInt8
  tree : Yaml.Tree
  raw : Yaml.Value

namespace Document

def undecodable (path : String) : Yaml.DecodeError → Failure
  | .malformed =>
    .of .invalidDocument s!"invalid document: {path}: yaml: cannot be decoded"
  | .refused reason =>
    (Failure.of .invalidDocument s!"invalid document: {reason}").because .invalidDocument
      s!"invalid document: {path}"

def empty (path : String) : Failure := .of .invalidDocument s!"invalid document: {path} is empty"

def decode (path : String) (data : List UInt8) : Except Failure Document := do
  match ← (Yaml.Tree.parse data).mapError (undecodable path) with
  | none => .error (empty path)
  | some tree =>
    match ← tree.topMap.mapError (undecodable path) with
    | none => .error (empty path)
    | some raw => .ok ⟨path, data, tree, raw⟩

def kind (d : Document) : Except Failure Kind :=
  match d.raw.get? "type" with
  | none =>
    .error (.of .unknownDocumentType s!"unknown document type: {d.path} should have a type field")
  | some v =>
    match v.display with
    | "industry" => .ok .industry
    | "process" => .ok .process
    | other =>
      .error (.of .unknownDocumentType
        s!"unknown document type: {d.path} has type '{other}', expected 'industry' or 'process'")

def process (d : Document) : Except Failure (ProcessRecord Float) := do
  let r ← (Record.process d.tree).mapError (undecodable d.path)
  r.validate
  return r

def industry (d : Document) : Except Failure (IndustryRecord Float) := do
  let r ← (Record.industry d.tree).mapError (undecodable d.path)
  r.validate
  return r

end Document

end Flowsheet
