import Flowsheet.Compiler.Artifact

set_option autoImplicit false

namespace Flowsheet.Task

def permanentCauses : List Cause :=
  [.invalidDocument, .unknownDocumentType, .rangeViolation, .invalidRange, .missingOutcome,
   .schemaValidation, .parse, .unboundReference, .divisionByZero, .unitMismatch,
   .cyclicDependency, .duplicateProcess, .duplicateName, .goldenMismatch, .outcomeOutOfRange,
   .template, .noIndustry, .multipleIndustries]

def isPermanent (f : Failure) : Bool := f.causes.any permanentCauses.contains

def final (f : Failure) : Failure :=
  { f with
    causes := f.causes ++ [.skipRetry]
    message := f.message ++ ": skip retry for the task"
    parts := [] }

def unreadable : Failure := final ⟨[], "failed to unmarshal payload: unreadable", [], []⟩

def compileFailure (f : Failure) : Failure :=
  let f := f.within "compile error"
  if isPermanent f then final f else f

def compileErrorKind (f : Failure) : String :=
  if isPermanent f then "compile_error" else "transient_error"

def handle (c : Compiler) (payload : String) (ctx : Context) (s : Site) :
    Site × Except Failure Unit :=
  let record (kind : String) (s : Site) : Site := s.measure (Metrics.error "task-handler" kind)
  match Payload.decode? payload with
  | none => (record "unmarshal_error" s, .error unreadable)
  | some p =>
    if p.industryDir = "" then
      (record "invalid_payload" s, .error (final Tasks.missingDirectory))
    else
      match c.compile p.industryDir ctx s with
      | (s, .error f) => (record (compileErrorKind f) s, .error (compileFailure f))
      | (s, .ok r) =>
        let dir := if p.outputDir = "" then c.settings.outputPath else p.outputDir
        match Compiler.writeTo r dir s with
        | (s, .error f) =>
          (record "write_error" s, .error (f.within "failed to write artifact"))
        | (s, .ok _) => (s, .ok ())

end Flowsheet.Task
