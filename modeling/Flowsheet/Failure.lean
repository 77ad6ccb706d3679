set_option autoImplicit false

namespace Flowsheet

/-- What a failure is about. One failure may have several causes: the place where a reference
breaks and the reason why. -/
inductive Cause where
  | parse
  | unboundReference
  | divisionByZero
  | rangeViolation
  | invalidRange
  | unknownDocumentType
  | invalidDocument
  | missingOutcome
  | schemaValidation
  | schemaNotFound
  | unitMismatch
  | unknownProcess
  | cyclicDependency
  | metaNotSet
  | duplicateProcess
  | duplicateName
  | outcomeOutOfRange
  | goldenMismatch
  | template
  | noIndustry
  | multipleIndustries
  | sourcesPathRequired
  | outputPathRequired
  | compilerConcurrency
  | unitBounds
  | workerConcurrency
  | workerShutdownTimeout
  | metricsAddrRequired
  | apiAddrRequired
  | apiShutdownTimeout
  | urlRequired
  | scheduleRequired
  | invalidSchedule
  | invalidLease
  | schedulerDisabled
  | electorStopped
  | taskAlreadyQueued
  | missingIndustryDir
  | skipRetry
  | canceled
  | deadlineExceeded
  | notExist
  | fileSystem
  | yaml
  | external
deriving DecidableEq, Repr

structure Violation where
  pointer : String
  keyword : String
  reason : String
deriving DecidableEq, Repr

structure Failure where
  causes : List Cause
  message : String
  parts : List String := []
  violations : List Violation := []
deriving DecidableEq, Repr

namespace Failure

def of (cause : Cause) (message : String) : Failure := ⟨[cause], message, [], []⟩

def hasCause (f : Failure) (c : Cause) : Bool := f.causes.contains c

def within (context : String) (f : Failure) : Failure :=
  { f with message := context ++ ": " ++ f.message, parts := [] }

def because (c : Cause) (context : String) (f : Failure) : Failure :=
  { f with causes := c :: f.causes, message := context ++ ": " ++ f.message, parts := [] }

def collect : List Failure → Option Failure
  | [] => none
  | [f] => some f
  | fs =>
    some
      { causes := fs.flatMap (·.causes)
        message := "; ".intercalate (fs.map (·.message))
        parts := fs.map (·.message)
        violations := fs.flatMap (·.violations) }

theorem collect_eq_none {fs : List Failure} : collect fs = none ↔ fs = [] := by
  match fs with
  | [] => simp [collect]
  | [f] => simp [collect]
  | f :: g :: fs => simp [collect]

theorem of_collect_eq_some {fs : List Failure} {f : Failure} (collected : collect fs = some f) :
    f.causes = fs.flatMap (·.causes) ∧ f.message = "; ".intercalate (fs.map (·.message)) := by
  match fs with
  | [] => simp [collect] at collected
  | [g] =>
    obtain rfl : g = f := by simpa [collect] using collected
    simp
  | g :: h :: fs =>
    obtain rfl := Option.some.inj collected
    exact ⟨rfl, rfl⟩

end Failure

end Flowsheet
