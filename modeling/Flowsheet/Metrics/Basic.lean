import Flowsheet.Decimal.Layout
import Flowsheet.Text.Order

set_option autoImplicit false

namespace Flowsheet

inductive Family where
  | artifactBytes
  | cacheHits
  | cacheMisses
  | duration
  | running
  | compilations
  | errors
  | golden
  | processes
  | rebuilds
  | leader
  | enqueued
deriving DecidableEq, Repr

namespace Family

def all : List Family :=
  [.artifactBytes, .cacheHits, .cacheMisses, .duration, .running, .compilations, .errors, .golden,
   .processes, .rebuilds, .leader, .enqueued]

def name : Family → String
  | .artifactBytes => "iisim_artifact_bytes"
  | .cacheHits => "iisim_build_cache_hits_total"
  | .cacheMisses => "iisim_build_cache_misses_total"
  | .duration => "iisim_compilation_duration_seconds"
  | .running => "iisim_compilations_running"
  | .compilations => "iisim_compilations_total"
  | .errors => "iisim_errors_total"
  | .golden => "iisim_golden_checks_total"
  | .processes => "iisim_industry_processes"
  | .rebuilds => "iisim_scheduled_rebuilds_total"
  | .leader => "iisim_scheduler_leader"
  | .enqueued => "iisim_tasks_enqueued_total"

def help : Family → String
  | .artifactBytes => "Size of the last generated artifact in bytes"
  | .cacheHits => "Total number of build cache hits"
  | .cacheMisses => "Total number of build cache misses"
  | .duration => "Industry compilation duration in seconds"
  | .running => "Number of industry compilations in progress"
  | .compilations => "Total number of industry compilations"
  | .errors => "Total number of errors"
  | .golden => "Total number of golden value verifications"
  | .processes => "Number of processes in the last compilation of the industry"
  | .rebuilds => "Total number of scheduled rebuild runs"
  | .leader => "Whether this instance is the rebuild scheduler leader"
  | .enqueued => "Total number of compile tasks enqueued"

def kind : Family → String
  | .artifactBytes | .running | .processes | .leader => "gauge"
  | .duration => "histogram"
  | _ => "counter"

def labels : Family → List String
  | .artifactBytes | .cacheHits | .cacheMisses | .running | .processes => ["industry"]
  | .duration | .compilations => ["industry", "status"]
  | .errors => ["component", "error_type"]
  | .golden => ["industry", "result"]
  | .rebuilds => ["status"]
  | .leader => []
  | .enqueued => ["industry", "trigger"]

end Family

structure Histogram where
  count : Nat := 0
  sum : Float := 0
  buckets : List Nat

namespace Histogram

def bounds : List Float :=
  (List.range 12).map fun i => Float.ofScientific (Nat.pow 2 i) true 3

def empty : Histogram := { buckets := bounds.map fun _ => 0 }

def observe (h : Histogram) (x : Float) : Histogram :=
  let i := (bounds.findIdx? fun b => x ≤ b).getD bounds.length
  { count := h.count + 1, sum := h.sum + x
    buckets := h.buckets.modify i (· + 1) }

end Histogram

inductive Sample where
  | number (x : Float)
  | histogram (h : Histogram)

structure Metrics where
  samples : List ((Family × List String) × Sample) := []

namespace Metrics

def get? (m : Metrics) (f : Family) (labels : List String) : Option Sample :=
  m.samples.lookup (f, labels)

def set (m : Metrics) (f : Family) (labels : List String) (s : Sample) : Metrics :=
  ⟨((f, labels), s) :: m.samples.filter fun p => !(p.1 == (f, labels))⟩

def setNumber (m : Metrics) (f : Family) (labels : List String) (x : Float) : Metrics :=
  m.set f labels (.number x)

def add (m : Metrics) (f : Family) (labels : List String) (x : Float) : Metrics :=
  match m.get? f labels with
  | some (.number y) => m.setNumber f labels (y + x)
  | _ => m.setNumber f labels x

def observe (m : Metrics) (f : Family) (labels : List String) (x : Float) : Metrics :=
  match m.get? f labels with
  | some (.histogram h) => m.set f labels (.histogram (h.observe x))
  | _ => m.set f labels (.histogram (Histogram.empty.observe x))

def initial : Metrics := ({} : Metrics).setNumber .leader [] 0

def compilationStarted (industry : String) (m : Metrics) : Metrics :=
  m.add .running [industry] 1

def compilationEnded (industry status : String) (seconds : Float) (m : Metrics) : Metrics :=
  ((m.add .running [industry] (-1)).add .compilations [industry, status] 1).observe .duration
    [industry, status] seconds

def artifact (industry : String) (processes size : Int) (m : Metrics) : Metrics :=
  (m.setNumber .processes [industry] (Float.ofInt processes)).setNumber .artifactBytes [industry]
    (Float.ofInt size)

def goldenCheck (industry result : String) (m : Metrics) : Metrics :=
  m.add .golden [industry, result] 1

def taskEnqueued (industry trigger : String) (m : Metrics) : Metrics :=
  m.add .enqueued [industry, trigger] 1

def cacheHit (industry : String) (m : Metrics) : Metrics := m.add .cacheHits [industry] 1

def cacheMiss (industry : String) (m : Metrics) : Metrics := m.add .cacheMisses [industry] 1

def rebuild (status : String) (m : Metrics) : Metrics := m.add .rebuilds [status] 1

def leadership (leads : Bool) (m : Metrics) : Metrics :=
  m.setNumber .leader [] (if leads then 1 else 0)

def error (component kind : String) (m : Metrics) : Metrics := m.add .errors [component, kind] 1

def series (m : Metrics) (f : Family) : List (List String × Sample) :=
  (m.samples.filterMap fun ((g, labels), s) => if g = f then some (labels, s) else none).mergeSort
    fun a b => Text.namesLe a.1 b.1

end Metrics

end Flowsheet
