import Flowsheet.Settings.Api
import Flowsheet.Settings.Compiler
import Flowsheet.Settings.Scheduler
import Flowsheet.Settings.Store

set_option autoImplicit false

namespace Flowsheet

structure WorkerSettings where
  logging : String := "info"
  metricsAddr : String := ":9090"
  healthCheckAddr : String := ""
  profilerAddr : String := ""
  concurrency : Int := 10
  shutdownTimeout : Duration := .ofSeconds 30
  cacheTTL : Duration := .ofSeconds 86400
  store : StoreSettings := {}
  compiler : CompilerSettings := {}
  scheduler : SchedulerSettings := {}
  api : ApiSettings := {}

structure CommandSettings where
  compiler : CompilerSettings := {}
  store : StoreSettings := {}
  buildCache : Bool := false

def compileQueue : String := "compile"

namespace WorkerSettings

def validate (c : WorkerSettings) : Except Failure Unit := do
  if c.concurrency ≤ 0 then throw (.of .workerConcurrency "concurrency must be positive")
  if !c.shutdownTimeout.isPositive then
    throw (.of .workerShutdownTimeout "shutdownTimeout must be positive")
  if c.metricsAddr = "" then throw (.of .metricsAddrRequired "metricsAddr is required")
  c.store.validate.mapError (·.within "redis")
  c.compiler.validate.mapError (·.within "compiler")
  c.scheduler.validate.mapError (·.within "scheduler")
  c.api.validate.mapError (·.within "api")

def queues (c : WorkerSettings) : List (String × Nat) := [(c.store.key compileQueue, 10)]

open Settings Yaml.Node in
def field : String → Setting WorkerSettings
  | "logging" => some (put text? fun s c => { c with logging := s })
  | "metricsAddr" => some (put text? fun s c => { c with metricsAddr := s })
  | "healthCheckAddr" => some (put text? fun s c => { c with healthCheckAddr := s })
  | "pprofAddr" => some (put text? fun s c => { c with profilerAddr := s })
  | "concurrency" => some (put int? fun n c => { c with concurrency := n })
  | "shutdownTimeout" => some (put duration? fun d c => { c with shutdownTimeout := d })
  | "cacheTTL" => some (put duration? fun d c => { c with cacheTTL := d })
  | "redis" => part? StoreSettings.field (·.store) fun s c => { c with store := s }
  | "compiler" => part? CompilerSettings.field (·.compiler) fun s c => { c with compiler := s }
  | "scheduler" =>
    part? SchedulerSettings.field (·.scheduler) fun s c => { c with scheduler := s }
  | "api" => part? ApiSettings.field (·.api) fun s c => { c with api := s }
  | _ => none

end WorkerSettings

namespace CommandSettings

def validate (c : CommandSettings) : Except Failure Unit := do
  c.compiler.validate.mapError (·.within "compiler")
  if c.buildCache then c.store.validate.mapError (·.within "redis")

open Settings Yaml.Node in
def field : String → Setting CommandSettings
  | "compiler" => part? CompilerSettings.field (·.compiler) fun s c => { c with compiler := s }
  | "redis" => part? StoreSettings.field (·.store) fun s c => { c with store := s }
  | "buildCache" => some (put bool? fun b c => { c with buildCache := b })
  | _ => none

end CommandSettings

end Flowsheet
