import Flowsheet.Files.Basic
import Flowsheet.Settings.Worker

set_option autoImplicit false

namespace Flowsheet

namespace Settings

def unreadable : Yaml.DecodeError → Failure
  | .malformed => .of .yaml "yaml: cannot be decoded"
  | .refused reason => .of .invalidDocument s!"invalid document: {reason}"

def ofFile {σ : Type} (field : String → Setting σ) (start : σ) (files : Files) (path : String) :
    Except Failure σ := do
  let bytes ← files.read path
  (read field start bytes).mapError unreadable

def ofFileIfAny {σ : Type} (field : String → Setting σ) (start : σ) (files : Files)
    (path : String) : Except Failure σ :=
  -- A file that is not there changes nothing.
  match files.read path with
  | .error f => if f.hasCause .notExist then .ok start else .error f
  | .ok _ => ofFile field start files path

end Settings

def CompilerSettings.load (files : Files) (sources path : String) :
    Except Failure CompilerSettings := do
  if path = "" then return CompilerSettings.withSources sources {}
  return (← Settings.ofFileIfAny field {} files path).withSources sources

namespace CommandSettings

def defaultPath : String := "config.yaml"

def load (files : Files) (sources path : String) : Except Failure CommandSettings := do
  let path := if path = "" then defaultPath else path
  let c ← Settings.ofFileIfAny field {} files path
  return { c with compiler := c.compiler.withSources sources }

end CommandSettings

namespace WorkerSettings

def defaultPath : String := "worker.yaml"

def load (files : Files) (sources path : String) : Except Failure WorkerSettings := do
  -- A worker does not run without a file of its own.
  let path := if path = "" then defaultPath else path
  let c ← Settings.ofFile field {} files path
  return { c with compiler := c.compiler.withSources sources }

end WorkerSettings

end Flowsheet
