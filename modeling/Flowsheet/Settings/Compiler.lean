import Flowsheet.Failure
import Flowsheet.Quantity
import Flowsheet.Settings.Source

set_option autoImplicit false

namespace Flowsheet

structure CompilerSettings where
  sourcesPath : String := "Sources"
  outputPath : String := "industries"
  templatesPath : String := ""
  concurrency : Int := 4
  minUnits : Float := 5
  maxUnits : Float := 1000
  verify : Bool := true
  metricsTextfile : String := ""

namespace CompilerSettings

def validate (c : CompilerSettings) : Except Failure Unit := do
  if c.sourcesPath = "" then throw (.of .sourcesPathRequired "sources path is required")
  if c.outputPath = "" then throw (.of .outputPathRequired "output path is required")
  if c.concurrency ≤ 0 then throw (.of .compilerConcurrency "concurrency must be positive")
  if c.maxUnits < c.minUnits then
    throw (.of .unitBounds "min units must not exceed max units")

open Yaml.Node in
def field : String → Settings.Setting CompilerSettings
  | "sourcesPath" => some (put text? fun s c => { c with sourcesPath := s })
  | "outputPath" => some (put text? fun s c => { c with outputPath := s })
  | "templatesPath" => some (put text? fun s c => { c with templatesPath := s })
  | "concurrency" => some (put int? fun n c => { c with concurrency := n })
  | "minUnits" => some (put float? fun x c => { c with minUnits := x })
  | "maxUnits" => some (put float? fun x c => { c with maxUnits := x })
  | "verify" => some (put bool? fun b c => { c with verify := b })
  | "metricsTextfile" => some (put text? fun s c => { c with metricsTextfile := s })
  | _ => none

def withSources (path : String) (c : CompilerSettings) : CompilerSettings :=
  -- The environment has the last word on the sources.
  if path = "" then c else { c with sourcesPath := path }

end CompilerSettings

end Flowsheet
