import Flowsheet.Command.Line
import Flowsheet.Command.Listing
import Flowsheet.Compiler.Artifact
import Flowsheet.Industry.Dot
import Flowsheet.Metrics.Text
import Flowsheet.Settings.Load
import Flowsheet.Task.Raw

set_option autoImplicit false

namespace Flowsheet

namespace Command

abbrev Outcome := Site × String × Except Failure Unit

def release : String := "dev"

def usage : String :=
  s!"Usage:\n  {program} [command]\n\nAvailable Commands:\n" ++
    String.join (Action.all.map fun a => s!"  {a.name}\n")

def settings (sources : String) (p : Parsed) (s : Site) : Except Failure CommandSettings :=
  CommandSettings.load s.files sources (p.text "config" "./config.yaml")

def compiler (c : CommandSettings) (cached : Bool) (s : Site) : Except Failure Compiler :=
  Compiler.create c.compiler s.files none .schema
    (if cached then some { keyStart := c.store.key "" } else none) .plain

def plainCompiler (sources : String) (p : Parsed) (s : Site) : Except Failure Compiler := do
  let c ← settings sources p s
  c.validate
  compiler c false s

def compileSettings (sources : String) (p : Parsed) (s : Site) : Except Failure CommandSettings := do
  let c ← settings sources p s
  let orElse (name old : String) : String :=
    if p.text name "" = "" then old else p.text name ""
  let c := { c with compiler := { c.compiler with
    outputPath := orElse "output" c.compiler.outputPath
    verify := c.compiler.verify && !p.isOn "no-verify"
    metricsTextfile := orElse "metrics-textfile" c.compiler.metricsTextfile } }
  c.validate
  return c

def writeMetrics (path : String) (s : Site) : Site :=
  -- Writes all metrics to a file of an existing directory. That this fails is no failure.
  let dir := Path.join [path, ".."]
  if path = "" then s
  else
    match s.files.locate dir with
    | .ok (place, .directory) =>
      let target := place ++ [Path.base path]
      if s.files.get? target = some .directory then s
      else { s with files := s.files.set target (.file { data := Text.bytes s.metrics.text }) }
    | _ => s

def compile (sources : String) (p : Parsed) (s : Site) : Outcome :=
  match compileSettings sources p s with
  | .error f => (s, "", .error f)
  | .ok c =>
    match compiler c c.buildCache s with
    | .error f => (s, "", .error f)
    | .ok comp =>
      let (s, results, failed) :=
        if p.args.isEmpty then comp.compileAll c.compiler.sourcesPath false s
        else
          let (s, rs, fs) := comp.jobs false p.args s
          (s, rs, Failure.collect fs)
      let out := String.join (results.map (resultLine c.compiler.outputPath))
      let s := writeMetrics c.compiler.metricsTextfile s
      (s, out, match failed with | none => .ok () | some f => .error f)

def check (c : Compiler) : List String → Site → Site × List String × List Failure
  | [], s => (s, [], [])
  | dir :: rest, s =>
    let name := Path.base dir
    let (s, r) := c.compile dir false s
    let (s, lines, fs) := check c rest s
    match r with
    | .ok _ => (s, s!"✓ {name}\n" :: lines, fs)
    | .error f => (s, s!"✗ {name}: {f.message}\n" :: lines, f.within s!"industry {name}" :: fs)

def validateSettings (sources : String) (p : Parsed) (s : Site) : Except Failure CommandSettings := do
  let c ← settings sources p s
  let c := { c with compiler := { c.compiler with verify := true } }
  c.validate
  return c

def validate (sources : String) (p : Parsed) (s : Site) : Outcome :=
  let prepared : Except Failure (Compiler × List String) := do
    let c ← validateSettings sources p s
    let comp ← compiler c false s
    let dirs ← if p.args.isEmpty then s.files.industries c.compiler.sourcesPath else pure p.args
    return (comp, dirs)
  match prepared with
  | .error f => (s, "", .error f)
  | .ok (comp, dirs) =>
    let (s, lines, fs) := check comp dirs s
    let result := match Failure.collect fs with
      | none => .ok ()
      | some f => .error (f.within s!"{fs.length} of {dirs.length} industries failed validation")
    (s, String.join lines, result)

def present (sources : String) (p : Parsed) (s : Site)
    (text : Industry Float → Except Failure String) : Outcome :=
  match plainCompiler sources p s with
  | .error f => (s, "", .error f)
  | .ok c =>
    let (s, i) := c.load (p.args.headD "") s
    match i.bind text with
    | .error f => (s, "", .error f)
    | .ok out => (s, out, .ok ())

def dag (sources : String) (p : Parsed) (s : Site) : Outcome :=
  present sources p s fun i =>
    if p.isOn "dot" then return (← i.dot.mapError (·.failure)) ++ "\n" else graphText i

def evaluate (sources : String) (p : Parsed) (s : Site) : Outcome :=
  present sources p s fun i => do
    return valuesText (← (i.evaluate (p.number "outcome")).mapError (·.failure))

def enqueueAll (queue : Queue) (output : String) : List String → Site → Outcome
  | [], s => (s, "", .ok ())
  | dir :: rest, s =>
    let payload : Payload := { industryDir := dir, outputDir := output, trigger := Payload.manual }
    match queue.enqueueRaw s (.ofPayload payload) with
    | (s, .ok _) =>
      let (s, out, r) := enqueueAll queue output rest s
      (s, s!"queued {dir}\n" ++ out, r)
    | (s, .error f) =>
      if f.hasCause .taskAlreadyQueued then
        let (s, out, r) := enqueueAll queue output rest s
        (s, s!"already queued {dir}\n" ++ out, r)
      else (s, "", .error (f.within s!"failed to enqueue {dir}"))

def enqueue (sources : String) (p : Parsed) (s : Site) : Outcome :=
  let prepared : Except Failure CommandSettings := do
    let c ← settings sources p s
    c.store.validate
    return c
  match prepared with
  | .error f => (s, "", .error f)
  | .ok c => enqueueAll ⟨c.store.key compileQueue⟩ (p.text "output" "") p.args s

def logLevels : List String :=
  ["panic", "fatal", "error", "warn", "warning", "info", "debug", "trace"]

def worker (sources : String) (p : Parsed) (s : Site) : Outcome :=
  let checked : Except Failure Unit := do
    let c ← WorkerSettings.load s.files sources (p.text "config" WorkerSettings.defaultPath)
    if !logLevels.contains (Text.lower c.logging) then
      let level := Text.quote c.logging
      throw ⟨[], s!"invalid logging level {level}: not a valid logrus Level: {level}", [], []⟩
    c.validate.mapError (·.within "invalid configuration")
  (s, "", checked)

def version (p : Parsed) : String :=
  if p.isOn "short" then s!"{release}\n" else s!"{program} {release}\n"

def run (sources : String) (args : List String) (s : Site) : Outcome :=
  match parse args with
  | .error f => (s, "", .error f)
  | .ok .help => (s, usage, .ok ())
  | .ok (.run a p) =>
    match a with
    | .compile => compile sources p s
    | .validate => validate sources p s
    | .dag => dag sources p s
    | .evaluate => evaluate sources p s
    | .enqueue => enqueue sources p s
    | .worker => worker sources p s
    | .version => (s, version p, .ok ())
    | .help | .completion => (s, usage, .ok ())

end Command

end Flowsheet
