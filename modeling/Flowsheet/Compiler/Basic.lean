import Flowsheet.Digest
import Flowsheet.Document.Schema
import Flowsheet.Files.Discovery
import Flowsheet.Industry.Check
import Flowsheet.Industry.Verify
import Flowsheet.Metrics.Basic
import Flowsheet.Script.Basic
import Flowsheet.Settings.Compiler
import Flowsheet.Store.Cache
import Flowsheet.Task.Basic
import Flowsheet.Template.Load

set_option autoImplicit false

namespace Flowsheet

inductive Validator where
  | schema
  | acceptAll
  | rejectAll
deriving DecidableEq, Repr

def Validator.check (v : Validator) (d : Document) : Except Failure Unit :=
  match v with
  | .schema => d.checkSchema
  | .acceptAll => .ok ()
  | .rejectAll => .error (.of .schemaValidation "schema validation failed")

structure Site where
  files : Files := {}
  store : Store := {}
  tasks : Tasks := []
  queues : List String := []
  metrics : Metrics := .initial
  seen : List String := []
  runs : Nat := 0
  now : Instant := ⟨0⟩

namespace Site

def measure (record : Metrics → Metrics) (s : Site) : Site := { s with metrics := record s.metrics }

def started (name : String) (s : Site) : Site :=
  { s with runs := s.runs + 1 }.measure (Metrics.compilationStarted name)

end Site

structure Compiler where
  settings : CompilerSettings
  templates : Templates
  validator : Validator := .schema
  cache : Option Cache := none

structure Compiled where
  dir : String
  industry : String
  script : List UInt8
  digest : String
  processes : Int
  queue : List String := []
  cached : Bool := false
  runId : String := ""

def Compiled.filename (r : Compiled) : String := Text.lower r.industry ++ ".py"

/-- What a run meets: how long it may go on, which it asks before each document that is read and each
use of the store, and what the functions of templates answer. -/
structure Context where
  ends : Option Nat := none
  timedOut : Bool := false
  answers : Template.Answers := .plain

namespace Context

def isOver (ctx : Context) (n : Nat) : Bool := ctx.ends.any (· ≤ n)

def failure (ctx : Context) : Failure :=
  if ctx.timedOut then .of .deadlineExceeded "context deadline exceeded"
  else .of .canceled "context canceled"

def ofCancelled (isCancelled : Bool) : Context := { ends := if isCancelled then some 0 else none }

instance : Coe Bool Context := ⟨ofCancelled⟩

end Context

namespace Compiler

def create (settings : CompilerSettings) (files : Files) (templates : Option Templates)
    (validator : Validator) (cache : Option Cache) (library : Template.Library) :
    Except Failure Compiler := do
  settings.validate.mapError (·.within "invalid configuration")
  let templates ← match templates with
    | some ts => pure ts
    | none => Templates.load library files settings.templatesPath
  return { settings, templates, validator, cache }

-- Everything a compilation depends on, as one byte string: the documents with their paths, the templates and
-- the settings.
def preimage (c : Compiler) (docs : List (String × Document)) : List UInt8 :=
  docs.flatMap (fun (path, d) => Text.bytes path ++ d.data) ++
    c.templates.sources.flatten ++
    Text.bytes (s!"{Quantity.general c.settings.minUnits}:{Quantity.general c.settings.maxUnits}:{c.settings.verify}")

def document (ctx : Context) : ((String × String) × File) × Nat → Except Failure (String × Document)
  | (((path, inside), f), n) => do
    if ctx.isOver n then throw ctx.failure
    return (inside, ← Document.decode path (← f.content path))

def documents (files : Files) (dir : String) (ctx : Context) :
    Except Failure (List (String × Document)) := do
  let found ← (files.documents dir).mapError (·.within s!"failed to list documents of {dir}")
  found.zipIdx.mapM (document ctx)

def read (c : Compiler) (files : Files) (dir : String) (ctx : Context) :
    Except Failure (List Document × String) := do
  let docs ← documents files dir ctx
  return (docs.map (·.2), Digest.hex (Digest.sha256 (c.preimage docs)))

structure Gathered where
  industry : Option (String × IndustryRecord Float) := none
  processes : List (ProcessRecord Float) := []

def gather (v : Validator) (g : Gathered) (d : Document) : Except Failure Gathered := do
  v.check d
  match ← d.kind with
  | .process => return { g with processes := g.processes ++ [← d.process] }
  | .industry =>
    match g.industry with
    | some (path, _) =>
      throw (.of .multipleIndustries
        s!"more than one industry document found: {path} and {d.path}")
    | none => return { g with industry := some (d.path, ← d.industry) }

def gatherAll (v : Validator) : Gathered → List Document → List String × Except Failure Gathered
  -- Adds documents up to the first that is refused, and tells which ones were looked at.
  | g, [] => ([], .ok g)
  | g, d :: rest =>
    match gather v g d with
    | .error f => ([d.path], .error f)
    | .ok g' =>
      let (seen, result) := gatherAll v g' rest
      (d.path :: seen, result)

def register (i : Industry Float) (r : ProcessRecord Float) : Except Failure (Industry Float) := do
  i.addProcess r.id (← r.compile)

def assemble (c : Compiler) (dir : String) (g : Gathered) : Except Failure (Industry Float) := do
  match g.industry with
  | none => throw (.of .noIndustry s!"no industry document found in {dir}")
  | some (_, r) =>
    let m ← r.compile
    let empty : Industry Float :=
      { metaProcess := some m, defaultBounds := (c.settings.minUnits, c.settings.maxUnits) }
    let i ← g.processes.foldlM register empty
    i.check
    return i

def build (c : Compiler) (dir : String) (docs : List Document) :
    List String × Except Failure (Industry Float) :=
  let (seen, g) := gatherAll c.validator {} docs
  (seen, g.bind (c.assemble dir))

def record (c : Compiler) (seen : List String) (s : Site) : Site :=
  -- Keeps a record of documents, where no schema decides on them.
  if c.validator = .schema then s else { s with seen := s.seen ++ seen }

def load (c : Compiler) (dir : String) (s : Site) : Site × Except Failure (Industry Float) :=
  match c.read s.files dir {} with
  | .error f => (s, .error f)
  | .ok (docs, _) =>
    let (seen, r) := c.build dir docs
    (c.record seen s, r)

def kept (c : Compiler) (name digest : String) (isOver : Bool) (s : Site) : Site × Option Build :=
  -- The build kept for a digest. Without one, or when the store fails, there is none.
  match c.cache with
  | none => (s, none)
  | some cache =>
    if isOver then (s.measure (Metrics.error "cache" "get"), none)
    else
      match cache.get s.store s.now digest with
      | (store, .error _) => ({ s with store }.measure (Metrics.error "cache" "get"), none)
      | (store, .ok none) => ({ s with store }.measure (Metrics.cacheMiss name), none)
      | (store, .ok (some b)) => ({ s with store }.measure (Metrics.cacheHit name), some b)

def keep (c : Compiler) (digest : String) (b : Build) (isOver : Bool) (s : Site) : Site :=
  -- Keeps a build. That the store fails only counts as an error.
  match c.cache with
  | none => s
  | some cache =>
    if isOver then s.measure (Metrics.error "cache" "set")
    else
      match cache.set s.store s.now digest b with
      | (store, .error _) => { s with store }.measure (Metrics.error "cache" "set")
      | (store, .ok _) => { s with store }

def verify (c : Compiler) (name : String) (i : Industry Float) (s : Site) :
    Site × Except Failure Unit :=
  if c.settings.verify then
    match i.verify with
    | .ok _ => (s.measure (Metrics.goldenCheck name "passed"), .ok ())
    | .error f => (s.measure (Metrics.goldenCheck name "failed"), .error f)
  else (s, .ok ())

def generate (c : Compiler) (answers : Template.Answers) (name dir digest : String) (i : Industry Float)
    (isOver : Bool) (s : Site) : Site × Except Failure Compiled :=
  match i.executionQueue with
  | .error fault => (s, .error fault.failure)
  | .ok queue =>
    match c.verify name i s with
    | (s, .error f) => (s, .error f)
    | (s, .ok _) =>
      match i.script c.templates answers with
      | .error f => (s, .error f)
      | .ok script =>
        let short := (i.metaProcess.map (·.shortName)).getD ""
        let runId := s!"run-{s.runs}"
        let s := c.keep digest
          { industry := Text.bytes short, script, processes := queue.length, runId := Text.bytes runId } isOver s
        (s.measure (Metrics.artifact name queue.length script.length),
          .ok { dir, industry := short, script, digest, processes := queue.length, queue, runId })

def attempt (c : Compiler) (name dir : String) (ctx : Context) (s : Site) :
    Site × String × Except Failure Compiled :=
  match c.read s.files dir ctx with
  | .error f => (s, "failed", .error f)
  | .ok (docs, digest) =>
    match c.kept name digest (ctx.isOver docs.length) s with
    | (s, some b) =>
      (s, "cached",
        .ok { dir, industry := Text.ofBytes b.industry, script := b.script, digest, processes := b.processes
              cached := true, runId := s!"run-{s.runs}" })
    | (s, none) =>
      let (seen, built) := c.build dir docs
      let s := c.record seen s
      match built with
      | .error f => (s, "failed", .error f)
      | .ok i =>
        match c.generate ctx.answers name dir digest i (ctx.isOver (docs.length + 1)) s with
        | (s, .error f) => (s, "failed", .error f)
        | (s, .ok r) => (s, "success", .ok r)

def compile (c : Compiler) (dir : String) (ctx : Context) (s : Site) :
    Site × Except Failure Compiled :=
  let name := Path.base dir
  let (s, status, r) := c.attempt name dir ctx (s.started name)
  (s.measure (Metrics.compilationEnded name status 0), r)

end Compiler

end Flowsheet
