import Flowsheet.Json.Bytes
import Flowsheet.Json.Record
import Flowsheet.Store.Basic
import Flowsheet.Time.Instant

set_option autoImplicit false

namespace Flowsheet

structure Build where
  industry : List UInt8 := []
  script : List UInt8 := []
  processes : Int := 0
  runId : List UInt8 := []
  updatedAt : Instant := .zero
  ttl : Duration := .zero
deriving DecidableEq, Repr

namespace Build

def encode (b : Build) : String :=
  Json.objectText
    [("industry", Json.quoteBytes true b.industry), ("script", Json.quoteBytes true b.script),
      ("processes", (Json.ofInt b.processes).render), ("run_id", Json.quoteBytes true b.runId),
      ("updated_at", Json.quote true b.updatedAt.text), ("ttl", (Json.ofInt b.ttl.nanoseconds).render)]

-- JSON has no place for a stray byte: it is kept as U+FFFD.
def shown (b : Build) : Build :=
  let seen (s : List UInt8) := Text.bytes (Text.ofBytes s)
  { b with industry := seen b.industry, script := seen b.script, runId := seen b.runId }

def field : String → Option (Json → Option (Build → Build))
  | "industry" => some (Json.string? fun s b => { b with industry := Text.bytes s })
  | "script" => some (Json.string? fun s b => { b with script := Text.bytes s })
  | "processes" => some (Json.int? fun n b => { b with processes := n })
  | "run_id" => some (Json.string? fun s b => { b with runId := Text.bytes s })
  | "updated_at" => some fun
    | .string s => (Instant.parse? s).map fun t b => { b with updatedAt := t }
    | _ => none
  | "ttl" => some (Json.int? fun n b => { b with ttl := ⟨n⟩ })
  | _ => none

def decode? (text : String) : Option Build := do
  Json.record? field {} (← Json.spelled? text)

def isStale (now : Instant) (b : Build) : Bool :=
  b.ttl.isPositive && b.ttl < now.since b.updatedAt

end Build

structure Cache where
  keyStart : String
  ttl : Duration := .zero
deriving DecidableEq, Repr

namespace Cache

open Store

def key (c : Cache) (digest : String) : String := c.keyStart ++ "build:" ++ digest

def get (c : Cache) (s : Store) (now : Instant) (digest : String) : Reply (Option Build) :=
  -- The build kept under a digest, if there is one. A stale one is removed.
  match s.get (c.key digest) with
  | (s, .error e) => (s, .error e)
  | (s, .ok none) => (s, .ok none)
  | (s, .ok (some text)) =>
    match Build.decode? text with
    | none => (s, .error .mk)
    | some b =>
      if b.isStale now then ((s.delete (c.key digest)).1, .ok none) else (s, .ok (some b))

def madeAt (now : Instant) (b : Build) : Instant := if b.updatedAt.isZero then now else b.updatedAt

def set (c : Cache) (s : Store) (now : Instant) (digest : String) (b : Build) : Reply Unit :=
  -- Keeps a build under a digest, unless its time cannot be written.
  let b := { b with updatedAt := madeAt now b, ttl := c.ttl }
  if b.updatedAt.isWritable then s.set (c.key digest) b.encode c.ttl else (s, .error .mk)

def invalidate (c : Cache) (s : Store) (digest : String) : Reply Unit := s.delete (c.key digest)

end Cache

end Flowsheet
