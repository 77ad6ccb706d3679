import Flowsheet.Time.Duration

set_option autoImplicit false

namespace Flowsheet

structure Stored where
  value : String
  expires : Option Int := none
deriving DecidableEq, Repr

structure Store where
  entries : List (String × Stored) := []
  clock : Int := 0
  reachable : Bool := true
deriving DecidableEq, Repr

namespace Store

inductive Unavailable where
  | mk
deriving DecidableEq, Repr

def Stored.isLive (now : Int) (v : Stored) : Bool :=
  match v.expires with
  | none => true
  | some t => now < t

def find? (s : Store) (key : String) : Option Stored :=
  (s.entries.lookup key).filter (Stored.isLive s.clock)

def keys (s : Store) : List String :=
  ((s.entries.map (·.1)).filter fun k => (s.find? k).isSome).mergeSort fun a b => decide (a ≤ b)

def remaining (s : Store) (v : Stored) : Duration :=
  match v.expires with
  | none => .zero
  | some t => ⟨t - s.clock⟩

def put (s : Store) (key : String) (v : Stored) : Store :=
  { s with entries := (key, v) :: s.entries.filter fun p => !(p.1 == key) }

def erase (s : Store) (key : String) : Store :=
  { s with entries := s.entries.filter fun p => !(p.1 == key) }

def advance (s : Store) (d : Duration) : Store := { s with clock := s.clock + d.nanoseconds }

def deadline (s : Store) (ttl : Duration) : Option Int :=
  if ttl = .zero then none else some (s.clock + ttl.nanoseconds)

abbrev Reply (α : Type) := Store × Except Unavailable α

def command {α : Type} (s : Store) (run : Store → Store × α) : Reply α :=
  if s.reachable then
    let (s', a) := run s
    (s', .ok a)
  else (s, .error .mk)

def get (s : Store) (key : String) : Reply (Option String) :=
  s.command fun s => (s, (s.find? key).map (·.value))

def set (s : Store) (key value : String) (ttl : Duration) : Reply Unit :=
  s.command fun s => (s.put key ⟨value, s.deadline ttl⟩, ())

def setIfAbsent (s : Store) (key value : String) (ttl : Duration) : Reply Bool :=
  s.command fun s =>
    match s.find? key with
    | some _ => (s, false)
    | none => (s.put key ⟨value, s.deadline ttl⟩, true)

def expire (s : Store) (key : String) (ttl : Duration) : Reply Unit :=
  s.command fun s =>
    match s.find? key with
    | none => (s, ())
    | some v =>
      if ttl.isPositive then (s.put key { v with expires := some (s.clock + ttl.nanoseconds) }, ())
      else (s.erase key, ())

def delete (s : Store) (key : String) : Reply Unit := s.command fun s => (s.erase key, ())

end Store

end Flowsheet
