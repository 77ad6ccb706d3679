import Flowsheet.Failure
import Flowsheet.Settings.Source
import Flowsheet.Store.Address

set_option autoImplicit false

namespace Flowsheet

structure StoreSettings where
  url : String := "redis://localhost:6379/0"
  keyStart : String := "iisim"

namespace StoreSettings

def invalidUrl : Failure := ⟨[], "invalid redis URL: unreadable", [], []⟩

def address (c : StoreSettings) : Except Failure Store.Address :=
  match Store.Address.parse? c.url with
  | some a => .ok a
  | none => .error invalidUrl

def validate (c : StoreSettings) : Except Failure Unit := do
  if c.url = "" then throw (.of .urlRequired "redis URL is required")
  let _ ← c.address

def key (c : StoreSettings) (k : String) : String :=
  if c.keyStart = "" then k else c.keyStart ++ ":" ++ k

open Yaml.Node in
def field : String → Settings.Setting StoreSettings
  | "url" => some (put text? fun s c => { c with url := s })
  | "prefix" => some (put text? fun s c => { c with keyStart := s })
  | _ => none

end StoreSettings

end Flowsheet
