import Flowsheet.Failure
import Flowsheet.Settings.Source

set_option autoImplicit false

namespace Flowsheet

structure ApiSettings where
  enabled : Bool := false
  addr : String := ":8080"
  shutdownTimeout : Duration := .ofSeconds 10

namespace ApiSettings

def validate (c : ApiSettings) : Except Failure Unit := do
  if c.enabled then
    if c.addr = "" then
      throw (.of .apiAddrRequired "api address is required when the api is enabled")
    if !c.shutdownTimeout.isPositive then
      throw (.of .apiShutdownTimeout "api shutdown timeout must be positive")

open Yaml.Node in
def field : String → Settings.Setting ApiSettings
  | "enabled" => some (put bool? fun b c => { c with enabled := b })
  | "addr" => some (put text? fun s c => { c with addr := s })
  | "shutdownTimeout" =>
    some (put Settings.duration? fun d c => { c with shutdownTimeout := d })
  | _ => none

end ApiSettings

end Flowsheet
