import Flowsheet.Failure
import Flowsheet.Settings.Source
import Flowsheet.Time.Cron

set_option autoImplicit false

namespace Flowsheet

structure SchedulerSettings where
  enabled : Bool := false
  schedule : String := "@every 1h"
  leaseTTL : Duration := .ofSeconds 10
  renewInterval : Duration := .ofSeconds 3

namespace SchedulerSettings

def validate (c : SchedulerSettings) : Except Failure Unit := do
  if c.enabled then
    if c.schedule = "" then
      throw (.of .scheduleRequired "rebuild schedule is required when enabled")
    if (Schedule.parse? c.schedule).isNone then
      throw (.of .invalidSchedule "invalid rebuild schedule: unreadable")
    if c.leaseTTL ≤ c.renewInterval then
      throw (.of .invalidLease "leaseTTL must be greater than renewInterval")

open Yaml.Node in
def field : String → Settings.Setting SchedulerSettings
  | "enabled" => some (put bool? fun b c => { c with enabled := b })
  | "schedule" => some (put text? fun s c => { c with schedule := s })
  | "leaseTTL" => some (put Settings.duration? fun d c => { c with leaseTTL := d })
  | "renewInterval" => some (put Settings.duration? fun d c => { c with renewInterval := d })
  | _ => none

end SchedulerSettings

end Flowsheet
