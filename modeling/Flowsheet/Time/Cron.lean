import Flowsheet.Text.Case
import Flowsheet.Text.Blank
import Flowsheet.Time.Duration
import Flowsheet.Time.Zone
import Flowsheet.Word

set_option autoImplicit false

namespace Flowsheet

inductive Schedule where
  | calendar (minutes hours days months weekdays : List Nat)
  | every (period : Duration)
deriving DecidableEq, Repr

namespace Schedule

structure Column where
  least : Nat
  greatest : Nat
  names : List (String × Nat) := []

def minutes : Column := ⟨0, 59, []⟩

def hours : Column := ⟨0, 23, []⟩

def days : Column := ⟨1, 31, []⟩

def months : Column :=
  ⟨1, 12, ["jan", "feb", "mar", "apr", "may", "jun", "jul", "aug", "sep", "oct", "nov",
    "dec"].zipIdx 1⟩

def weekdays : Column :=
  ⟨0, 6, ["sun", "mon", "tue", "wed", "thu", "fri", "sat"].zipIdx⟩

def count? (s : String) : Option Nat := do
  -- A decimal number of 64 bits that is not negative; a plus sign may come first.
  let cs := match s.toList with
    | '+' :: r => r
    | r => r
  if cs.isEmpty || !cs.all Char.isDigit then none
  else
    let n := cs.foldl (fun n c => n * 10 + (c.toNat - 48)) 0
    if n < Word.half then some n else none

def value? (c : Column) (s : String) : Option Nat :=
  match c.names.lookup (Text.lower s) with
  | some n => some n
  | none => count? s

def progression (lo hi step : Nat) : List Nat :=
  (List.range (hi + 1)).filter fun n => lo ≤ n && (n - lo) % step = 0

def part? (c : Column) (s : String) : Option (List Nat) := do
  -- One part of a column: a value, a span or a star, each perhaps with a step. A single value with
  -- a step goes on to the greatest value.
  let (span, step) ← match s.splitOn "/" with
    | [span] => some (span, none)
    | [span, step] => (count? step).map fun n => (span, some n)
    | _ => none
  let ends := span.splitOn "-"
  let (lo, hi) ← match ends with
    | "*" :: _ | "?" :: _ => some (c.least, c.greatest)
    | [x] => (value? c x).map fun n => (n, n)
    | [x, y] => do some (← value? c x, ← value? c y)
    | _ => none
  let hi := if step.isSome && ends.length = 1 then c.greatest else hi
  let step := step.getD 1
  if lo < c.least || c.greatest < hi || hi < lo || step = 0 then none
  else return progression lo hi step

def column? (c : Column) (s : String) : Option (List Nat) :=
  -- A column: parts separated by commas, empty ones left out.
  (((s.splitOn ",").filter (· ≠ "")).mapM (part? c)).map List.flatten

def fields (s : String) : List String :=
  (s.toList.splitBy fun a b => Text.isBlank a == Text.isBlank b).filterMap fun cs =>
    if cs.all Text.isBlank then none else some (String.ofList cs)

def named? : String → Option Schedule
  | "@yearly" | "@annually" => some (.calendar [0] [0] [1] [1] (List.range 7))
  | "@monthly" => some (.calendar [0] [0] [1] allMonths (List.range 7))
  | "@weekly" => some (.calendar [0] [0] allDays allMonths [0])
  | "@daily" | "@midnight" => some (.calendar [0] [0] allDays allMonths (List.range 7))
  | "@hourly" => some (.calendar [0] (List.range 24) allDays allMonths (List.range 7))
  | _ => none
where
  allDays : List Nat := progression 1 31 1
  allMonths : List Nat := progression 1 12 1

def local? (s : String) : Option Schedule :=
  if s.startsWith "@" then
    match s.dropPrefix? "@every " with
    | some period => (Duration.parse? period.toString).map .every
    | none => named? s
  else
    match fields s with
    | [m, h, d, mo, w] => do
      some (.calendar (← column? minutes m) (← column? hours h) (← column? days d)
        (← column? months mo) (← column? weekdays w))
    | _ => none

def parse? (s : String) : Option Schedule :=
  match ["TZ=", "CRON_TZ="].find? fun mark => s.startsWith mark with
  | none => if s = "" then none else local? s
  | some mark =>
    let cs := s.toList.drop mark.length
    let zone := String.ofList (cs.takeWhile (· ≠ ' '))
    if Zone.isKnown zone then local? (Text.trim (String.ofList (cs.dropWhile (· ≠ ' ')))) else none

end Schedule

end Flowsheet
