import Flowsheet.Text.Blank
import Flowsheet.Time.Duration
import Flowsheet.Url
import Flowsheet.Word

set_option autoImplicit false

namespace Flowsheet.Store

structure Address where
  network : String
  addr : String
  username : String
  password : String
  database : Int := 0
  secure : Bool := false
  dialTimeout : Duration := .zero
  readTimeout : Duration := .zero
  writeTimeout : Duration := .zero
deriving DecidableEq, Repr

namespace Address

def integer? (s : String) : Option Int :=
  let (negative, ds) := match s.toList with
    | '-' :: r => (true, r)
    | '+' :: r => (false, r)
    | r => (false, r)
  if ds.isEmpty || !ds.all Char.isDigit then none
  else
    let n : Int := Int.ofNat (ds.foldl (fun n c => n * 10 + (c.toNat - 48)) 0)
    if negative then (if n ≤ Int.ofNat Word.half then some (-n) else none)
    else if n < Int.ofNat Word.half then some n else none

def splitPort? (s : List Char) : Option (List Char × List Char) := do
  let (before, port) ← Url.cutLast ':' s
  match before with
  | '[' :: inner =>
    let (host, after) := Url.cut ']' inner
    if after = some [] && !host.contains '[' && !port.contains '[' && !port.contains ']' then
      some (host, port)
    else none
  | _ =>
    if (before ++ port).any fun c => c = ':' || c = '[' || c = ']' then none
    else some (before, port)

def server (host : String) : String × String :=
  let (h, p) := match splitPort? host.toList with
    | some (h, p) => (String.ofList h, String.ofList p)
    | none => (host, "")
  (if h = "" then "localhost" else h, if p = "" then "6379" else p)

def joinPort (host port : String) : String :=
  if host.contains ':' then "[" ++ host ++ "]:" ++ port else host ++ ":" ++ port

inductive OptionKind where
  | integer
  | duration
  | flag
  | text
deriving DecidableEq, Repr

def optionKinds : List (String × OptionKind) :=
  [("db", .integer), ("protocol", .integer), ("client_name", .text), ("max_retries", .integer),
   ("min_retry_backoff", .duration), ("max_retry_backoff", .duration),
   ("dial_timeout", .duration), ("read_timeout", .duration), ("write_timeout", .duration),
   ("pool_fifo", .flag), ("pool_size", .integer), ("pool_timeout", .duration),
   ("min_idle_conns", .integer), ("max_idle_conns", .integer), ("max_active_conns", .integer),
   ("conn_max_idle_time", .duration), ("idle_timeout", .duration),
   ("conn_max_lifetime", .duration), ("max_conn_age", .duration)]

def period? (s : String) : Option Duration :=
  -- A period in seconds or with a unit; zero and less switch it off. Nanoseconds are counted
  -- modulo 2^64.
  match integer? s with
  | some n => some (if n ≤ 0 then ⟨-1⟩ else ⟨Word.wrap (n * 1000000000)⟩)
  | none => Duration.parse? s

def isSound (kind : OptionKind) (s : String) : Bool :=
  match kind with
  | .integer => s = "" || (integer? s).isSome
  | .duration => s = "" || (period? s).isSome
  | .flag => ["true", "1", "false", "0", ""].contains s
  | .text => true

def option? (options : List (String × String)) (name : String) : Option String :=
  options.reverse.lookup name

def isReplaced (options : List (String × String)) (name : String) : Bool :=
  -- Names that stand for others are read only without them.
  (name = "idle_timeout" && (option? options "conn_max_idle_time").isSome) ||
    (name = "max_conn_age" && (option? options "conn_max_lifetime").isSome)

def optionsSound (secure : Bool) (options : List (String × String)) : Bool :=
  options.all fun (name, _) =>
    if name = "skip_verify" then secure
    else
      match optionKinds.lookup name with
      | none => false
      | some kind =>
        !isReplaced options name && isSound kind ((option? options name).getD "")

def timeout (options : List (String × String)) (name : String) : Duration :=
  match (option? options name).bind period? with
  | some d => if d.isPositive then d else .zero
  | none => .zero

def pathDatabase? (path : String) : Option Int :=
  -- The database that a path names: none for an empty path.
  match (path.splitOn "/").filter (· ≠ "") with
  | [] => some 0
  | [name] => integer? name
  | _ => none

def parse? (s : String) : Option Address := do
  let url ← Url.parse? s
  let secure := url.scheme = "rediss"
  let options := (Url.pairs url.query).map fun (k, v) => (Text.ofBytes k, Text.ofBytes v)
  let path := Text.ofBytes url.path
  let base : Address ←
    if url.scheme = "redis" || secure then do
      let (host, port) := server (Text.ofBytes url.host)
      some
        { network := "tcp", addr := joinPort host port, username := Text.ofBytes url.user
          password := Text.ofBytes url.password, database := ← pathDatabase? path, secure }
    else if url.scheme = "unix" && !path.toList.all Text.isBlank then
      some
        { network := "unix", addr := path, username := Text.ofBytes url.user
          password := Text.ofBytes url.password }
    else none
  if !optionsSound secure options then none
  else
    return { base with
      database := (((option? options "db").filter (· ≠ "")).bind integer?).getD base.database
      dialTimeout := timeout options "dial_timeout"
      readTimeout := timeout options "read_timeout"
      writeTimeout := timeout options "write_timeout" }

end Address

end Flowsheet.Store
