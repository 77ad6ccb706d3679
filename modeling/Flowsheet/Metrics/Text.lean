import Flowsheet.Metrics.Basic

set_option autoImplicit false

namespace Flowsheet.Metrics

def numberText (x : Float) : String :=
  if x == 0 then "0" else Decimal.Layout.general.text x

def escapeLabel (s : String) : String :=
  String.ofList (s.toList.flatMap fun
    | '\\' => ['\\', '\\']
    | '"' => ['\\', '"']
    | '\n' => ['\\', 'n']
    | c => [c])

def labelText (pairs : List (String × String)) : String :=
  if pairs.isEmpty then ""
  else
    let items := pairs.map fun (k, v) => k ++ "=\"" ++ escapeLabel v ++ "\""
    "\x7b" ++ ",".intercalate items ++ "\x7d"

def cumulative (start : Nat) : List Nat → List Nat
  | [] => []
  | n :: rest => (start + n) :: cumulative (start + n) rest

def seriesLines (f : Family) (labels : List String) : Sample → List String
  | .number x => [f.name ++ labelText (f.labels.zip labels) ++ " " ++ numberText x]
  | .histogram h =>
    let pairs := f.labels.zip labels
    let bucket (le : String) (n : Nat) : String :=
      f.name ++ "_bucket" ++ labelText (pairs ++ [("le", le)]) ++ " " ++ n.repr
    ((Histogram.bounds.map numberText).zip (cumulative 0 h.buckets)).map (fun (le, n) => bucket le n)
      ++ [bucket "+Inf" h.count,
          f.name ++ "_sum" ++ labelText pairs ++ " " ++ numberText h.sum,
          f.name ++ "_count" ++ labelText pairs ++ " " ++ h.count.repr]

def lines (m : Metrics) : List String :=
  Family.all.flatMap fun f =>
    match m.series f with
    | [] => []
    | ss =>
      [s!"# HELP {f.name} {f.help}", s!"# TYPE {f.name} {f.kind}"] ++
        ss.flatMap fun (labels, s) => seriesLines f labels s

def text (m : Metrics) : String := String.join (m.lines.map (· ++ "\n"))

def summary (m : Metrics) : List String :=
  (m.samples.map fun ((f, labels), s) =>
    let items := (f.labels.zip labels).map fun (k, v) => k ++ "=" ++ v
    let value := match s with
      | .number x => numberText x
      | .histogram h => h.count.repr
    f.name ++ "\x7b" ++ ",".intercalate items ++ "\x7d " ++ value).mergeSort fun a b => decide (a ≤ b)

end Flowsheet.Metrics
