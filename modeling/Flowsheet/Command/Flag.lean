import Flowsheet.Decimal.Reader
import Flowsheet.Text.Quoted

set_option autoImplicit false

namespace Flowsheet.Command

inductive FlagKind where
  | text
  | number
  | switch
deriving DecidableEq, Repr

structure Flag where
  name : String
  kind : FlagKind
  short : Option Char := none
deriving DecidableEq, Repr

inductive FlagError where
  | badForm (arg : String)
  | unknown (name : String)
  | unknownShort (c : Char) (letters : String)
  | valueMissing (name : String)
  | badValue (value : String) (flag : Flag)
deriving DecidableEq, Repr

def Flag.display (f : Flag) : String :=
  match f.short with
  | some c => s!"-{c}, --{f.name}"
  | none => s!"--{f.name}"

def FlagError.message : FlagError → String
  | .badForm arg => s!"bad flag syntax: {arg}"
  | .unknown name => s!"unknown flag: --{name}"
  | .unknownShort c letters => s!"unknown shorthand flag: '{c}' in -{letters}"
  | .valueMissing name => s!"flag needs an argument: --{name}"
  | .badValue value flag =>
    s!"invalid argument {Text.quote value} for {Text.quote flag.display} flag: strconv.Parse"

namespace Flag

def truth? : String → Option Bool
  | "1" | "t" | "T" | "TRUE" | "true" | "True" => some true
  | "0" | "f" | "F" | "FALSE" | "false" | "False" => some false
  | _ => none

def accepts (f : Flag) (value : String) : Bool :=
  match f.kind with
  | .text => true
  | .number => (Decimal.readFloat? value).isSome
  | .switch => (truth? value).isSome

end Flag

structure Parsed where
  values : List (String × String) := []
  args : List String := []
deriving DecidableEq, Repr

namespace Parsed

def give (p : Parsed) (f : Flag) (value : String) : Except FlagError Parsed :=
  if f.accepts value then .ok { p with values := (f.name, value) :: p.values }
  else .error (.badValue value f)

def value? (p : Parsed) (name : String) : Option String := p.values.lookup name

def text (p : Parsed) (name fallback : String) : String := (p.value? name).getD fallback

def isOn (p : Parsed) (name : String) : Bool :=
  ((p.value? name).bind Flag.truth?).getD false

def number (p : Parsed) (name : String) : Float :=
  ((p.value? name).bind Decimal.readFloat?).getD 0

end Parsed

def splitLong (s : String) : String × Option String :=
  match s.splitOn "=" with
  | name :: value@(_ :: _) => (name, some ("=".intercalate value))
  | _ => (s, none)

def readShort (flags : List Flag) (p : Parsed) : List Char → Except FlagError Parsed
  -- Reads flags of one letter that stand together. All of them are switches.
  | [] => .ok p
  | c :: rest =>
    match flags.find? fun f => f.short = some c with
    | none => .error (.unknownShort c (String.ofList (c :: rest)))
    | some f =>
      match rest with
      | '=' :: v :: value => p.give f (String.ofList (v :: value))
      | _ => do readShort flags (← p.give f "true") rest

def readFlags (flags : List Flag) (p : Parsed) : List String → Except FlagError Parsed
  -- Reads arguments one after the other. Two dashes end the flags.
  | [] => .ok p
  | s :: rest =>
    match s.toList with
    | ['-', '-'] => .ok { p with args := p.args ++ rest }
    | '-' :: '-' :: name =>
      if name.head? = some '-' || name.head? = some '=' then .error (.badForm s)
      else
        let (name, value) := splitLong (String.ofList name)
        match flags.find? fun f => f.name = name, value, rest with
        | none, _, _ => .error (.unknown name)
        | some f, some v, rest => do readFlags flags (← p.give f v) rest
        | some f, none, rest =>
          if f.kind = .switch then do readFlags flags (← p.give f "true") rest
          else
            match rest with
            | [] => .error (.valueMissing name)
            | v :: rest => do readFlags flags (← p.give f v) rest
    | '-' :: c :: letters => do readFlags flags (← readShort flags p (c :: letters)) rest
    | _ => readFlags flags { p with args := p.args ++ [s] } rest

def takesNext (flags : List Flag) (s : String) : Bool :=
  let isSwitch (test : Flag → Bool) : Bool := flags.any fun f => f.kind = .switch && test f
  !s.contains '=' &&
    match s.toList with
    | '-' :: '-' :: name => !isSwitch fun f => f.name = String.ofList name
    | ['-', c] => !isSwitch fun f => f.short = some c
    | _ => false

def words (flags : List Flag) : List String → List String
  | [] => []
  | s :: rest =>
    if s = "--" then []
    else if takesNext flags s then
      match rest with
      | _ :: next :: rest => words flags (next :: rest)
      | _ => []
    else if s ≠ "" && !s.startsWith "-" then s :: words flags rest
    else words flags rest

def dropWord (flags : List Flag) (word : String) : List String → List String
  | [] => []
  | s :: rest =>
    if s = "--" then s :: rest
    else if takesNext flags s then
      match rest with
      | [] => [s]
      | v :: rest => s :: v :: dropWord flags word rest
    else if s = word && !s.startsWith "-" then rest
    else s :: dropWord flags word rest

end Flowsheet.Command
