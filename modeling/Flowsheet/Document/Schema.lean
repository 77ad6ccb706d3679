import Flowsheet.Document.Basic
import Flowsheet.Json.Basic

set_option autoImplicit false

namespace Flowsheet

inductive Schema where
  | text (nonEmpty : Bool)
  | identifier
  | choice (words : List String)
  | number
  | truth
  | list (items : Schema) (least most : Option Nat)
  | object (required : List String) (properties : List (String × Schema))

namespace Schema

def pointer (path : List String) : String := "/" ++ "/".intercalate path

def violation (path : List String) (keyword reason : String) : Violation :=
  ⟨pointer path, keyword, reason⟩

def notNullable (path : List String) : List Violation :=
  [violation path "nullable" "Value is not nullable"]

def mistyped (path : List String) (expected : String) : List Violation :=
  [violation path "type" ("value must be " ++ expected)]

def isIdentifier (s : String) : Bool :=
  match s.toList with
  | [] => false
  | c :: cs => (c.isAlpha || c = '_') && cs.all fun c => c.isAlphanum || c = '_'

def identifierPattern : String := "^[A-Za-z_][A-Za-z0-9_]*$"

def wordsText (words : List String) : String :=
  "[" ++ ",".intercalate (words.map (Json.quote true)) ++ "]"

def counted (path : List String) (least most : Option Nat) (n : Nat) : List Violation :=
  (match least with
   | some k =>
     if n < k then [violation path "minItems" s!"minimum number of items is {k}"] else []
   | none => []) ++
  (match most with
   | some k =>
     if k < n then [violation path "maxItems" s!"maximum number of items is {k}"] else []
   | none => [])

def missing (path : List String) (required : List String) (present : List String) :
    List Violation :=
  (required.filter fun k => !present.contains k).map fun k =>
    violation (path ++ [k]) "required" s!"property \"{k}\" is missing"

def violations (path : List String) : Schema → Json → List Violation
  -- Every place where a value leaves its schema. Members are looked at in the order of their
  -- names.
  | .choice words, v =>
    match v with
    | .string s => if words.contains s then [] else unlisted words
    | _ => unlisted words
  | _, .null => notNullable path
  | .text nonEmpty, v =>
    match v with
    | .string s =>
      if nonEmpty && s.isEmpty then
        [violation path "minLength" "minimum string length is 1"]
      else []
    | _ => mistyped path "a string"
  | .identifier, v =>
    match v with
    | .string s =>
      if isIdentifier s then []
      else
        [violation path "pattern"
          s!"string doesn't match the regular expression \"{identifierPattern}\""]
    | _ => mistyped path "a string"
  | .number, v =>
    match v with
    | .number _ => []
    | _ => mistyped path "a number"
  | .truth, v =>
    match v with
    | .bool _ => []
    | _ => mistyped path "a boolean"
  | .list items least most, v =>
    match v with
    | .array xs =>
      counted path least most xs.length ++
        (xs.zipIdx.map fun (x, i) => items.violations (path ++ [i.repr]) x).flatten
    | _ => mistyped path "an array"
  | .object required properties, v =>
    match v with
    | .object members =>
      let present := members.map (·.1)
      ofProperties path members properties ++ missing path required present
    | _ => mistyped path "an object"
where
  unlisted (words : List String) : List Violation :=
    [violation path "enum" ("value is not one of the allowed values " ++ wordsText words)]
  ofProperties (path : List String) (members : List (String × Json)) :
      List (String × Schema) → List Violation
    | [] => []
    | (k, schema) :: rest =>
      (match members.lookup k with
       | some v => schema.violations (path ++ [k]) v
       | none => []) ++ ofProperties path members rest

def bounds : Schema := .list .number (some 2) (some 2)

def looseArgs : Schema := .list (.object ["name", "type"] []) none none

def args : Schema :=
  .list (.object ["name", "type"]
    [("from", .text false), ("name", .text false),
     ("type", .choice ["constants", "inputs", "outputs", "demands", "meta", "outcome"])])
    none none

def items (required : List String) (properties : List (String × Schema)) : Schema :=
  .list (.object required properties) none none

def process : Schema :=
  .object ["name", "short_name", "id", "type"]
    [("constants", items ["name", "value"]
      [("citation", .text false), ("description", .text false), ("name", .identifier),
       ("range", bounds), ("source", .text false), ("units", .text false), ("value", .number)]),
     ("debug", .truth),
     ("description", .text false),
     ("id", .text true),
     ("inputs", items ["name"]
      [("description", .text false), ("from", .text false), ("name", .identifier),
       ("range", bounds), ("units", .text false)]),
     ("name", .text true),
     ("outputs", items ["name", "operation", "args"]
      [("args", args), ("description", .text false), ("name", .identifier),
       ("operation", .text true), ("range", bounds), ("tests", .list .number none none),
       ("units", .text false)]),
     ("short_name", .identifier),
     ("type", .choice ["process"])]

def industry : Schema :=
  .object ["name", "short_name", "id", "type", "outcome"]
    [("constants", items ["name", "value"]
      [("name", .identifier), ("range", bounds), ("value", .number)]),
     ("demands", items ["name", "operation", "args", "used"]
      [("args", looseArgs), ("meta", .text false), ("name", .identifier),
       ("operation", .text true), ("tests", .list .number none none), ("units", .text false),
       ("used", .text true)]),
     ("description", .text false),
     ("id", .text true),
     ("meta", items ["name", "operation", "args"]
      [("args", looseArgs), ("name", .identifier), ("operation", .text true)]),
     ("name", .text true),
     ("outcome", .list (.object ["name", "units"]
      [("description", .text false), ("name", .identifier), ("range", bounds),
       ("same_result", .text false), ("tests", .list .number none none),
       ("units", .text false)]) (some 1) (some 1)),
     ("outputs", items ["name", "operation", "args"]
      [("args", looseArgs), ("name", .identifier), ("operation", .text true)]),
     ("short_name", .identifier),
     ("type", .choice ["industry"])]

def ofKind : Kind → Schema
  | .process => process
  | .industry => industry

end Schema

namespace Document

def checkSchema (d : Document) : Except Failure Unit := do
  let kind ← d.kind
  match d.raw.json? with
  | none =>
    .error (.of .schemaValidation s!"schema validation failed: {d.path}: json: unsupported value")
  | some v =>
    match (Schema.ofKind kind).violations [] v with
    | [] => .ok ()
    | v :: vs =>
      .error
        { causes := [.schemaValidation]
          message := s!"schema validation failed: {d.path}: Error at {Text.quote v.pointer}"
          violations := v :: vs }

end Document

end Flowsheet
