import Flowsheet.Yaml.Lexer
import Flowsheet.Yaml.Source

set_option autoImplicit false

namespace Flowsheet.Yaml

inductive Node where
  | scalar (tag : String) (plain : Bool) (text : String)
  | sequence (tag : String) (items : List Node)
  | mapping (tag : String) (entries : List (Node × Node))
  | alias (name : String) (target : Option Node)
deriving Repr, Inhabited

-- The state of reading: the tokens left, the anchors met (newest first, open ones without a node) and the tag
-- handles in force.
structure Reader where
  tokens : List Token
  anchors : List (String × Option Node) := []
  handles : List (String × String) := []

namespace Reader

def skip (r : Reader) : Reader := { r with tokens := r.tokens.drop 1 }

def standardTags : String := "tag:yaml.org,2002:"

def shortTag (tag : String) : String :=
  match tag.dropPrefix? standardTags with
  | some rest => "!!" ++ rest.toString
  | none => tag

def expand? (r : Reader) (handle suffix : String) : Option String :=
  if handle = "" then some (if suffix = "!" then "" else shortTag suffix)
  else
    match (r.handles ++ [("!", "!"), ("!!", standardTags)]).lookup handle with
    | some expansion => some (shortTag (expansion ++ suffix))
    | none => none

def properties (r : Reader) : Option (Option String × Option String × Reader) :=
  match r.tokens with
  | .anchor a :: .tag h s :: _ =>
    (r.expand? h s).map fun t => (some a, some t, r.skip.skip)
  | .tag h s :: .anchor a :: _ =>
    (r.expand? h s).map fun t => (some a, some t, r.skip.skip)
  | .anchor a :: _ => some (some a, none, r.skip)
  | .tag h s :: _ => (r.expand? h s).map fun t => (none, some t, r.skip)
  | _ => some (none, none, r)

def openAnchor (r : Reader) : Option String → Reader
  | none => r
  | some a => { r with anchors := (a, none) :: r.anchors }

def closeAnchor (r : Reader) (n : Node) : Option String → Reader
  -- Completes an anchor unless its name was given to another node meanwhile.
  | none => r
  | some a =>
    match r.anchors.lookup a with
    | some none => { r with anchors := (a, some n) :: r.anchors }
    | _ => r

def emptyNode : Node := .scalar "" true ""

def endsBlockValue : Token → Bool
  | .key | .value | .blockEnd => true
  | _ => false

mutual

-- One node. Block collections and sequences without indentation are read only where they are allowed.
def node (block indentless : Bool) : Nat → Reader → Option (Node × Reader)
  | 0, _ => none
  | fuel + 1, r =>
    match r.tokens with
    | .alias a :: _ =>
      match r.anchors.lookup a with
      | some target => some (.alias a target, r.skip)
      | none => none
    | _ =>
      match r.properties with
      | none => none
      | some (anchor, tag, r) =>
        let t := tag.getD ""
        let finish (result : Option (Node × Reader)) : Option (Node × Reader) :=
          result.map fun (n, r) => (n, r.closeAnchor n anchor)
        let opened := r.openAnchor anchor
        match r.tokens with
        | .scalar text plain :: _ => finish (some (.scalar t plain text, opened.skip))
        | .flowSequenceStart :: _ =>
          finish ((flowItems fuel opened.skip true).map fun (xs, r) => (.sequence t xs, r))
        | .flowMappingStart :: _ =>
          finish ((flowEntries fuel opened.skip true).map fun (xs, r) => (.mapping t xs, r))
        | tok :: _ =>
          if indentless && tok = .blockEntry then
            finish ((indentlessItems fuel opened).map fun (xs, r) => (.sequence t xs, r))
          else if block && tok = .blockSequenceStart then
            finish ((blockItems fuel opened.skip).map fun (xs, r) => (.sequence t xs, r))
          else if block && tok = .blockMappingStart then
            finish ((blockEntries fuel opened.skip).map fun (xs, r) => (.mapping t xs, r))
          else if anchor.isSome || tag.isSome then finish (some (.scalar t true "", opened))
          else none
        | [] => none

def blockItems : Nat → Reader → Option (List Node × Reader)
  | 0, _ => none
  | fuel + 1, r =>
    match r.tokens with
    | .blockEnd :: _ => some ([], r.skip)
    | .blockEntry :: next :: _ =>
      let item :=
        if next = .blockEntry || next = .blockEnd then some (emptyNode, r.skip)
        else node true false fuel r.skip
      match item with
      | none => none
      | some (n, r) => (blockItems fuel r).map fun (xs, r) => (n :: xs, r)
    | _ => none

def indentlessItems : Nat → Reader → Option (List Node × Reader)
  | 0, _ => none
  | fuel + 1, r =>
    match r.tokens with
    | .blockEntry :: next :: _ =>
      let item :=
        if next = .blockEntry || endsBlockValue next then some (emptyNode, r.skip)
        else node true false fuel r.skip
      match item with
      | none => none
      | some (n, r) => (indentlessItems fuel r).map fun (xs, r) => (n :: xs, r)
    | _ :: _ => some ([], r)
    | [] => none

def blockPart : Nat → Reader → Option (Node × Reader)
  | 0, _ => none
  | fuel + 1, r =>
    match r.tokens with
    | next :: _ =>
      if endsBlockValue next then some (emptyNode, r) else node true true fuel r
    | [] => none

def blockEntries : Nat → Reader → Option (List (Node × Node) × Reader)
  | 0, _ => none
  | fuel + 1, r =>
    match r.tokens with
    | .blockEnd :: _ => some ([], r.skip)
    | .key :: _ =>
      match blockPart fuel r.skip with
      | none => none
      | some (k, r) =>
        let value : Option (Node × Reader) :=
          match r.tokens with
          | .value :: _ => blockPart fuel r.skip
          | _ :: _ => some (emptyNode, r)
          | [] => none
        match value with
        | none => none
        | some (v, r) => (blockEntries fuel r).map fun (xs, r) => ((k, v) :: xs, r)
    | _ => none

def flowItems : Nat → Reader → Bool → Option (List Node × Reader)
  | 0, _, _ => none
  | fuel + 1, r, first =>
    match r.tokens with
    | .flowSequenceEnd :: _ => some ([], r.skip)
    | tok :: _ =>
      if !first && tok ≠ .flowEntry then none
      else
        let r := if first then r else r.skip
        match r.tokens with
        | .flowSequenceEnd :: _ => some ([], r.skip)
        | .key :: _ =>
          match flowPair fuel r.skip with
          | none => none
          | some (n, r) => (flowItems fuel r false).map fun (xs, r) => (n :: xs, r)
        | _ =>
          match node false false fuel r with
          | none => none
          | some (n, r) => (flowItems fuel r false).map fun (xs, r) => (n :: xs, r)
    | [] => none

def flowPair : Nat → Reader → Option (Node × Reader)
  | 0, _ => none
  | fuel + 1, r =>
    let key : Option (Node × Reader) :=
      match r.tokens with
      | [] => none
      | tok :: _ =>
        if tok = .value || tok = .flowEntry || tok = .flowSequenceEnd then
          some (emptyNode, r.skip)
        else node false false fuel r
    match key with
    | none => none
    | some (k, r) =>
      let value : Option (Node × Reader) :=
        match r.tokens with
        | .value :: next :: _ =>
          if next = .flowEntry || next = .flowSequenceEnd then some (emptyNode, r.skip)
          else node false false fuel r.skip
        | _ :: _ => some (emptyNode, r)
        | [] => none
      value.map fun (v, r) => (.mapping "" [(k, v)], r)

def flowEntries : Nat → Reader → Bool → Option (List (Node × Node) × Reader)
  | 0, _, _ => none
  | fuel + 1, r, first =>
    match r.tokens with
    | .flowMappingEnd :: _ => some ([], r.skip)
    | tok :: _ =>
      if !first && tok ≠ .flowEntry then none
      else
        let r := if first then r else r.skip
        match r.tokens with
        | .flowMappingEnd :: _ => some ([], r.skip)
        | .key :: next :: _ =>
          let key :=
            if next = .value || next = .flowEntry || next = .flowMappingEnd then
              some (emptyNode, r.skip)
            else node false false fuel r.skip
          match key with
          | none => none
          | some (k, r) =>
            let value : Option (Node × Reader) :=
              match r.tokens with
              | .value :: next :: _ =>
                if next = .flowEntry || next = .flowMappingEnd then some (emptyNode, r.skip)
                else node false false fuel r.skip
              | _ :: _ => some (emptyNode, r)
              | [] => none
            match value with
            | none => none
            | some (v, r) => (flowEntries fuel r false).map fun (xs, r) => ((k, v) :: xs, r)
        | _ =>
          match node false false fuel r with
          | none => none
          | some (k, r) =>
            (flowEntries fuel r false).map fun (xs, r) => ((k, emptyNode) :: xs, r)
    | [] => none

end

def directives : Nat → Bool → Reader → Option Reader
  -- The directives in front of a document: one version, and each handle once.
  | 0, _, _ => none
  | fuel + 1, versioned, r =>
    match r.tokens with
    | .versionDirective major minor :: _ =>
      if versioned || major ≠ 1 || minor ≠ 1 then none else directives fuel true r.skip
    | .tagDirective handle expansion :: _ =>
      if (r.handles.lookup handle).isSome then none
      else
        directives fuel versioned
          { r.skip with handles := (handle, expansion) :: r.handles }
    | .documentStart :: _ => some r.skip
    | _ => none

end Reader

inductive Parsed where
  | malformed
  | empty
  | document (root : Node)

def parseChars (cs : List Char) : Parsed :=
  let ts := tokens cs
  let fuel := 2 * ts.length + 4
  let content (explicit : Bool) (r : Reader) : Option (Node × Reader) :=
    match r.tokens with
    | [] => none
    | tok :: _ =>
      if explicit then
        match tok with
        | .documentStart | .documentEnd | .streamEnd | .versionDirective .. | .tagDirective .. =>
          some (Reader.emptyNode, r)
        | _ => Reader.node true false fuel r
      else Reader.node true false fuel r
  let start : Option (Option (Bool × Reader)) :=
    match ts with
    | [] => none
    | .streamEnd :: _ => some none
    | .versionDirective .. :: _ | .tagDirective .. :: _ | .documentStart :: _ =>
      match Reader.directives (ts.length + 1) false ⟨ts, [], []⟩ with
      | none => none
      | some r => some (some (true, r))
    | _ => some (some (false, ⟨ts, [], []⟩))
  match start with
  | none => .malformed
  | some none => .empty
  | some (some (explicit, r)) =>
    match content explicit r with
    | some (n, r') => if r'.tokens.isEmpty then .malformed else .document n
    | none => .malformed

def parse (bytes : List UInt8) : Parsed :=
  match chars? bytes with
  | none => .malformed
  | some cs => parseChars cs

end Flowsheet.Yaml
