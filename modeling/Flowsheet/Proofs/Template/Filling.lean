import Flowsheet.Proofs.Template.Tokens
import Flowsheet.Proofs.Text.Utf8
import Flowsheet.Template.Basic

set_option autoImplicit false

namespace Flowsheet.Template

open Text (Piece)

namespace Segment

def node : Segment → Node
  | .text s => .text s
  | .dollar => .action ⟨[], false, [[.text (Text.bytes "$")]]⟩
  | .place x => .action ⟨[], false, [[.field [x]]]⟩

def output? (values : List (String × List UInt8)) : Segment → Option (List UInt8)
  | .text s => some s
  | .dollar => some (Text.bytes "$")
  | .place x => values.lookup x

end Segment

section Nodes

variable {known : String → Bool} {rest : List Token} {declared : List String}

def Node.before (n : Node) : List Node × Parser.Stop × Parser → List Node × Parser.Stop × Parser
  | (ns, stop, s) => (n :: ns, stop, s)

theorem nodes_segment (seg : Segment) (fuel : Nat) :
    Parser.nodes known (fuel + 5) ⟨seg.tokens ++ rest, declared⟩ =
      (Parser.nodes known (fuel + 4) ⟨rest, declared⟩).map seg.node.before := by
  -- an action is read as a pipeline of one command, which takes no more than four steps
  have after (n : Node) :
      (Parser.nodes known (fuel + 4) ⟨rest, declared⟩).bind (fun later => some (n.before later)) =
        (Parser.nodes known (fuel + 4) ⟨rest, declared⟩).map n.before := by
    cases Parser.nodes known (fuel + 4) ⟨rest, declared⟩ <;> rfl
  cases seg with
  | text s => exact after (.text s)
  | dollar => exact after (.action ⟨[], false, [[.text (Text.bytes "$")]]⟩)
  | place x => exact after (.action ⟨[], false, [[.field [x]]]⟩)

theorem nodes_segments (segs : List Segment) {fuel : Nat} (enough : segs.length + 5 ≤ fuel) :
    Parser.nodes known fuel ⟨segs.flatMap Segment.tokens, declared⟩ =
      some (segs.map Segment.node, .finished, ⟨[], declared⟩) := by
  induction segs generalizing fuel with
  | nil =>
    obtain ⟨fuel, rfl⟩ : ∃ n, fuel = n + 1 := Nat.exists_eq_add_of_le' (by omega)
    rfl
  | cons seg segs ih =>
    rw [List.length_cons] at enough
    obtain ⟨fuel, rfl⟩ : ∃ n, fuel = n + 5 := Nat.exists_eq_add_of_le' (by omega)
    rw [List.flatMap_cons, nodes_segment, ih (by omega)]
    rfl

end Nodes

section Values

variable (values : List (String × List UInt8))

def data : List (List UInt8 × Datum) := values.map fun (k, v) => (Text.bytes k, .text v)

theorem lookup_data (x : String) : (data values).lookup (Text.bytes x) = (values.lookup x).map .text := by
  induction values with
  | nil => rfl
  | cons entry values ih =>
    obtain ⟨k, v⟩ := entry
    have same : (Text.bytes x == Text.bytes k) = (x == k) := by
      rw [Bool.eq_iff_iff, beq_iff_eq, beq_iff_eq]
      exact ⟨Text.bytes_injective, congrArg Text.bytes⟩
    simp only [data, List.map_cons, List.lookup_cons, same]
    cases x == k with
    | true => rfl
    | false => exact ih

variable {calls : Calls} {moment : Moment}

theorem renderNode_segment (seg : Segment) (fuel : Nat) (vars : Variables) (out : List (List UInt8)) :
    renderNode calls (.map (data values)) (fuel + 4) moment vars out seg.node =
      (seg.output? values).map fun text => (text :: out, vars) := by
  cases seg with
  | text s => rfl
  | dollar => rfl
  | place x =>
    have field : fieldsOf? (.map (data values)) [x] = (values.lookup x).map .text := by
      rw [← lookup_data]
      simp [fieldsOf?, fieldOf?]
    have read : renderNode calls (.map (data values)) (fuel + 4) moment vars out (Segment.place x).node =
        (fieldsOf? (.map (data values)) [x]).map fun d => (d.printed :: out, vars) := by
      have command (here : Moment) : evalCommand calls (.map (data values)) (fuel + 2) here vars [.field [x]] none =
          fieldsOf? (.map (data values)) [x] := rfl
      rw [Segment.node, renderNode, evalPipeline]
      simp only [List.zipIdx_cons, List.zipIdx_nil, List.foldlM_cons, List.foldlM_nil, command]
      cases fieldsOf? (.map (data values)) [x] <;> rfl
    rw [read, field, Segment.output?]
    cases values.lookup x <;> rfl

theorem renderNodes_segments (segs : List Segment) {fuel : Nat} (enough : segs.length + 5 ≤ fuel)
    (vars : Variables) (out : List (List UInt8)) :
    renderNodes calls (.map (data values)) fuel moment vars out (segs.map Segment.node) =
      (segs.mapM (Segment.output? values)).map fun texts => (texts.reverse ++ out, vars) := by
  induction segs generalizing fuel out with
  | nil =>
    obtain ⟨fuel, rfl⟩ : ∃ n, fuel = n + 1 := Nat.exists_eq_add_of_le' (by omega)
    rfl
  | cons seg segs ih =>
    rw [List.length_cons] at enough
    obtain ⟨fuel, rfl⟩ : ∃ n, fuel = n + 5 := Nat.exists_eq_add_of_le' (by omega)
    rw [List.map_cons, renderNodes, renderNode_segment, List.mapM_cons]
    cases seg.output? values with
    | none => rfl
    | some text =>
      have left : segs.length + 5 ≤ fuel + 4 := by omega
      have later := ih left (text :: out)
      simp only [Option.map_some, Option.bind_eq_bind, Option.bind_some, later]
      cases segs.mapM (Segment.output? values) <;> simp

def Part.output? : Part → Option (List UInt8)
  | .plain p => some p.bytes
  | .dollar => some (Text.bytes "$")
  | .place x => values.lookup x

def joined? {α : Type} (output? : α → Option (List UInt8)) (units : List α) : Option (List UInt8) :=
  (units.mapM output?).map List.flatten

theorem joined?_cons {α : Type} (output? : α → Option (List UInt8)) (unit : α) (units : List α) :
    joined? output? (unit :: units) =
      (output? unit).bind fun s => (joined? output? units).map (s ++ ·) := by
  rw [joined?, joined?, List.mapM_cons]
  cases output? unit with
  | none => rfl
  | some s => cases units.mapM output? <;> simp

theorem joined?_ofRun_append (run : List Piece) (segs : List Segment) :
    joined? (Segment.output? values) (Segment.ofRun run ++ segs) =
      (joined? (Segment.output? values) segs).map (run.flatMap Piece.bytes ++ ·) := by
  cases run with
  | nil => simp [Segment.ofRun]
  | cons c run => exact joined?_cons _ _ _

theorem joined?_segments (run : List Piece) (parts : List Part) :
    joined? (Segment.output? values) (segments run parts) =
      (joined? (Part.output? values) parts).map (run.reverse.flatMap Piece.bytes ++ ·) := by
  induction parts generalizing run with
  | nil =>
    have ended := joined?_ofRun_append values run.reverse []
    rwa [List.append_nil] at ended
  | cons part parts ih =>
    rw [joined?_cons]
    cases part with
    | plain p =>
      rw [segments, ih]
      simp [Part.output?, Function.comp_def]
    | dollar | place x =>
      rw [segments, joined?_ofRun_append, joined?_cons, ih]
      simp [Part.output?, Segment.output?]

def Part.output : Part → List UInt8
  | .plain p => p.bytes
  | .dollar => Text.bytes "$"
  | .place x => (values.lookup x).getD []

variable {values}

theorem joined?_complete {parts : List Part}
    (complete : ∀ x ∈ Part.names parts, (values.lookup x).isSome) :
    joined? (Part.output? values) parts = some (parts.flatMap (Part.output values)) := by
  induction parts with
  | nil => rfl
  | cons part parts ih =>
    rw [joined?_cons, List.flatMap_cons]
    cases part with
    | plain p | dollar => rw [ih complete]; rfl
    | place x =>
      rw [Part.names_place, List.forall_mem_cons] at complete
      obtain ⟨s, found⟩ := Option.isSome_iff_exists.mp complete.1
      rw [ih complete.2]
      simp [Part.output?, Part.output, found]

theorem joined?_missing {parts : List Part} {x : String} (named : x ∈ Part.names parts)
    (missing : values.lookup x = none) : joined? (Part.output? values) parts = none := by
  induction parts with
  | nil => cases named
  | cons part parts ih =>
    rw [joined?_cons]
    cases part with
    | plain p | dollar => rw [ih named]; rfl
    | place y =>
      rw [Part.names_place, List.mem_cons] at named
      rcases named with rfl | later
      · rw [Part.output?, missing]; rfl
      · rw [ih later]; cases Part.output? values (.place y) <;> rfl

end Values

theorem length_segments (run : List Piece) (parts : List Part) :
    (segments run parts).length ≤ run.length + (Part.actions parts).length := by
  have ofRun (run : List Piece) : (Segment.ofRun run).length ≤ run.length := by
    cases run <;> simp [Segment.ofRun]
  have spelled (part : Part) (parts : List Part) :
      (Part.actions (part :: parts)).length = part.action.length + (Part.actions parts).length := by
    simp [Part.actions]
  induction parts generalizing run with
  | nil => exact (ofRun run.reverse).trans (by simp)
  | cons part parts ih =>
    have later := ih []
    have before := ofRun run.reverse
    rw [spelled]
    rw [List.length_nil] at later
    rw [List.length_reverse] at before
    cases part with
    | plain p =>
      have longer := ih (p :: run)
      simp only [segments, Part.action, List.length_cons, List.length_nil] at longer ⊢
      omega
    | dollar | place x =>
      have spelling : 1 ≤ dollarAction.length := by decide
      simp only [segments, Part.action, List.length_append, List.length_cons]
      omega

theorem length_le_tokens (segs : List Segment) : segs.length ≤ (segs.flatMap Segment.tokens).length := by
  induction segs with
  | nil => rfl
  | cons seg segs ih =>
    have some : 1 ≤ seg.tokens.length := by cases seg <;> simp [Segment.tokens]
    rw [List.flatMap_cons, List.length_append, List.length_cons]
    omega

theorem Reads.nodes {ps : List Piece} {parts : List Part} (read : Reads ps parts)
    (known : String → Bool) :
    parseNodes? known (Part.actions parts) = some ((segments [] parts).map Segment.node) := by
  have tokens : tokens? (Part.actions parts) = some ((segments [] parts).flatMap Segment.tokens) :=
    read.textTokens [] (by omega)
  have short := length_le_tokens (segments [] parts)
  simp only [parseNodes?, tokens, Option.bind_eq_bind, Option.bind_some]
  rw [nodes_segments _ (by omega)]
  rfl

theorem render?_segments (calls : Calls) (moment : Moment) (values : List (String × List UInt8)) (parts : List Part) :
    render? calls (8 * (Part.actions parts).length + 16) moment (data values) ((segments [] parts).map Segment.node) =
      joined? (Part.output? values) parts := by
  have short := length_segments [] parts
  rw [render?, renderNodes_segments values _ (by simp at short; omega)]
  have whole := joined?_segments values [] parts
  simp only [joined?, Option.map_map, Function.comp_def, List.append_nil, List.reverse_reverse, List.reverse_nil,
    List.flatMap_nil, List.nil_append] at whole ⊢
  exact whole

theorem Reads.parse {library : Library} {name : String} {source : List UInt8} {parts : List Part}
    (read : Reads (Text.pieces source) parts) :
    parse library name source = .ok ⟨name, source, (Part.names parts).eraseDups, library,
      (segments [] parts).map Segment.node, 8 * (Part.actions parts).length + 16⟩ := by
  rw [Template.parse, read.actions]
  simp only [read.nodes]

theorem parse_and_fill (library : Library) (name : String) (source : List UInt8) :
    (∀ parts, Reads (Text.pieces source) parts →
      ∃ t, parse library name source = .ok t ∧ t.placeholders = (Part.names parts).eraseDups ∧
        ∀ answers moment values,
          ((∀ x ∈ Part.names parts, (values.lookup x).isSome) →
            t.fill answers moment values = .ok (parts.flatMap (Part.output values))) ∧
          ((∃ x ∈ Part.names parts, values.lookup x = none) →
            ∃ failure, t.fill answers moment values = .error failure ∧ failure.causes = [.template])) ∧
      (Unterminated (Text.pieces source) →
        ∃ failure, parse library name source = .error failure ∧ failure.causes = [.template]) := by
  constructor
  · intro parts read
    refine ⟨_, read.parse, rfl, fun answers moment values => ⟨fun complete => ?_, fun ⟨x, named, missing⟩ => ?_⟩⟩
    · have filled := render?_segments ⟨library, answers⟩ moment values parts
      rw [joined?_complete complete] at filled
      simp only [fill, execute]
      rw [← data, filled]
    · have filled := render?_segments ⟨library, answers⟩ moment values parts
      rw [joined?_missing named missing] at filled
      simp only [fill, execute]
      rw [← data, filled]
      exact ⟨_, rfl, rfl⟩
  · intro unterminated
    cases spelled : actions (Text.pieces source) with
    | error e => exact ⟨unreadable name e.message, by rw [parse, spelled], rfl⟩
    | ok a =>
      have tokens : tokens? a.text = none :=
        (tokens_eq_none _).1 [] a.text (unterminated.actions a spelled)
      have unread : parseNodes? library.knows a.text = none := by simp [parseNodes?, tokens]
      simp only [parse, spelled, unread]
      exact ⟨_, rfl, rfl⟩

theorem parse_and_fill_dollars :
    (∃ t, parse .plain "t" (Text.bytes "$$$ $\x7b x \x7d$$\x7d$\x7bx\x7d$" ++ [0xFF]) = .ok t ∧ t.placeholders = ["x"] ∧
      t.fill .plain [] [("x", Text.bytes "$\x7bx\x7d$$")] =
        .ok (Text.bytes "$$ $\x7bx\x7d$$$\x7d$\x7bx\x7d$$$" ++ [0xFF]) ∧
      ∃ failure, t.fill .plain [] [] = .error failure ∧ failure.causes = [.template]) ∧
    ∃ failure, parse .plain "t" (Text.bytes "$$\x7bx\x7d$\x7b x") = .error failure ∧ failure.causes = [.template] := by
  constructor
  · have chars : Text.pieces (Text.bytes "$$$ $\x7b x \x7d$$\x7d$\x7bx\x7d$" ++ [0xFF]) =
        .char '$' :: .char '$' :: .char '$' :: .char ' ' ::
        (.char '$' :: .char '\x7b' :: ([.char ' '] ++ ['x'].map .char ++ [.char ' ']) ++
          .char '\x7d' :: .char '$' :: .char '$' :: .char '\x7d' ::
          (.char '$' :: .char '\x7b' :: ([] ++ ['x'].map .char ++ []) ++ [.char '\x7d', .char '$', .stray 0xFF])) := by
      decide +kernel
    have read : Reads (Text.pieces (Text.bytes "$$$ $\x7b x \x7d$$\x7d$\x7bx\x7d$" ++ [0xFF]))
        [.dollar, .plain (.char '$'), .plain (.char ' '), .place "x", .dollar, .plain (.char '\x7d'), .place "x",
          .plain (.char '$'), .plain (.stray 0xFF)] := by
      rw [chars]
      exact .dollar <| .plain (by decide) <| .plain (by decide) <|
        .place (by decide) (by decide) <| .dollar <| .plain (by decide) <|
          .place (by decide) (by decide) <| .plain (by decide) <| .plain (by decide) .done
    obtain ⟨t, parsed, placeholders, filled⟩ := (parse_and_fill .plain "t" _).1 _ read
    have whole := (filled .plain [] [("x", Text.bytes "$\x7bx\x7d$$")]).1 (by decide +kernel)
    have text : [Part.dollar, .plain (.char '$'), .plain (.char ' '), .place "x", .dollar, .plain (.char '\x7d'),
        .place "x", .plain (.char '$'), .plain (.stray 0xFF)].flatMap
          (Part.output [("x", Text.bytes "$\x7bx\x7d$$")]) =
        Text.bytes "$$ $\x7bx\x7d$$$\x7d$\x7bx\x7d$$$" ++ [0xFF] := by decide +kernel
    rw [text] at whole
    exact ⟨t, parsed, placeholders, whole, (filled .plain [] []).2 ⟨"x", by decide, rfl⟩⟩
  · have chars : Text.pieces (Text.bytes "$$\x7bx\x7d$\x7b x") =
        .char '$' :: .char '$' :: .char '\x7b' :: .char 'x' :: .char '\x7d' ::
          .char '$' :: .char '\x7b' :: [.char ' ', .char 'x'] := by decide +kernel
    refine (parse_and_fill .plain "t" _).2 ?_
    rw [chars]
    exact .dollar <| .plain (by decide) <| .plain (by decide) <| .plain (by decide) <| .here (by decide)

end Flowsheet.Template
