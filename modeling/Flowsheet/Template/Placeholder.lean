import Flowsheet.Text.Blank
import Flowsheet.Text.Quoted

set_option autoImplicit false

namespace Flowsheet.Template

open Text (Piece shown)

-- Byte strings with places of the form `${name}`. A doubled dollar sign stands for a single one; a
-- place that holds more than a name is a pipeline, which is passed on once its commands are not empty.

def isNameStart (c : Char) : Bool := c.isAlpha || c = '_'

def isNamePart (c : Char) : Bool := isNameStart c || c.isDigit

def isName : List Char → Bool
  | [] => false
  | c :: cs => isNameStart c && cs.all isNamePart

def isGap (c : Char) : Bool :=
  c = ' ' || c = '\t' || c = '\n' || c = '\r' || c.toNat = 12

def hasBarePair : List Char → Bool
  | [] => false
  | c :: cs => (c = '|' && (cs.dropWhile isGap).head? = some '|') || hasBarePair cs

def hasEmptyCommand (body : List Char) : Bool :=
  -- A bar at either end, or two with no command between them.
  body.head? = some '|' || hasBarePair body || body.getLast? = some '|'

inductive PlaceError where
  | emptyPlace
  | emptyCommand (body : List UInt8)
deriving DecidableEq, Repr

def PlaceError.message : PlaceError → String
  | .emptyPlace => "empty placeholder"
  | .emptyCommand body => "empty command in pipeline " ++ Text.quoteBytes body

def checkBody (body : List Piece) : Except PlaceError Unit :=
  if body.isEmpty then .error .emptyPlace
  else if hasEmptyCommand (shown body) then .error (.emptyCommand (body.flatMap Piece.bytes))
  else .ok ()

def isBlank (p : Piece) : Bool := Text.isBlank p.shown

def trimmed (ps : List Piece) : List Piece := ((ps.dropWhile isBlank).reverse.dropWhile isBlank).reverse

structure Actions where
  text : List Piece
  names : List String

def Actions.prepend (ps : List Piece) (a : Actions) : Actions := { a with text := ps ++ a.text }

theorem length_lt_of_dropWhile {p : Piece → Bool} {c : Piece} {rest after : List Piece}
    (h : rest.dropWhile p = c :: after) : after.length < rest.length := by
  have hle := (List.dropWhile_sublist p (l := rest)).length_le
  simp only [h, List.length_cons] at hle
  omega

def dollarAction : List Piece := "$\x7b\"$\"\x7d".toList.map .char

-- Spells every place as an action. A place without its closing brace ends the work: what follows is left for
-- the reading of the actions to refuse.
def actions : List Piece → Except PlaceError Actions
  | [] => .ok ⟨[], []⟩
  | .char '$' :: .char '$' :: rest => (actions rest).map (·.prepend dollarAction)
  | .char '$' :: .char '\x7b' :: rest =>
    let inner := rest.takeWhile (· ≠ .char '\x7d')
    match _h : rest.dropWhile (· ≠ .char '\x7d') with
    | [] => .ok ⟨.char '$' :: .char '\x7b' :: rest, []⟩
    | _ :: after =>
      let body := trimmed inner
      if isName (shown body) then
        (actions after).map fun a =>
          ⟨.char '$' :: .char '\x7b' :: .char '.' :: body ++ .char '\x7d' :: a.text,
            String.ofList (shown body) :: a.names⟩
      else
        match checkBody body with
        | .error e => .error e
        | .ok _ => (actions after).map (·.prepend (.char '$' :: .char '\x7b' :: inner ++ [.char '\x7d']))
  | p :: rest => (actions rest).map (·.prepend [p])
termination_by ps => ps.length
decreasing_by
  · simp only [List.length_cons]; omega
  · have hlt := length_lt_of_dropWhile _h
    simp only [List.length_cons]; omega
  · have hlt := length_lt_of_dropWhile _h
    simp only [List.length_cons]; omega
  · simp only [List.length_cons]; omega

end Flowsheet.Template
