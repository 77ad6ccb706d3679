import Flowsheet.Template.Format
import Flowsheet.Template.Placeholder
import Flowsheet.Template.Token
import Flowsheet.Text.Blank
import Flowsheet.Text.Case
import Flowsheet.Word

set_option autoImplicit false

namespace Flowsheet.Template

open Text (Piece)

inductive Param where
  | text
  | int
  | any
deriving DecidableEq, Repr

def Param.accepts : Param → Datum → Bool
  | .any, _ => true
  | .text, .text _ => true
  | .int, .int _ => true
  | _, _ => false

structure Signature where
  fixed : List Param
  variadic : Option Param := none

def Signature.param? (f : Signature) (i : Nat) : Option Param :=
  match f.fixed[i]? with
  | some p => some p
  | none => f.variadic

def Signature.takes (f : Signature) (n : Nat) : Bool :=
  if f.variadic.isSome then f.fixed.length ≤ n else n = f.fixed.length

abbrev Library := String → Option Signature

abbrev Moment := List String

-- What functions answer. A clock or a source of random numbers has an answer of its own at every moment of
-- every run; none is an error.
abbrev Answers := Moment → String → List Datum → Option Datum

def Library.knows (l : Library) (name : String) : Bool :=
  -- The two connectives are no functions: they stop at the argument that decides.
  name = "and" || name = "or" || (l name).isSome

def dropZeroFraction (cs : List Char) : List Char :=
  let zeros := (cs.reverse.takeWhile (· = '0')).length
  match cs.reverse.drop zeros with
  | '.' :: rest => if zeros = 0 then cs else rest.reverse
  | _ => cs

def toInteger : Datum → Int
  -- The integer that arithmetic sees in a value: texts are read, fractions cut off.
  | .nil => 0
  | .bool b => if b then 1 else 0
  | .int n | .long n => n
  | .byte n => n
  | .float x =>
    match Decimal.magnitude x with
    | .finite m q =>
      let n := Int.ofNat (m * Nat.pow 2 q.toNat / Nat.pow 2 (-q).toNat)
      Word.wrap (if Decimal.isNegative x then -n else n)
    | _ => 0
  | .text s => (integer? (dropZeroFraction (Text.shown (Text.pieces s)))).getD 0
  | .list _ | .map _ => 0

def isSeparator (c : Char) : Bool :=
  if c.toNat < 0x80 then !(c.isAlphanum || c = '_') else Text.isBlank c

def title (after : Char) : List Char → List Char
  | [] => []
  | c :: cs => (if isSeparator after then Text.upperChar c else c) :: title c cs

def trimBlanks (s : List UInt8) : List UInt8 := (trimmed (Text.pieces s)).flatMap Piece.bytes

def dropBlanks (s : List UInt8) : List UInt8 :=
  -- Looks at single bytes, and takes each that it keeps for a character.
  let kept := (s.map fun b => Char.ofNat b.toNat).filter fun c => !Text.isBlank c
  if kept.length = s.length then s else Text.bytes (String.ofList kept)

def replaceFrom (old new : List UInt8) : Nat → List UInt8 → List UInt8
  -- The count is of bytes that belong to an occurrence already replaced.
  | _, [] => []
  | skip + 1, _ :: rest => replaceFrom old new skip rest
  | 0, b :: rest =>
    if old.isPrefixOf (b :: rest) then new ++ replaceFrom old new (old.length - 1) rest
    else b :: replaceFrom old new 0 rest

def replaceAll (old new s : List UInt8) : List UInt8 :=
  if old.isEmpty then new ++ (Text.pieces s).flatMap fun p => p.bytes ++ new
  else replaceFrom old new 0 s

def occursIn (part : List UInt8) : List UInt8 → Bool
  | [] => part.isEmpty
  | b :: rest => part.isPrefixOf (b :: rest) || occursIn part rest

def truncate (n : Int) (s : List UInt8) : List UInt8 :=
  -- The first bytes of a text, or the last ones for a negative count.
  if n < 0 then if 0 < Int.ofNat s.length + n then s.drop (s.length - n.natAbs) else s
  else s.take n.toNat

def textsOf : Datum → List (List UInt8)
  | .list items => (items.filter fun
      | .nil => false
      | _ => true).map Datum.display
  | .nil => []
  | d => [d.display]

def indent (n : Nat) (s : List UInt8) : List UInt8 :=
  let pad := Text.bytes (String.ofList (List.replicate n ' '))
  pad ++ replaceAll (Text.bytes "\n") (Text.bytes "\n" ++ pad) s

inductive Comparable where
  | bool (b : Bool)
  | int (n : Int)
  | float (x : Float)
  | text (s : List UInt8)
  | nil
  | other

def comparable : Datum → Comparable
  | .nil => .nil
  | .bool b => .bool b
  | .int n | .long n => .int n
  | .byte n => .int n
  | .float x => .float x
  | .text s => .text s
  | .list _ | .map _ => .other

def equal? (a b : Datum) : Option Bool :=
  -- Equality; none for values of different kinds. Nothing equals only nothing.
  match comparable a, comparable b with
  | .bool x, .bool y => some (x = y)
  | .int x, .int y => some (x = y)
  | .float x, .float y => some (x == y)
  | .text x, .text y => some (x = y)
  | .nil, .nil => some true
  | .nil, _ | _, .nil => some false
  | _, _ => none

def less? (a b : Datum) : Option Bool :=
  match comparable a, comparable b with
  | .int x, .int y => some (x < y)
  | .float x, .float y => some (x < y)
  | .text x, .text y => some (x < y)
  | _, _ => none

def lessOrEqual? (a b : Datum) : Option Bool := do
  return (← less? a b) || (← equal? a b)

def equalsAny? (a : Datum) : List Datum → Option Bool
  | [] => some false
  | b :: rest => do if ← equal? a b then some true else equalsAny? a rest

def elementAt? (d : Datum) (i : Datum) : Option Datum :=
  match d, i with
  | .list items, .int n | .list items, .long n => if n < 0 then none else items[n.toNat]?
  | .list items, .byte n => items[n]?
  | .text s, .int n | .text s, .long n =>
    if n < 0 then none else s[n.toNat]?.map fun b => .byte b.toNat
  | .map entries, .text k => some ((entries.lookup k).getD .nil)
  | _, _ => none

def length? : Datum → Option Int
  | .text s => some s.length
  | .list items => some items.length
  | .map entries => some entries.length
  | _ => none

def dropFront (p s : List UInt8) : List UInt8 := if p.isPrefixOf s then s.drop p.length else s

def dropBack (p s : List UInt8) : List UInt8 :=
  if p.isSuffixOf s then s.take (s.length - p.length) else s

/-- A function that answers the same at every moment. -/
structure Function extends Signature where
  apply : List Datum → Option Datum

def onText (f : List UInt8 → List UInt8) : Function where
  fixed := [.text]
  apply
    | [.text s] => some (.text (f s))
    | _ => none

def onShown (f : String → String) : Function := onText fun s => Text.bytes (f (Text.ofBytes s))

def onTexts (f : List UInt8 → List UInt8 → List UInt8) : Function where
  fixed := [.text, .text]
  apply
    | [.text a, .text b] => some (.text (f a b))
    | _ => none

def onIntText (f : Int → List UInt8 → Option (List UInt8)) : Function where
  fixed := [.int, .text]
  apply
    | [.int n, .text s] => (f n s).map .text
    | _ => none

def comparison (f : Datum → Datum → Option Bool) : Function where
  fixed := [.any, .any]
  apply
    | [a, b] => (f a b).map .bool
    | _ => none

def present : List Datum → List Datum :=
  List.filter fun
    | .nil => false
    | _ => true

def sideBySide : List Datum → List UInt8
  -- Words as an action prints them side by side: a blank only between two that are not texts.
  | [] => []
  | [d] => d.display
  | d :: e :: rest =>
    let isText : Datum → Bool
      | .text _ => true
      | _ => false
    d.display ++ Text.bytes (if isText d || isText e then "" else " ") ++ sideBySide (e :: rest)

def functions : List (String × Function) :=
  [("upper", onShown Text.upper),
   ("lower", onShown Text.lower),
   ("title", onShown fun s => String.ofList (title ' ' s.toList)),
   ("trim", onText trimBlanks),
   ("nospace", onText dropBlanks),
   ("trimSuffix", onTexts dropBack),
   ("trimPrefix", onTexts dropFront),
   ("trunc", onIntText fun n s => some (truncate n s)),
   ("repeat", onIntText fun n s => if n < 0 then none else some (List.replicate n.toNat s).flatten),
   ("indent", onIntText fun n s => if n < 0 then none else some (indent n.toNat s)),
   ("replace",
    { fixed := [.text, .text, .text]
      apply := fun
        | [.text old, .text new, .text s] => some (.text (replaceAll old new s))
        | _ => none }),
   ("contains",
    { fixed := [.text, .text]
      apply := fun
        | [.text part, .text s] => some (.bool (occursIn part s))
        | _ => none }),
   ("quote",
    { fixed := [], variadic := some .any
      apply := fun ds =>
        some (.text (Datum.spaced ((present ds).map fun d => Text.bytes (Text.quoteBytes d.display)))) }),
   ("squote",
    { fixed := [], variadic := some .any
      apply := fun ds =>
        some (.text (Datum.spaced
          ((present ds).map fun d => Text.bytes "'" ++ d.display ++ Text.bytes "'"))) }),
   ("default",
    { fixed := [.any], variadic := some .any
      apply := fun
        | d :: given :: _ => some (if given.truth then given else d)
        | [d] => some d
        | [] => none }),
   ("join",
    { fixed := [.text, .any]
      apply := fun
        | [.text sep, d] => some (.text (sep.intercalate (textsOf d)))
        | _ => none }),
   ("add",
    { fixed := [], variadic := some .any
      apply := fun ds => some (.long (ds.foldl (fun n d => Word.wrap (n + toInteger d)) 0)) }),
   ("mul",
    { fixed := [.any], variadic := some .any
      apply := fun
        | d :: ds => some (.long (ds.foldl (fun n e => Word.wrap (n * toInteger e)) (toInteger d)))
        | [] => none }),
   ("not",
    { fixed := [.any]
      apply := fun
        | [d] => some (.bool !d.truth)
        | _ => none }),
   ("eq",
    { fixed := [.any], variadic := some .any
      apply := fun
        | a :: b :: rest => (equalsAny? a (b :: rest)).map .bool
        | _ => none }),
   ("ne", comparison fun a b => (equal? a b).map (!·)),
   ("lt", comparison less?),
   ("le", comparison lessOrEqual?),
   ("gt", comparison fun a b => (lessOrEqual? a b).map (!·)),
   ("ge", comparison fun a b => (less? a b).map (!·)),
   ("len",
    { fixed := [.any]
      apply := fun
        | [d] => (length? d).map .int
        | _ => none }),
   ("index",
    { fixed := [.any], variadic := some .any
      apply := fun
        | .nil :: _ | [] => none
        | d :: is => is.foldlM elementAt? d }),
   ("printf",
    { fixed := [.text], variadic := some .any
      apply := fun
        | .text f :: ds => some (.text (fillFormat (f.length + 2) (Text.pieces f) ds))
        | _ => none }),
   ("print", { fixed := [], variadic := some .any, apply := fun ds => some (.text (sideBySide ds)) }),
   ("println",
    { fixed := [], variadic := some .any
      apply := fun ds => some (.text (Datum.spaced (ds.map Datum.display) ++ Text.bytes "\n")) })]

def Library.plain : Library := fun name => (functions.lookup name).map (·.toSignature)

def Answers.plain : Answers := fun _ name args => (functions.lookup name).bind (·.apply args)

end Flowsheet.Template
