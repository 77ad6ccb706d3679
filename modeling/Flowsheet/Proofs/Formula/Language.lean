import Flowsheet.Proofs.Formula.Cursor
import Flowsheet.Proofs.Formula.Lexing

set_option autoImplicit false

namespace Flowsheet.Formula

variable {N : Type} [Quantity N]

def Spelled (source : List UInt8) (e : Formula N) : Prop :=
  ∃ ts : List (Token N), Splits source ts ∧ Derives .sum ts e

theorem isBlank_ofNat_of_word {b : UInt8} (word : isNamePart b = true ∨ b = 46) :
    b < 0x80 ∧ Text.isBlank (Char.ofNat b.toNat) = false := by
  have small : b.toNat < 128 := by
    rcases word with part | rfl
    · exact toNat_lt_of_isNamePart part
    · decide
  refine ⟨UInt8.lt_iff_toNat_lt.mpr small, isBlank_of_word ?_ ?_⟩
  · rwa [Text.IsAscii, toNat_ofNat_byte]
  · rwa [byte_ofNat]

theorem Splits.visible {source : List UInt8} {ts : List (Token N)} (split : Splits source ts)
    (nonempty : ts ≠ []) : (Text.pieces source).all isBlankPiece = false := by
  have first {b : UInt8} (bs : List UInt8)
      (ink : b < 0x80 ∧ Text.isBlank (Char.ofNat b.toNat) = false) :
      (Text.pieces (b :: bs)).all isBlankPiece = false := by
    rw [Text.pieces_cons_of_ascii ink.1]
    simp [isBlankPiece, ink.2]
  induction split with
  | done => exact absurd rfl nonempty
  | @blank b bs _ space _ ih =>
    have small : b < 0x80 := by
      simp only [isSpace, Bool.or_eq_true, decide_eq_true_eq] at space
      rcases space with ((rfl | rfl) | rfl) | rfl <;> decide
    rw [Text.pieces_cons_of_ascii small, List.all_cons, ih nonempty, Bool.and_false]
  | operator op _ _ => exact first _ (by cases op <;> decide)
  | openParen _ _ => exact first _ (by decide)
  | closeParen _ _ => exact first _ (by decide)
  | name start _ _ _ _ => exact first _ (isBlank_ofNat_of_word (.inl (by simp [isNamePart, start])))
  | number formed value _ _ _ _ =>
    obtain ⟨d, known, -⟩ := Option.bind_eq_some_iff.mp value
    obtain ⟨b, tail, text, kind⟩ := (Literal.hasDigit_of_decimal? known).head formed
    rw [text, List.cons_append]
    exact first _ (isBlank_ofNat_of_word (kind.imp_left fun digit => by simp [isNamePart, digit]))

def parseBytesIndexed (source : List UInt8) : Except Halt (Formula N) :=
  if (Text.pieces source).all isBlankPiece then .error (.fault .empty)
  else
    match lexemes 0 source with
    | .error f => .error (.fault f)
    | .ok ts => parseIndexed source.length ts

theorem parseBytesIndexed_eq (source : List UInt8) :
    (parseBytesIndexed source : Except Halt (Formula N)) =
      (parseBytes source).mapError fun e => .fault e.fault := by
  unfold parseBytesIndexed parseBytes
  split
  · rfl
  · cases (lexemes 0 source : Except Fault (List (Lexeme N))) with
    | error f => rfl
    | ok ls =>
      simp only [parseIndexed_eq]
      cases parseLexemes source.length ls <;> rfl

theorem parseBytes_eq_ok {source : List UInt8} {e : Formula N} :
    parseBytes source = .ok e ↔ Spelled source e := by
  rw [parseBytes_iff_derives]
  constructor
  · rintro ⟨-, ls, lexed, derived⟩
    exact ⟨tokensOf ls, splits_of_lexemes lexed, derived⟩
  · rintro ⟨ts, split, derived⟩
    have content := split.visible (List.ne_nil_of_length_pos derived.length_pos)
    obtain ⟨ls, lexed, rfl⟩ := splits_iff.mp split
    exact ⟨content, ls, lexed, derived⟩

theorem Splits.isIdentifier {bs : List UInt8} {ts : List (Token N)} (split : Splits bs ts) :
    ∀ x, .name x ∈ ts → IsIdentifier x := by
  induction split with
  | done => exact fun _ none => nomatch none
  | blank _ _ ih => exact ih
  | operator _ _ ih | openParen _ ih | closeParen _ ih | number _ _ _ _ _ ih =>
    intro x member
    rcases List.mem_cons.mp member with ⟨⟨⟩⟩ | later
    exact ih x later
  | @name b xs _ _ start parts _ _ ih =>
    intro x member
    rcases List.mem_cons.mp member with ⟨⟨⟩⟩ | later
    · exact ⟨b, xs, start, parts, rfl⟩
    · exact ih x later

theorem isIdentifier_of_parseBytes {source : List UInt8} {e : Formula N} (parsed : parseBytes source = .ok e) :
    ∀ x ∈ e.occurrences, IsIdentifier x := by
  obtain ⟨ts, split, derived⟩ := parseBytes_eq_ok.mp parsed
  exact fun x inside => split.isIdentifier x (derived.mem_of_occurs x inside)

theorem ParseError.message_eq (e : ParseError) : ∃ rest, e.message = "parse error: " ++ rest := by
  obtain ⟨fault, source⟩ := e
  have placed (what : String) (offset : Nat) :
      ∃ rest, s!"parse error: {what} at offset {offset} in " ++ Text.quoteBytes source =
        "parse error: " ++ rest :=
    ⟨_, by simp only [String.append_assoc]; rfl⟩
  cases fault with
  | empty => exact ⟨"empty expression", rfl⟩
  | unexpected text offset => cases text <;> exact placed _ offset
  | unknownToken _ offset | invalidNumber _ offset | unbalanced offset | unclosed offset =>
    exact placed _ offset

theorem parse_language (source : List UInt8) :
    (∀ e : Formula N, parseBytes source = .ok e ↔ Spelled source e) ∧
      (∀ (ts us : List (Token N)), Splits source ts → Splits source us → ts = us) ∧
      (∀ e f : Formula N, Spelled source e → Spelled source f → e = f) ∧
      ((¬ ∃ e : Formula N, Spelled source e) →
        ∃ fault : ParseError, (parseBytes source : Except ParseError (Formula N)) = .error fault ∧
          ∃ rest, fault.message = "parse error: " ++ rest) ∧
      (parseBytesIndexed source : Except Halt (Formula N)) =
        (parseBytes source).mapError (fun e => .fault e.fault) ∧
      ∀ index, (parseBytesIndexed source : Except Halt (Formula N)) ≠ .error (.outOfRange index) := by
  have indexed := parseBytesIndexed_eq (N := N) source
  refine ⟨fun e => parseBytes_eq_ok, fun ts us => Splits.unique, fun e f first second => ?_,
    fun none => ?_, indexed, fun index reached => ?_⟩
  · have same := (parseBytes_eq_ok.mpr first).symm.trans (parseBytes_eq_ok.mpr second)
    exact Except.ok.inj same
  · cases parsed : (parseBytes source : Except ParseError (Formula N)) with
    | error fault => exact ⟨fault, rfl, fault.message_eq⟩
    | ok e => exact absurd ⟨e, parseBytes_eq_ok.mp parsed⟩ none
  · rw [indexed] at reached
    cases parsed : (parseBytes source : Except ParseError (Formula N)) with
    | error fault => simp [parsed, Except.mapError] at reached
    | ok e => simp [parsed, Except.mapError] at reached

end Flowsheet.Formula
