import Mathlib.Computability.RegularExpressions
import Mathlib.Tactic.TFAE
import Flowsheet.Document.Schema
import Flowsheet.Proofs.Formula.Language
import Flowsheet.Proofs.Template.Reading
import Flowsheet.Proofs.Text.Utf8

set_option autoImplicit false

namespace Flowsheet

open Text (byte IsAscii)

namespace Schema

def oneOf : List Char → RegularExpression Char
  | [] => 0
  | c :: cs => .char c + oneOf cs

def range (first last : Char) : List Char :=
  (List.range' first.toNat (last.toNat + 1 - first.toNat)).map Char.ofNat

def letters : List Char := range 'A' 'Z' ++ range 'a' 'z' ++ ['_']

def lettersAndDigits : List Char := range 'A' 'Z' ++ range 'a' 'z' ++ range '0' '9' ++ ['_']

def identifierExpression : RegularExpression Char := oneOf letters * (oneOf lettersAndDigits).star

theorem mem_oneOf {cs x : List Char} : x ∈ (oneOf cs).matches' ↔ ∃ c ∈ cs, x = [c] := by
  induction cs with
  | nil =>
    rw [oneOf, RegularExpression.matches'_zero]
    exact ⟨fun none => absurd none (Language.notMem_zero x), fun ⟨_, inside, _⟩ => nomatch inside⟩
  | cons c cs ih =>
    rw [oneOf, RegularExpression.matches'_add, Language.mem_add, ih, RegularExpression.matches'_char]
    simp only [List.mem_cons, exists_eq_or_imp]
    rfl

theorem mem_star_oneOf {cs x : List Char} : x ∈ (oneOf cs).star.matches' ↔ ∀ c ∈ x, c ∈ cs := by
  rw [RegularExpression.matches'_star, Language.mem_kstar]
  constructor
  · rintro ⟨parts, rfl, each⟩ c inside
    obtain ⟨part, member, here⟩ := List.mem_flatten.mp inside
    obtain ⟨d, known, rfl⟩ := mem_oneOf.mp (each part member)
    rwa [List.mem_singleton.mp here]
  · intro known
    refine ⟨x.map fun c => [c], by rw [← List.flatMap_def, List.flatMap_singleton'], fun part member => ?_⟩
    obtain ⟨c, inside, rfl⟩ := List.mem_map.mp member
    exact mem_oneOf.mpr ⟨c, known c inside, rfl⟩

theorem mem_of_ascii {p : Char → Bool} {cs : List Char} (ascii : ∀ c, p c = true → IsAscii c)
    (small : ∀ n < 128, p (Char.ofNat n) = true → Char.ofNat n ∈ cs) {c : Char} (holds : p c = true) : c ∈ cs := by
  have known := small c.toNat (ascii c holds)
  rw [Char.ofNat_toNat] at known
  exact known holds

theorem isAscii_of_isNamePart (c : Char) (part : Template.isNamePart c = true) : IsAscii c := by
  have range := Template.isNamePart_range part
  unfold IsAscii
  omega

theorem mem_letters {c : Char} : c ∈ letters ↔ Template.isNameStart c = true := by
  have starts : letters.all Template.isNameStart = true := by decide +kernel
  refine ⟨List.all_eq_true.mp starts c, mem_of_ascii (fun c start => ?_) (by decide +kernel)⟩
  exact isAscii_of_isNamePart c (by simp [Template.isNamePart, start])

theorem mem_lettersAndDigits {c : Char} : c ∈ lettersAndDigits ↔ Template.isNamePart c = true := by
  have parts : lettersAndDigits.all Template.isNamePart = true := by decide +kernel
  refine ⟨List.all_eq_true.mp parts c, mem_of_ascii isAscii_of_isNamePart (by decide +kernel)⟩

theorem mem_identifierExpression {cs : List Char} :
    cs ∈ identifierExpression.matches' ↔ Template.isName cs = true := by
  rw [identifierExpression, RegularExpression.matches'_mul, Language.mem_mul]
  simp only [mem_oneOf, mem_star_oneOf, mem_letters, mem_lettersAndDigits]
  cases cs with
  | nil => simp [Template.isName]
  | cons c cs =>
    simp only [Template.isName, Bool.and_eq_true, List.all_eq_true]
    constructor
    · rintro ⟨_, ⟨d, start, rfl⟩, parts, each, same⟩
      obtain ⟨rfl, rfl⟩ := List.cons.inj same
      exact ⟨start, each⟩
    · rintro ⟨start, parts⟩
      exact ⟨[c], ⟨c, start, rfl⟩, cs, parts, rfl⟩

theorem isIdentifier_eq_isName (s : String) : isIdentifier s = Template.isName s.toList := by
  rw [isIdentifier]
  cases s.toList with
  | nil => rfl
  | cons c cs =>
    have part (d : Char) : (d.isAlphanum || d = '_') = Template.isNamePart d := by
      rw [Char.isAlphanum, Template.isNamePart, Template.isNameStart, Bool.or_right_comm]
    simp only [Template.isName, part]
    rfl

end Schema

namespace Template

def goesOn : Nat → List UInt8 → Bool
  | _, [] => true
  | i, b :: rest =>
    (b = 95 || (97 ≤ b && b ≤ 122) || (65 ≤ b && b ≤ 90) || (0 < i && 48 ≤ b && b ≤ 57)) && goesOn (i + 1) rest

def isIdentifier (bs : List UInt8) : Bool := if bs.isEmpty then false else goesOn 0 bs

theorem goesOn_later (i : Nat) (bs : List UInt8) : goesOn (i + 1) bs = bs.all Formula.isNamePart := by
  induction bs generalizing i with
  | nil => rfl
  | cons b bs ih =>
    rw [goesOn, ih, List.all_cons, Formula.isNamePart, Formula.isNameStart, Formula.isDigit]
    simp

theorem isIdentifier_iff {bs : List UInt8} : isIdentifier bs = true ↔
    ∃ b rest, bs = b :: rest ∧ Formula.isNameStart b = true ∧ ∀ c ∈ rest, Formula.isNamePart c = true := by
  cases bs with
  | nil => simp [isIdentifier]
  | cons b rest =>
    have first : goesOn 0 (b :: rest) = (Formula.isNameStart b && rest.all Formula.isNamePart) := by
      rw [goesOn, goesOn_later, Formula.isNameStart]
      simp
    simp [isIdentifier, first]

end Template

namespace Formula

theorem isAscii_shown {bs : List UInt8} (parts : ∀ c ∈ bs, isNamePart c = true) :
    ∀ c ∈ (shown bs).toList, IsAscii c := by
  intro c inside
  rw [toList_shown] at inside
  obtain ⟨b, member, rfl⟩ := List.mem_map.mp inside
  rw [IsAscii, toNat_ofNat_byte]
  exact toNat_lt_of_isNamePart (parts b member)

theorem bytes_shown {bs : List UInt8} (parts : ∀ c ∈ bs, isNamePart c = true) : Text.bytes (shown bs) = bs := by
  rw [← String.ofList_toList (s := shown bs), Text.bytes_ofList_of_ascii (isAscii_shown parts), map_byte_shown]

variable {N : Type}

variable [Quantity N]

theorem parseBytes_name {b : UInt8} {rest : List UInt8} (start : isNameStart b = true)
    (parts : ∀ c ∈ rest, isNamePart c = true) :
    (parseBytes (b :: rest) : Except ParseError (Formula N)) = .ok (.name (shown (b :: rest))) := by
  have split : Splits (b :: rest ++ []) [(.name (shown (b :: rest)) : Token N)] :=
    .name start parts (fun _ => nofun) .done
  rw [List.append_nil] at split
  exact parseBytes_eq_ok.mpr ⟨_, split, (((Derives.name _).unsigned).factor).term⟩

theorem exists_name_iff {bs : List UInt8} :
    (∃ x, (parseBytes bs : Except ParseError (Formula N)) = .ok (.name x) ∧ Text.bytes x = bs) ↔
      ∃ b rest, bs = b :: rest ∧ isNameStart b = true ∧ ∀ c ∈ rest, isNamePart c = true := by
  constructor
  · rintro ⟨x, parsed, same⟩
    obtain ⟨ts, split, derived⟩ := parseBytes_eq_ok.mp parsed
    obtain ⟨b, rest, start, parts, rfl⟩ := split.isIdentifier x (derived.mem_of_occurs x (by simp [occurrences]))
    have all : ∀ c ∈ b :: rest, isNamePart c = true :=
      List.forall_mem_cons.mpr ⟨by simp [isNamePart, start], parts⟩
    exact ⟨b, rest, same ▸ bytes_shown all, start, parts⟩
  · rintro ⟨b, rest, rfl, start, parts⟩
    exact ⟨_, parseBytes_name start parts,
      bytes_shown (List.forall_mem_cons.mpr ⟨by simp [isNamePart, start], parts⟩)⟩

end Formula

theorem isNameStart_byte {c : Char} (ascii : IsAscii c) : Formula.isNameStart (byte c) = Template.isNameStart c := by
  have small : ∀ n < 128, Formula.isNameStart (byte (Char.ofNat n)) = Template.isNameStart (Char.ofNat n) := by
    decide +kernel
  have known := small c.toNat ascii
  rwa [Char.ofNat_toNat] at known

theorem isNamePart_byte {c : Char} (ascii : IsAscii c) : Formula.isNamePart (byte c) = Template.isNamePart c := by
  have small : ∀ n < 128, Formula.isNamePart (byte (Char.ofNat n)) = Template.isNamePart (Char.ofNat n) := by
    decide +kernel
  have known := small c.toNat ascii
  rwa [Char.ofNat_toNat] at known

theorem isName_eq {cs : List Char} (ascii : ∀ c ∈ cs, IsAscii c) :
    Template.isName cs = Template.isIdentifier (cs.map byte) := by
  rw [Bool.eq_iff_iff, Template.isIdentifier_iff]
  cases cs with
  | nil => simp [Template.isName]
  | cons c cs =>
    obtain ⟨first, others⟩ := List.forall_mem_cons.mp ascii
    have parts : (∀ b ∈ cs.map byte, Formula.isNamePart b = true) ↔ ∀ d ∈ cs, Template.isNamePart d = true := by
      rw [List.forall_mem_map]
      exact forall₂_congr fun d inside => by rw [isNamePart_byte (others d inside)]
    rw [Template.isName, Bool.and_eq_true, List.all_eq_true, ← isNameStart_byte first, ← parts]
    constructor
    · rintro ⟨start, each⟩
      exact ⟨_, _, rfl, start, each⟩
    · rintro ⟨_, _, ⟨⟩, start, each⟩
      exact ⟨start, each⟩

theorem map_byte_ofBytes {bs : List UInt8} (ascii : ∀ c ∈ (Text.ofBytes bs).toList, IsAscii c) :
    (Text.ofBytes bs).toList.map byte = bs := by
  rw [Text.ofBytes, String.toList_ofList] at ascii ⊢
  have single : ∀ p ∈ Text.pieces bs, p.bytes = [byte p.shown] := by
    intro p inside
    have small := ascii p.shown (List.mem_map_of_mem inside)
    cases p with
    | char c => exact Text.utf8EncodeChar_of_isAscii small
    | stray b => exact absurd small (show ¬ IsAscii (Char.ofNat 0xFFFD) by decide)
  calc ((Text.pieces bs).map Text.Piece.shown).map byte
      = (Text.pieces bs).flatMap fun p => [byte p.shown] := by rw [List.map_map, List.map_eq_flatMap]; rfl
    _ = (Text.pieces bs).flatMap Text.Piece.bytes := (List.flatMap_congr single).symm
    _ = bs := Text.flatMap_bytes_pieces bs

theorem isName_ofBytes (bs : List UInt8) :
    Template.isName (Text.ofBytes bs).toList = Template.isIdentifier bs := by
  rw [Bool.eq_iff_iff]
  constructor
  · intro named
    have ascii : ∀ c ∈ (Text.ofBytes bs).toList, IsAscii c := fun c inside =>
      Schema.isAscii_of_isNamePart c (Template.isNamePart_of_isName named c inside)
    rwa [isName_eq ascii, map_byte_ofBytes ascii] at named
  · intro named
    obtain ⟨b, rest, rfl, start, parts⟩ := Template.isIdentifier_iff.mp named
    have small : ∀ c ∈ b :: rest, Formula.isNamePart c = true :=
      List.forall_mem_cons.mpr ⟨by simp [Formula.isNamePart, start], parts⟩
    have text : Text.ofBytes (b :: rest) = Formula.shown (b :: rest) := by
      rw [← Text.ofBytes_bytes (Formula.shown (b :: rest)), Formula.bytes_shown small]
    rw [text, isName_eq (Formula.isAscii_shown small), Formula.map_byte_shown]
    exact named

theorem isIdentifier_agrees {N : Type} [Quantity N] (bs : List UInt8) :
    [(Text.ofBytes bs).toList ∈ Schema.identifierExpression.matches',
      Schema.isIdentifier (Text.ofBytes bs) = true,
      ∃ x, (Formula.parseBytes bs : Except Formula.ParseError (Formula N)) = .ok (.name x) ∧ Text.bytes x = bs,
      Template.isName (Text.ofBytes bs).toList = true,
      Template.isIdentifier bs = true].TFAE := by
  tfae_have 1 ↔ 4 := Schema.mem_identifierExpression
  tfae_have 2 ↔ 4 := by rw [Schema.isIdentifier_eq_isName]
  tfae_have 3 ↔ 5 := Formula.exists_name_iff.trans Template.isIdentifier_iff.symm
  tfae_have 4 ↔ 5 := by rw [isName_ofBytes]
  tfae_finish

end Flowsheet
