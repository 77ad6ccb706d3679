import Mathlib
import Flowsheet.Proofs.Formula.Canonical
import Flowsheet.Proofs.Formula.DecimalText

set_option autoImplicit false

namespace Flowsheet.Formula

open Text (byte IsAscii)

variable {N : Type} [Quantity N]

/-- Text that lexes to the given tokens whatever separate text follows it. -/
structure Spells (cs : List Char) (ts : List (Token N)) : Prop where
  ascii : ∀ c ∈ cs, IsAscii c
  lexes : ∀ {rest : List UInt8} {us : List (Token N)}, Separate rest → Lexes rest us →
    Lexes (cs.map byte ++ rest) (ts ++ us)

theorem Spells.enclose {cs : List Char} {ts : List (Token N)} (spelled : Spells cs ts)
    (needed : Bool) : Spells (Formula.enclose needed cs) (encloseTokens needed ts) := by
  cases needed with
  | false => exact spelled
  | true =>
    constructor
    · intro c member
      simp only [Formula.enclose, if_true, List.cons_append, List.mem_cons, List.mem_append,
        List.not_mem_nil, or_false] at member
      rcases member with rfl | member | rfl
      · decide
      · exact spelled.ascii c member
      · decide
    · intro rest us separate lexes
      -- the closing parenthesis is what separates the inner text from the rest
      have closing : Separate (41 :: rest) := .cons (by decide) rest
      have inner := spelled.lexes closing lexes.closeParen
      have opened := inner.openParen
      rw [show (40 : UInt8) = byte '(' from rfl, show (41 : UInt8) = byte ')' from rfl] at opened
      simpa [Formula.enclose, encloseTokens] using opened

theorem Spells.sign {cs : List Char} {ts : List (Token N)} (spelled : Spells cs ts) (s : Sign) :
    Spells (s.symbol :: cs) (.operator s.operator :: ts) := by
  constructor
  · intro c member
    rcases List.mem_cons.mp member with rfl | member
    · cases s <;> decide
    · exact spelled.ascii c member
  · intro rest us separate lexes
    have symbol : byte s.symbol = byte s.operator.symbol := by cases s <;> rfl
    have whole := (spelled.lexes separate lexes).operator s.operator
    simpa [symbol] using whole

theorem Spells.between {cs ds : List Char} {ts us : List (Token N)} (left : Spells cs ts)
    (right : Spells ds us) (op : Operator) :
    Spells (cs ++ Formula.between op ++ ds) (ts ++ .operator op :: us) := by
  have symbols : ∀ c ∈ Formula.between op, IsAscii c := by
    have all : (Formula.between op).all (fun c => decide (IsAscii c)) = true := by cases op <;> decide
    simpa using all
  constructor
  · intro c member
    simp only [List.mem_append] at member
    rcases member with (member | member) | member
    · exact left.ascii c member
    · exact symbols c member
    · exact right.ascii c member
  · intro rest vs separate lexes
    have after := right.lexes separate lexes
    have middle : Lexes ((Formula.between op).map byte ++ (ds.map byte ++ rest))
        (.operator op :: (us ++ vs)) ∧
        Separate ((Formula.between op).map byte ++ (ds.map byte ++ rest)) := by
      cases op with
      | add | sub => exact ⟨((after.blank (by decide)).operator _).blank (by decide), .cons (by decide) _⟩
      | mul | div => exact ⟨after.operator _, .cons (by decide) _⟩
    simpa using left.lexes middle.2 middle.1

def IsIdentifier (x : String) : Prop :=
  ∃ b bs, isNameStart b = true ∧ (∀ c ∈ bs, isNamePart c = true) ∧ x = shown (b :: bs)

theorem toNat_lt_of_isNamePart {b : UInt8} (part : isNamePart b = true) : b.toNat < 128 := by
  simp only [isNamePart, Bool.or_eq_true, isNameStart_iff, isDigit_iff] at part
  omega

theorem toNat_ofNat_byte (b : UInt8) : (Char.ofNat b.toNat).toNat = b.toNat := by
  have valid : b.toNat.isValidChar := .inl (Nat.lt_trans b.toNat_lt (by decide))
  simp [Char.ofNat, valid, Char.ofNatAux, Char.toNat]

theorem byte_ofNat (b : UInt8) : byte (Char.ofNat b.toNat) = b := by
  rw [byte, toNat_ofNat_byte, UInt8.ofNat_toNat]

theorem toList_shown (bs : List UInt8) : (shown bs).toList = bs.map fun b => Char.ofNat b.toNat :=
  String.toList_ofList

theorem map_byte_shown (bs : List UInt8) : (shown bs).toList.map byte = bs := by
  have inverse : (byte ∘ fun b : UInt8 => Char.ofNat b.toNat) = id := funext byte_ofNat
  rw [toList_shown, List.map_map, inverse, List.map_id]

theorem IsIdentifier.exists_part {x : String} (identifier : IsIdentifier x) {c : Char}
    (member : c ∈ x.toList) : ∃ b, isNamePart b = true ∧ Char.ofNat b.toNat = c := by
  obtain ⟨b, bs, start, parts, rfl⟩ := identifier
  rw [toList_shown] at member
  obtain ⟨d, inside, same⟩ := List.mem_map.mp member
  rcases List.mem_cons.mp inside with rfl | inside
  · exact ⟨d, by simp [isNamePart, start], same⟩
  · exact ⟨d, parts d inside, same⟩

theorem IsIdentifier.spells {x : String} (identifier : IsIdentifier x) :
    Spells x.toList [(.name x : Token N)] := by
  have ascii : ∀ c ∈ x.toList, IsAscii c := by
    intro c member
    obtain ⟨b, part, rfl⟩ := identifier.exists_part member
    rw [IsAscii, toNat_ofNat_byte]
    exact toNat_lt_of_isNamePart part
  obtain ⟨b, bs, start, parts, rfl⟩ := identifier
  refine ⟨ascii, fun separate lexes => ?_⟩
  rw [map_byte_shown]
  exact lexes.name start parts fun c head => (separate c head).1

theorem spells_plain {v : N} (reads : Quantity.PlainReads v) :
    Spells (Quantity.plain v).toList [.number v] := by
  have ascii : ∀ c ∈ (Quantity.plain v).toList, IsAscii c :=
    fun c member => (byte_of_digitOrPoint (reads.digits c member)).1
  have bytes : Text.bytes (Quantity.plain v) = (Quantity.plain v).toList.map byte := by
    rw [← Text.bytes_ofList_of_ascii ascii, String.ofList_toList]
  have positional : Positional ((Quantity.plain v).toList.map byte) := by
    constructor
    · intro b member
      obtain ⟨c, inside, rfl⟩ := List.mem_map.mp member
      exact (byte_of_digitOrPoint (reads.digits c inside)).2
    · have same : ((Quantity.plain v).toList.map byte).count 46 = (Quantity.plain v).toList.count '.' := by
        rw [List.count, List.countP_map, List.count]
        apply List.countP_congr
        intro c inside
        have back := Text.ofNat_byte (ascii c inside)
        simp only [Function.comp_apply, beq_iff_eq]
        constructor
        · intro point
          rw [← back, point]
          rfl
        · rintro rfl
          rfl
      rw [same]
      exact reads.point
  have value := reads.reads
  rw [spelledNumber?, bytes] at value
  exact ⟨ascii, fun separate lexes => lexes.positional positional value separate⟩

/-- Every number of the tree can be read back from its text, and its names are of some kind. -/
def Spellable (isName : String → Prop) : Formula N → Prop
  | .number v => Quantity.PlainReads v
  | .name x => isName x
  | .signed _ e => e.Spellable isName
  | .binary _ l r => l.Spellable isName ∧ r.Spellable isName

abbrev Legible (e : Formula N) : Prop := e.Spellable IsIdentifier

theorem Legible.spells {e : Formula N} (legible : e.Legible) : Spells e.write e.tokens := by
  induction e with
  | number v => exact spells_plain legible
  | name x => exact IsIdentifier.spells legible
  | signed s e ih => exact ((ih legible).enclose _).sign s
  | binary op l r hl hr => exact ((hl legible.1).enclose _).between ((hr legible.2).enclose _) op

theorem isBlank_of_word {c : Char} (ascii : IsAscii c)
    (word : isNamePart (byte c) = true ∨ byte c = 46) : Text.isBlank c = false := by
  have range : 46 ≤ (byte c).toNat := by
    rcases word with part | point
    · simp only [isNamePart, Bool.or_eq_true, isNameStart_iff, isDigit_iff] at part
      omega
    · rw [point]
      decide
  rw [Text.toNat_byte ascii] at range
  unfold IsAscii at ascii
  rw [← Bool.not_eq_true]
  simp only [Text.isBlank, Bool.or_eq_true, Bool.and_eq_true, decide_eq_true_eq]
  omega

theorem Legible.exists_not_blank {e : Formula N} (legible : e.Legible) :
    ∃ c ∈ e.write, Text.isBlank c = false := by
  cases e with
  | number v =>
    have reads : Quantity.PlainReads v := legible
    have nonempty : (Quantity.plain v).toList ≠ [] := by
      intro empty
      have value := reads.reads
      have none : Text.bytes "" = [] := Text.bytes_ofList []
      rw [String.toList_eq_nil_iff.mp empty, spelledNumber?, none] at value
      cases value
    obtain ⟨c, member⟩ := List.exists_mem_of_ne_nil _ nonempty
    obtain ⟨ascii, kind⟩ := byte_of_digitOrPoint (reads.digits c member)
    exact ⟨c, member, isBlank_of_word ascii (kind.imp_left (by simp [isNamePart, ·]))⟩
  | name x =>
    obtain ⟨b, bs, start, parts, rfl⟩ := legible
    have part : isNamePart b = true := by simp [isNamePart, start]
    refine ⟨Char.ofNat b.toNat, by simp [write, toList_shown], isBlank_of_word ?_ (.inl ?_)⟩
    · rw [IsAscii, toNat_ofNat_byte]
      exact toNat_lt_of_isNamePart part
    · rwa [byte_ofNat]
  | signed s e => exact ⟨s.symbol, by simp [write], by cases s <;> decide⟩
  | binary op l r =>
    have symbol : op.symbol ∈ between op := by cases op <;> decide
    exact ⟨op.symbol, by simp [write, symbol], by cases op <;> decide⟩

theorem pieces_map_byte {cs : List Char} (ascii : ∀ c ∈ cs, IsAscii c) :
    Text.pieces (cs.map byte) = cs.map .char := by
  induction cs with
  | nil => rw [List.map_nil, Text.pieces, List.map_nil]
  | cons c cs ih =>
    have first := ascii c (by simp)
    have small : byte c < 0x80 := by
      rw [UInt8.lt_iff_toNat_lt, Text.toNat_byte first]
      exact first
    rw [List.map_cons, Text.pieces_cons_of_ascii small, Text.ofNat_byte first,
      ih (fun d member => ascii d (List.mem_cons_of_mem _ member)), List.map_cons]

theorem parse_write {e : Formula N} (legible : e.Legible) : parse (String.ofList e.write) = .ok e := by
  have spelled := legible.spells
  have source : Text.bytes (String.ofList e.write) = e.write.map byte :=
    Text.bytes_ofList_of_ascii spelled.ascii
  have content : (Text.pieces (e.write.map byte)).all isBlankPiece = false := by
    obtain ⟨c, member, visible⟩ := legible.exists_not_blank
    rw [pieces_map_byte spelled.ascii, List.all_eq_false]
    exact ⟨.char c, List.mem_map_of_mem member, by simp [isBlankPiece, visible]⟩
  -- at the end of the text nothing is left to separate
  obtain ⟨ls, lexed, same⟩ := spelled.lexes Separate.nil Lexes.nil 0
  rw [List.append_nil] at lexed same
  have derived : Derives .sum (tokensOf ls) e := by
    rw [same]
    exact e.derives_tokens.weaken 1 (by cases Level.ofRank e.precedence <;> decide)
  rw [parse, source]
  exact parseBytes_iff_derives.mpr ⟨content, ls, lexed, derived⟩

theorem Legible.same {e : Formula N} (legible : e.Legible) : e.same e = true := by
  induction e with
  | number v => exact Quantity.PlainReads.same legible
  | name x => simp [Formula.same]
  | signed s e ih => simp [Formula.same, ih legible]
  | binary op l r hl hr => simp [Formula.same, hl legible.1, hr legible.2]

section Spellable

variable {isName : String → Prop}

theorem spellable_foldl_mul {fs : List (Formula N)} {f : Formula N} (first : f.Spellable isName)
    (others : ∀ g ∈ fs, g.Spellable isName) : (fs.foldl (.binary .mul) f).Spellable isName := by
  induction fs generalizing f with
  | nil => exact first
  | cons g gs ih =>
    exact ih (f := .binary .mul f g) ⟨first, others g (by simp)⟩
      (fun h member => others h (List.mem_cons_of_mem _ member))

theorem spellable_canonical_of_factors {e : Formula N} (parts : ∀ f ∈ e.factors, f.Spellable isName) :
    e.canonical.Spellable isName := by
  have sorted : ∀ f ∈ sortFactors e.factors, f.Spellable isName :=
    fun f member => parts f (mem_sortFactors.mp member)
  unfold canonical
  cases product : sortFactors e.factors with
  | nil => exact absurd product (sortFactors_ne_nil e.factors_ne_nil)
  | cons f fs =>
    rw [product] at sorted
    exact spellable_foldl_mul (sorted f (by simp)) (fun g member => sorted g (List.mem_cons_of_mem _ member))

theorem Spellable.factors {e : Formula N} (spellable : e.Spellable isName) : ∀ f ∈ e.factors, f.Spellable isName := by
  induction e with
  | number | name => simpa [Formula.factors] using spellable
  | signed s e ih =>
    cases s with
    | plus => exact ih spellable
    | minus =>
      have body := spellable_canonical_of_factors (ih spellable)
      intro f member
      rw [Formula.factors, List.mem_singleton] at member
      rw [member]
      exact body
  | binary op l r hl hr =>
    have left := spellable_canonical_of_factors (hl spellable.1)
    have right := spellable_canonical_of_factors (hr spellable.2)
    cases op with
    | mul =>
      intro f member
      rcases List.mem_append.mp member with inLeft | inRight
      · exact hl spellable.1 f inLeft
      · exact hr spellable.2 f inRight
    | add | sub | div =>
      intro f member
      rw [Formula.factors, List.mem_singleton] at member
      · rw [member]
        exact ⟨left, right⟩
      · simp

theorem Spellable.canonical {e : Formula N} (spellable : e.Spellable isName) : e.canonical.Spellable isName :=
  spellable_canonical_of_factors spellable.factors

theorem Spellable.rename {isName' : String → Prop} {f : String → String} {e : Formula N}
    (spellable : e.Spellable isName) (keeps : ∀ x, isName x → isName' (f x)) : (e.rename f).Spellable isName' := by
  induction e with
  | number v => exact spellable
  | name x => exact keeps x spellable
  | signed s e ih => exact ih spellable
  | binary op l r hl hr => exact ⟨hl spellable.1, hr spellable.2⟩

end Spellable

def Token.Legible : Token N → Prop
  | .number v => Quantity.PlainReads v
  | .name x => IsIdentifier x
  | .operator _ | .openParen | .closeParen => True

theorem legible_cons {first : Lexeme N} {rest : Except Fault (List (Lexeme N))}
    {ls : List (Lexeme N)} (lexed : (do return first :: (← rest)) = Except.ok ls)
    (head : first.token.Legible)
    (tail : ∀ {ls : List (Lexeme N)}, rest = .ok ls → ∀ l ∈ ls, l.token.Legible) :
    ∀ l ∈ ls, l.token.Legible := by
  cases rest with
  | error fault => cases lexed
  | ok others =>
    cases lexed
    intro l member
    rcases List.mem_cons.mp member with rfl | member
    · exact head
    · exact tail rfl l member

theorem legible_lexemes (reads : ∀ v : N, Quantity.Readable v → Quantity.PlainReads v)
    {offset : Nat} {bs : List UInt8} {ls : List (Lexeme N)} (lexed : lexemes offset bs = .ok ls) :
    ∀ l ∈ ls, l.token.Legible := by
  have number {l : Literal} {v : N} (value : l.decimal?.bind Quantity.ofDecimal? = some v) :
      Quantity.PlainReads v := by
    obtain ⟨d, -, read⟩ := Option.bind_eq_some_iff.mp value
    exact reads v ⟨d, read⟩
  fun_induction lexemes (N := N) offset bs generalizing ls with
  | case1 => cases lexed; simp
  | case2 offset b rest space ih => exact ih lexed
  | case3 | case4 | case5 => exact legible_cons lexed trivial ‹_›
  | case6 | case7 | case11 => cases lexed
  | case8 offset b rest _ _ _ _ literal after v value =>
    exact legible_cons lexed (number value) ‹_›
  -- a number at the very end of the text
  | case9 offset b rest _ _ _ _ literal after v value =>
    cases lexed
    simpa [Token.Legible] using number value
  | case10 offset b rest _ _ _ _ start id =>
    have parts : ∀ c ∈ rest.takeWhile isNamePart, isNamePart c = true :=
      fun c member => (List.all_eq_true.mp List.all_takeWhile) c member
    exact legible_cons lexed ⟨b, _, start, parts, rfl⟩ ‹_›

theorem Derives.legible {level : Level} {ts : List (Token N)} {e : Formula N}
    (derived : Derives level ts e) (tokens : ∀ t ∈ ts, t.Legible) : e.Legible := by
  induction derived with
  | number v => exact tokens (.number v) (by simp)
  | name x => exact tokens (.name x) (by simp)
  | paren _ ih => exact ih (fun t member => tokens t (by simp [member]))
  | unsigned _ ih | factor _ ih | term _ ih => exact ih tokens
  | sign s _ ih => exact ih (fun t member => tokens t (by simp [member]))
  | times level _ _ left right | plus level _ _ left right =>
    exact ⟨left (fun t member => tokens t (by simp [member])),
      right (fun t member => tokens t (by simp [member]))⟩

theorem legible_of_parseBytes (reads : ∀ v : N, Quantity.Readable v → Quantity.PlainReads v)
    {source : List UInt8} {e : Formula N} (parsed : parseBytes source = .ok e) : e.Legible := by
  obtain ⟨-, ls, lexed, derived⟩ := parseBytes_iff_derives.mp parsed
  refine derived.legible fun t member => ?_
  obtain ⟨l, inside, rfl⟩ := List.mem_map.mp member
  exact legible_lexemes reads lexed l inside

theorem parse_print (reads : ∀ v : N, Quantity.Readable v → Quantity.PlainReads v)
    {source : List UInt8} {e : Formula N} (parsed : parseBytes source = .ok e) :
    parse e.print = .ok e.canonical ∧ e.canonical.same e.canonical = true := by
  have legible : e.canonical.Legible := (legible_of_parseBytes reads parsed).canonical
  exact ⟨parse_write legible, legible.same⟩

theorem parse_print_reordered :
    let sample : Formula ℚ := .binary .sub
      (.binary .mul (.signed .plus (.binary .mul (.number (5 / 2)) (.name "b"))) (.name "a"))
      (.binary .div (.binary .sub (.number 7) (.signed .minus (.name "c"))) (.name "b"))
    parse "+(2.50*b)*a - (7 - -c)/b" = .ok sample ∧ sample.print = "a*b*2.5 - (7 - -c)/b" ∧
      parse sample.print = .ok sample.canonical ∧ sample.canonical.same sample.canonical = true := by
  intro sample
  have parsed : parse "+(2.50*b)*a - (7 - -c)/b" = .ok sample := by decide +kernel
  exact ⟨parsed, by cbv, parse_print Rational.plainReads parsed⟩

end Flowsheet.Formula
