import Mathlib.Data.List.Forall2
import Mathlib.Data.List.TakeDrop
import Flowsheet.Json.Bytes
import Flowsheet.Json.Record
import Flowsheet.Proofs.Text.Digits
import Flowsheet.Proofs.Text.Utf8

set_option autoImplicit false

namespace Flowsheet.Json

open Text (Piece pieces hex hexDigit isDigit_toDigits head_toDigits toList_toString foldl_digits)

theorem hexValue?_hexDigit : ∀ n < 16, hexValue? (hexDigit n) = some n := by decide

theorem hex4?_hex {n : Nat} (small : n < 0x10000) (rest : List Char) :
    hex4? (hex 4 n ++ rest) = some (n, rest) := by
  have digit (k : Nat) : hexValue? (hexDigit (k % 16)) = some (k % 16) :=
    hexValue?_hexDigit _ (Nat.mod_lt _ (by decide))
  simp only [hex, List.nil_append, List.cons_append, hex4?, digit, Option.bind_eq_bind, Option.bind_some]
  congr 2
  omega

variable {spelled : Bool}

theorem unitChar_toNat (c : Char) (rest : List Char) : unitChar c.toNat rest = (c, rest) := by
  have scalar : c.toNat < 0xD800 ∨ 0xDFFF < c.toNat ∧ c.toNat < 0x110000 := c.valid
  have high : ¬ (0xD800 ≤ c.toNat ∧ c.toNat < 0xDC00) := by omega
  have low : ¬ (0xDC00 ≤ c.toNat ∧ c.toNat < 0xE000) := by omega
  simp [unitChar, high, low]

theorem stringRest_hex {c : Char} (small : c.toNat < 0x10000) (fuel : Nat) (done rest : List Char) :
    stringRest spelled (fuel + 1) done ('\\' :: 'u' :: hex 4 c.toNat ++ rest) =
      stringRest spelled fuel ((if spelled then '\\' :: 'u' :: hex 4 c.toNat else [c]).reverse ++ done) rest := by
  rw [List.cons_append, List.cons_append, stringRest, hex4?_hex small]
  cases spelled with
  | false => simp only [Option.bind_eq_bind, Option.bind_some, unitChar_toNat]; rfl
  | true => rfl

theorem stringRest_plain {c : Char} (quote : c ≠ '"') (escape : c ≠ '\\') (visible : ¬ c.toNat < 0x20)
    (fuel : Nat) (done rest : List Char) :
    stringRest spelled (fuel + 1) done (c :: rest) = stringRest spelled fuel (c :: done) rest := by
  rw [stringRest, if_neg visible]
  · exact fun same => absurd same quote
  · exact fun _ same => absurd same escape
  · exact fun _ _ same => absurd same escape

def shortEscapes : List Char := ['"', '\\', '\x08', '\x0c', '\n', '\r', '\t']

theorem stringChar_of_notMem {c : Char} (long : c ∉ shortEscapes) : stringChar true c =
    if c.toNat < 0x20 || c.toNat = 0x2028 || c.toNat = 0x2029 || (true && isMarkup c) then
      '\\' :: 'u' :: hex 4 c.toNat
    else [c] := by
  have other {d : Char} (short : d ∈ shortEscapes) : c ≠ d := fun same => long (same ▸ short)
  have number {n : Nat} (short : Char.ofNat n ∈ shortEscapes) : c.toNat ≠ n := by
    rintro rfl
    exact other short (Char.ofNat_toNat c).symm
  unfold stringChar
  dsimp only
  rw [if_neg (other (by decide)), if_neg (other (by decide)), if_neg (number (by decide)),
    if_neg (number (by decide)), if_neg (number (by decide)), if_neg (number (by decide)),
    if_neg (number (by decide))]

theorem stringChar_ne_nil (c : Char) : stringChar true c ≠ [] := by
  by_cases short : c ∈ shortEscapes
  · simp only [shortEscapes, List.mem_cons, List.not_mem_nil, or_false] at short
    rcases short with rfl | rfl | rfl | rfl | rfl | rfl | rfl <;> exact List.cons_ne_nil _ _
  · rw [stringChar_of_notMem short]
    split <;> simp

def keptOf (spelled : Bool) (p : Piece) : List Char := if spelled then pieceChars true p else [p.shown]

theorem stringRest_stringChar (c : Char) (fuel : Nat) (done rest : List Char) :
    stringRest spelled (fuel + 1) done (stringChar true c ++ rest) =
      stringRest spelled fuel ((if spelled then stringChar true c else [c]).reverse ++ done) rest := by
  by_cases short : c ∈ shortEscapes
  · simp only [shortEscapes, List.mem_cons, List.not_mem_nil, or_false] at short
    cases spelled <;> rcases short with rfl | rfl | rfl | rfl | rfl | rfl | rfl <;> rfl
  have quote : c ≠ '"' := fun same => short (same ▸ by decide)
  have escape : c ≠ '\\' := fun same => short (same ▸ by decide)
  rw [stringChar_of_notMem short]
  split
  next numbered =>
    refine stringRest_hex ?_ fuel done rest
    simp only [Bool.or_eq_true, decide_eq_true_eq, Bool.true_and, isMarkup] at numbered
    rcases numbered with ((control | line) | paragraph) | (rfl | rfl) | rfl
    all_goals first | omega | decide
  next visible =>
    have printed : ¬ c.toNat < 0x20 := by
      simp only [Bool.or_eq_true, decide_eq_true_eq, not_or] at visible
      exact visible.1.1.1
    rw [ite_self]
    exact stringRest_plain quote escape printed fuel done rest

theorem stringRest_pieceChars (p : Piece) (fuel : Nat) (done rest : List Char) :
    stringRest spelled (fuel + 1) done (pieceChars true p ++ rest) =
      stringRest spelled fuel ((keptOf spelled p).reverse ++ done) rest := by
  cases p with
  | char c => exact stringRest_stringChar c fuel done rest
  | stray _ =>
    have small : (Char.ofNat 0xFFFD).toNat < 0x10000 := by decide
    exact stringRest_hex small fuel done rest

theorem stringRest_flatMap (ps : List Piece) (done rest : List Char) {fuel : Nat} (enough : ps.length < fuel) :
    stringRest spelled fuel done (ps.flatMap (pieceChars true) ++ '"' :: rest) =
      some (String.ofList (done.reverse ++ ps.flatMap (keptOf spelled)), rest) := by
  induction ps generalizing done fuel with
  | nil =>
    obtain ⟨fuel, rfl⟩ : ∃ n, fuel = n + 1 := ⟨fuel - 1, by simp at enough; omega⟩
    simp [stringRest]
  | cons p ps ih =>
    obtain ⟨fuel, rfl⟩ : ∃ n, fuel = n + 1 := ⟨fuel - 1, by simp at enough; omega⟩
    rw [List.flatMap_cons, List.append_assoc, stringRest_pieceChars, ih _ (by simpa using enough)]
    simp

theorem pieceChars_ne_nil (p : Piece) : pieceChars true p ≠ [] := by
  cases p with
  | char c => exact stringChar_ne_nil c
  | stray _ => exact List.cons_ne_nil _ _

theorem length_le_flatMap_pieceChars (ps : List Piece) : ps.length ≤ (ps.flatMap (pieceChars true)).length := by
  induction ps with
  | nil => simp
  | cons p ps ih =>
    have filled : 0 < (pieceChars true p).length := List.length_pos_iff.mpr (pieceChars_ne_nil p)
    simp only [List.flatMap_cons, List.length_append, List.length_cons]
    omega

def spelling (bs : List UInt8) : String := String.ofList ((pieces bs).flatMap (pieceChars true))

theorem stringChar_of_isDigit {c : Char} (digit : c.isDigit = true) : stringChar true c = [c] := by
  have other {d : Char} (letter : d.isDigit = false) : c ≠ d := by
    rintro rfl
    exact Bool.false_ne_true (letter.symm.trans digit)
  have long : c ∉ shortEscapes := by
    intro short
    have none : ∀ d ∈ shortEscapes, d.isDigit = false := by simp [shortEscapes]
    exact other (none c short) rfl
  have range : 48 ≤ c.toNat ∧ c.toNat ≤ 57 := by
    rw [Char.isDigit, Bool.and_eq_true, decide_eq_true_eq, decide_eq_true_eq] at digit
    exact digit
  have visible : ¬ c.toNat < 0x20 ∧ ¬ c.toNat = 0x2028 ∧ ¬ c.toNat = 0x2029 := by omega
  rw [stringChar_of_notMem long, if_neg]
  simp [isMarkup, visible, other (show '<'.isDigit = false from rfl), other (show '>'.isDigit = false from rfl),
    other (show '&'.isDigit = false from rfl)]

theorem spelling_bytes {s : String} (plain : ∀ c ∈ s.toList, stringChar true c = [c]) :
    spelling (Text.bytes s) = s := by
  have same : s.toList.flatMap (stringChar true) = s.toList := by
    rw [List.flatMap_congr plain, List.flatMap_singleton']
  rw [spelling, Text.pieces_bytes, List.flatMap_map]
  exact (congrArg String.ofList same).trans String.ofList_toList

theorem stringRest_quoteBytes (bs : List UInt8) (rest : List Char) : ∃ cs,
    (quoteBytes true bs).toList ++ rest = '"' :: cs ∧
      stringRest true (cs.length + 1) [] cs = some (spelling bs, rest) := by
  refine ⟨(pieces bs).flatMap (pieceChars true) ++ '"' :: rest, by simp [quoteBytes], ?_⟩
  have short := length_le_flatMap_pieceChars (pieces bs)
  rw [stringRest_flatMap _ _ _ (by simp only [List.length_append, List.length_cons]; omega)]
  rfl

theorem unescaped_spelling (bs : List UInt8) : unescaped (spelling bs) = Text.ofBytes bs := by
  have short := length_le_flatMap_pieceChars (pieces bs)
  have inside : (spelling bs).toList = (pieces bs).flatMap (pieceChars true) := String.toList_ofList
  have length : (spelling bs).length = ((pieces bs).flatMap (pieceChars true)).length := by
    rw [← String.length_toList, inside]
  have shown : (pieces bs).flatMap (keptOf false) = (pieces bs).map Piece.shown := List.flatMap_pure_eq_map ..
  rw [unescaped, inside, length, stringRest_flatMap _ _ _ (by omega), shown]
  rfl

theorem quoteBytes_bytes (escapeMarkup : Bool) (s : String) :
    quoteBytes escapeMarkup (Text.bytes s) = quote escapeMarkup s := by
  rw [quoteBytes, Text.pieces_bytes, List.flatMap_map]
  rfl

theorem stringRest_quote (s : String) (rest : List Char) : ∃ cs, (quote true s).toList ++ rest = '"' :: cs ∧
    stringRest true (cs.length + 1) [] cs = some (spelling (Text.bytes s), rest) := by
  have read := stringRest_quoteBytes (Text.bytes s) rest
  rwa [quoteBytes_bytes] at read

def Closes (rest : List Char) : Prop := ∃ c cs, rest = c :: cs ∧ (c = ',' ∨ c = '\x7d')

theorem Closes.span {ds rest : List Char} (closes : Closes rest) (digits : ∀ c ∈ ds, c.isDigit = true) :
    (ds ++ rest).span Char.isDigit = (ds, rest) := by
  obtain ⟨c, cs, rfl, mark⟩ := closes
  have other : c.isDigit = false := by rcases mark with rfl | rfl <;> rfl
  rw [List.span_eq_takeWhile_dropWhile, List.takeWhile_append_of_pos digits, List.dropWhile_append_of_pos digits,
    List.takeWhile_cons_of_neg (by simp [other]), List.dropWhile_cons_of_neg (by simp [other]), List.append_nil]

theorem whole?_digits {ds rest : List Char} (digits : ∀ c ∈ ds, c.isDigit = true) (nonempty : ds ≠ [])
    (first : ds.head? ≠ some '0' ∨ ds = ['0']) (closes : Closes rest) :
    whole? (ds ++ rest) = some (ds, rest) := by
  have span := closes.span digits
  rcases first with first | rfl
  · obtain ⟨d, es, rfl⟩ := List.exists_cons_of_ne_nil nonempty
    rw [List.cons_append, whole?, if_pos (digits d List.mem_cons_self), ← List.cons_append, span]
    rintro rfl
    exact first rfl
  · rfl

theorem splitMinus_signed (negative : Bool) {cs : List Char} (unsigned : cs.head? ≠ some '-') :
    splitMinus ((if negative then ['-'] else []) ++ cs) = (if negative then ['-'] else [], cs) := by
  cases negative with
  | true => rfl
  | false =>
    cases cs with
    | nil => rfl
    | cons c cs =>
      change splitMinus (c :: cs) = ([], c :: cs)
      rw [splitMinus]
      rintro _ ⟨rfl, rfl⟩
      exact unsigned rfl

theorem Closes.rest {rest : List Char} (closes : Closes rest) :
    fraction? rest = some ([], rest) ∧ exponent? rest = some ([], rest) ∧ skipSpace rest = rest := by
  obtain ⟨c, cs, rfl, rfl | rfl⟩ := closes <;> exact ⟨rfl, rfl, rfl⟩

theorem number?_toString (n : Int) {rest : List Char} (closes : Closes rest) :
    number? ((toString n).toList ++ rest) = some (toString n, rest) := by
  obtain ⟨fraction, exponent, -⟩ := closes.rest
  have digits := @isDigit_toDigits n.natAbs
  have nonempty : Nat.toDigits 10 n.natAbs ≠ [] := Nat.toDigits_ne_nil
  have first : (Nat.toDigits 10 n.natAbs).head? ≠ some '0' ∨ Nat.toDigits 10 n.natAbs = ['0'] := by
    by_cases zero : n.natAbs = 0
    · exact .inr (by rw [zero]; rfl)
    · exact .inl (head_toDigits (by omega))
  have whole := whole?_digits digits nonempty first closes
  have unsigned : (Nat.toDigits 10 n.natAbs ++ rest).head? ≠ some '-' := by
    obtain ⟨d, ds, front⟩ := List.exists_cons_of_ne_nil nonempty
    rw [front]
    rintro ⟨rfl⟩
    exact absurd (digits '-' (by simp [front])) (by decide)
  have sign := splitMinus_signed (decide (n < 0)) unsigned
  simp only [decide_eq_true_eq] at sign
  rw [toList_toString, List.append_assoc, number?, sign]
  simp only [whole, fraction, exponent, Option.bind_eq_bind, Option.bind_some, List.append_nil]
  rw [← toList_toString, String.ofList_toList]

def Spells (t : String) (v : Json) : Prop := ∀ (fuel depth : Nat) {rest : List Char}, Closes rest →
  value? true (fuel + 1) depth (t.toList ++ rest) = some (v, rest)

theorem spells_quoteBytes (bs : List UInt8) : Spells (quoteBytes true bs) (.string (spelling bs)) := by
  intro fuel depth rest closes
  obtain ⟨cs, text, inside⟩ := stringRest_quoteBytes bs rest
  rw [text, value?, show skipSpace ('"' :: cs) = '"' :: cs from rfl]
  simp only [inside, Option.map_some]

theorem spells_quote (s : String) : Spells (quote true s) (.string (spelling (Text.bytes s))) :=
  quoteBytes_bytes true s ▸ spells_quoteBytes (Text.bytes s)

theorem head_toString (n : Int) : ∃ c cs, (toString n).toList = c :: cs ∧ (c = '-' ∨ c.isDigit = true) := by
  obtain ⟨d, ds, front⟩ := List.exists_cons_of_ne_nil (Nat.toDigits_ne_nil (b := 10) (n := n.natAbs))
  have digit := isDigit_toDigits d (front ▸ List.mem_cons_self)
  rw [toList_toString, front]
  split
  · exact ⟨'-', d :: ds, rfl, .inl rfl⟩
  · exact ⟨d, ds, rfl, .inr digit⟩

theorem spells_ofInt (n : Int) : Spells (ofInt n).render (.ofInt n) := by
  intro fuel depth rest closes
  have number := number?_toString n closes
  obtain ⟨c, cs, text, numeral⟩ := head_toString n
  -- no other value begins like a number
  have other {d : Char} (begins : (d = '-' ∨ d.isDigit = true) → False) : c ≠ d := by
    rintro rfl
    exact begins numeral
  have space : ¬ isSpace c = true := by
    simp [isSpace, other (show ' ' = '-' ∨ Char.isDigit ' ' = true → False by decide),
      other (show '\t' = '-' ∨ Char.isDigit '\t' = true → False by decide),
      other (show '\n' = '-' ∨ Char.isDigit '\n' = true → False by decide),
      other (show '\r' = '-' ∨ Char.isDigit '\r' = true → False by decide)]
  have front : skipSpace (c :: (cs ++ rest)) = c :: (cs ++ rest) := List.dropWhile_cons_of_neg space
  rw [text] at number
  rw [ofInt, render, text, List.cons_append, value?, front]
  split
  next same => exact absurd (List.cons.inj same).1 (other (by decide))
  next same => exact absurd (List.cons.inj same).1 (other (by decide))
  next same => exact absurd (List.cons.inj same).1 (other (by decide))
  next same => exact absurd (List.cons.inj same).1 (other (by decide))
  next same => exact absurd (List.cons.inj same).1 (other (by decide))
  next same => exact absurd (List.cons.inj same).1 (other (by decide))
  next => rw [← List.cons_append, number, Option.map_some]

def membersBehind? (fuel depth : Nat) (done : List (String × Json)) :
    List Char → Option (List (String × Json) × List Char)
  | ',' :: rest => members? true fuel depth done rest
  | '\x7d' :: rest => some (done.reverse, rest)
  | _ => none

theorem members?_member (k : String) {t : String} {v : Json} (spells : Spells t v) (fuel depth : Nat)
    (done : List (String × Json)) {rest : List Char} (closes : Closes rest) :
    members? true (fuel + 2) depth done ((quote true k ++ ":" ++ t).toList ++ rest) =
      membersBehind? (fuel + 1) depth ((spelling (Text.bytes k), v) :: done) rest := by
  obtain ⟨cs, text, inside⟩ := stringRest_quote k (':' :: t.toList ++ rest)
  have whole : (quote true k ++ ":" ++ t).toList ++ rest = '"' :: cs := by
    rw [← text]
    simp
  rw [whole, members?, show skipSpace ('"' :: cs) = '"' :: cs from rfl]
  simp only [inside, Option.bind_eq_bind, Option.bind_some, List.cons_append,
    show ∀ xs, skipSpace (':' :: xs) = ':' :: xs from fun _ => rfl, spells fuel depth closes, closes.rest.2.2]
  rfl

def SpellsMember (t : String × String) (m : String × Json) : Prop :=
  m.1 = spelling (Text.bytes t.1) ∧ Spells t.2 m.2

open objectText

theorem members?_joined {ts : List (String × String)} {ms : List (String × Json)}
    (spelt : List.Forall₂ SpellsMember ts ms) (some : ts ≠ []) (done : List (String × Json)) (rest : List Char)
    {fuel : Nat} (depth : Nat) (enough : ts.length < fuel) :
    members? true fuel depth done ((joined ts).toList ++ '\x7d' :: rest) = .some (done.reverse ++ ms, rest) := by
  induction spelt generalizing done fuel with
  | nil => exact absurd rfl some
  | @cons t m ts ms first others ih =>
    obtain ⟨k, t⟩ := t
    obtain ⟨_, v⟩ := m
    obtain ⟨rfl, spells⟩ := first
    obtain ⟨fuel, rfl⟩ : ∃ n, fuel = n + 2 := ⟨fuel - 2, by simp only [List.length_cons] at enough; omega⟩
    cases others with
    | nil =>
      have last : Closes ('\x7d' :: rest) := ⟨_, _, rfl, .inr rfl⟩
      rw [joined, members?_member k spells fuel depth done last]
      simp [membersBehind?]
    | @cons u n us ns second others =>
      have fewer : (u :: us).length < fuel + 1 := by
        simp only [List.length_cons] at enough ⊢
        omega
      have later := ih (by simp) ((spelling (Text.bytes k), v) :: done) fewer
      have text : (joined ((k, t) :: u :: us)).toList ++ '\x7d' :: rest =
          (quote true k ++ ":" ++ t).toList ++ ',' :: ((joined (u :: us)).toList ++ '\x7d' :: rest) := by
        rw [joined]
        · simp
        · exact List.cons_ne_nil _ _
      rw [text, members?_member k spells fuel depth done ⟨_, _, rfl, .inl rfl⟩, membersBehind?, later]
      simp

theorem joined_front (t : String × String) (ts : List (String × String)) : ∃ rest : List Char,
    (joined (t :: ts)).toList = '"' :: rest ∧ (joined ts).toList.length ≤ rest.length := by
  obtain ⟨k, t⟩ := t
  cases ts with
  | nil => exact ⟨_, by simp [joined, quote]; rfl, by simp [joined]⟩
  | cons u us =>
    have text : joined ((k, t) :: u :: us) = quote true k ++ ":" ++ t ++ "," ++ joined (u :: us) := by
      rw [joined]
      exact List.cons_ne_nil _ _
    refine ⟨_, by rw [text]; simp [quote]; rfl, ?_⟩
    simp
    omega

theorem length_le_joined (ts : List (String × String)) : ts.length ≤ (joined ts).toList.length := by
  induction ts with
  | nil => simp
  | cons t ts ih =>
    obtain ⟨rest, text, longer⟩ := joined_front t ts
    rw [text, List.length_cons, List.length_cons]
    omega

theorem spelled?_objectText {ts : List (String × String)} {ms : List (String × Json)}
    (spelt : List.Forall₂ SpellsMember ts ms) (some : ts ≠ []) : spelled? (objectText ts) = .some (.object ms) := by
  have text : (objectText ts).toList = '\x7b' :: ((joined ts).toList ++ ['\x7d']) := by
    rw [objectText]
    simp
  have enough : ts.length < 2 * (objectText ts).toList.length + 1 := by
    have fewer := length_le_joined ts
    simp only [text, List.length_cons, List.length_append]
    omega
  have members := members?_joined spelt some [] [] 9999 enough
  obtain ⟨t, us, rfl⟩ := List.exists_cons_of_ne_nil some
  obtain ⟨rest, front, -⟩ := joined_front t us
  rw [front] at text members
  rw [List.cons_append] at text members
  have value {fuel : Nat} (inside : members? true fuel 9999 [] ('"' :: (rest ++ ['\x7d'])) = .some (ms, [])) :
      value? true (fuel + 1) deepest ('\x7b' :: '"' :: (rest ++ ['\x7d'])) = .some (.object ms, []) := by
    rw [value?, show ∀ cs, skipSpace ('\x7b' :: cs) = '\x7b' :: cs from fun _ => rfl]
    change Option.map _ (members? true fuel 9999 [] ('"' :: (rest ++ ['\x7d']))) = _
    rw [inside]
    rfl
  have read := value members
  rw [← text] at read
  unfold spelled? parseAs?
  simp only [read]
  rfl

theorem renderMembers_eq (ms : List (String × Json)) :
    render.renderMembers ms = joined (ms.map fun m => (m.1, m.2.render)) := by
  induction ms with
  | nil => rfl
  | cons m ms ih =>
    cases ms with
    | nil => rfl
    | cons n ns =>
      change quote true m.1 ++ ":" ++ m.2.render ++ "," ++ render.renderMembers (n :: ns) = _
      rw [ih]
      rfl

theorem render_object (ms : List (String × Json)) :
    (object ms).render = objectText (ms.map fun m => (m.1, m.2.render)) := by
  rw [render, renderMembers_eq, objectText]

theorem int?_ofInt {σ : Type} (set : Int → σ → σ) {n : Int} (fits : Word.isSigned n = true) :
    int? set (ofInt n) = some (set n) := by
  have digits : (Nat.toDigits 10 n.natAbs).all Char.isDigit = true := List.all_eq_true.mpr isDigit_toDigits
  have value : (Nat.toDigits 10 n.natAbs).foldl (fun n c => n * 10 + (c.toNat - 48)) 0 = n.natAbs := by
    rw [foldl_digits, Nat.ofDigitChars_ten_toDigits]
  have range : -9223372036854775808 ≤ n ∧ n < 9223372036854775808 := by
    rw [Word.isSigned, Bool.and_eq_true, decide_eq_true_eq, decide_eq_true_eq] at fits
    exact fits
  -- A negative number may be one further from zero than any other.
  by_cases negative : n < 0
  · have text : (toString n).toList = '-' :: Nat.toDigits 10 n.natAbs := by
      rw [toList_toString, if_pos negative]
      rfl
    have small : n.natAbs < Word.half ∨ n.natAbs = Word.half := by
      unfold Word.half
      omega
    have back : -(n.natAbs : Int) = n := by omega
    simp only [int?, ofInt, text, digits, value, if_true, Bool.true_and, Bool.or_eq_true, decide_eq_true_eq,
      small, back]
  · have text : (toString n).toList = Nat.toDigits 10 n.natAbs := by
      rw [toList_toString, if_neg negative]
      rfl
    have small : n.natAbs < Word.half := by
      unfold Word.half
      omega
    have back : (n.natAbs : Int) = n := by omega
    obtain ⟨d, ds, front⟩ := List.exists_cons_of_ne_nil (Nat.toDigits_ne_nil (b := 10) (n := n.natAbs))
    have unsigned : d ≠ '-' := by
      rintro rfl
      exact absurd (isDigit_toDigits '-' (front ▸ List.mem_cons_self)) (by decide)
    rw [front] at digits value text
    unfold int? ofInt
    simp only [text]
    split
    next same => exact absurd (List.cons.inj same).1 unsigned
    next => simp [digits, value, small, back]

def Sets {σ : Type} (field : String → Option (Json → Option (σ → σ))) (m : String × Json)
    (change : σ → σ) : Prop :=
  ∃ read, field (foldName (unescaped m.1)) = some read ∧ m.2 ≠ .null ∧ read m.2 = some change

theorem Sets.of_small {σ : Type} {field : String → Option (Json → Option (σ → σ))} {k : String} {v : Json}
    {read : Json → Option (σ → σ)} {change : σ → σ} (small : foldName k = k) (known : field k = some read)
    (some : v ≠ .null) (changed : read v = .some change) : Sets field (spelling (Text.bytes k), v) change :=
  ⟨read, by rw [unescaped_spelling, Text.ofBytes_bytes, small, known], some, changed⟩

theorem string?_spelling {σ : Type} (set : String → σ → σ) (bs : List UInt8) :
    string? set (.string (spelling bs)) = some (set (Text.ofBytes bs)) := by
  rw [string?, unescaped_spelling]

theorem record?_object {σ : Type} {field : String → Option (Json → Option (σ → σ))} {ms : List (String × Json)}
    {changes : List (σ → σ)} (sets : List.Forall₂ (Sets field) ms changes) (start : σ) :
    record? field start (.object ms) = some (changes.foldl (fun s change => change s) start) := by
  rw [record?]
  induction sets generalizing start with
  | nil => rfl
  | @cons m change ms changes first _ ih =>
    obtain ⟨k, v⟩ := m
    obtain ⟨read, known, some, changed⟩ := first
    rw [List.foldlM_cons, List.foldl_cons, ← ih]
    dsimp only at known some changed ⊢
    rw [known]
    split
    next missing => cases missing
    next null => exact absurd rfl some
    next same _ =>
      obtain rfl := Option.some.inj same
      rw [changed]
      rfl

end Flowsheet.Json
