import Mathlib.Data.List.TakeDrop
import Mathlib.Data.List.TakeWhile
import Flowsheet.Proofs.Template.Reading
import Flowsheet.Template.Token

set_option autoImplicit false

namespace Flowsheet.Template

open Text (Piece shown shown_map_char)

-- A token is read off the front of what is left, so an action that no brace closes is never left again.

section Rest

variable {ps rest : List Piece}

theorem suffix_cons_cons {α : Type} (a b : α) (xs : List α) : xs <:+ a :: b :: xs := ⟨[a, b], rfl⟩

theorem suffix_of_hexRun? {count n : Nat} (read : hexRun? count ps = some (n, rest)) : rest <:+ ps := by
  simp only [hexRun?, Option.bind_eq_bind, Option.bind_eq_some_iff] at read
  obtain ⟨ds, -, read⟩ := read
  split at read
  · simp at read
  · cases read
    exact List.drop_suffix count ps

theorem suffix_of_literalPiece? {quote : Char} {p : Piece} (read : literalPiece? quote ps = some (p, rest)) :
    rest <:+ ps := by
  unfold literalPiece? at read
  split at read
  case h_9 =>
    simp only [Option.bind_eq_bind, Option.bind_eq_some_iff] at read
    obtain ⟨⟨n, r⟩, run, last⟩ := read
    cases last
    exact (suffix_of_hexRun? run).trans (suffix_cons_cons _ _ _)
  case h_10 | h_11 =>
    simp only [Option.bind_eq_bind, Option.bind_eq_some_iff] at read
    obtain ⟨⟨n, r⟩, run, c', -, last⟩ := read
    cases last
    exact (suffix_of_hexRun? run).trans (suffix_cons_cons _ _ _)
  case h_12 a r _ _ _ _ _ _ _ _ _ _ _ =>
    split_ifs at read
    · cases read
      exact suffix_cons_cons _ _ _
    · split at read
      · simp only [Option.bind_eq_bind, Option.bind_eq_some_iff] at read
        obtain ⟨_, -, _, -, _, -, read⟩ := read
        split_ifs at read
        · cases read
        · cases read
          exact ⟨[.char '\\', a, _, _], rfl⟩
      · cases read
  case h_14 =>
    split_ifs at read
    cases read
    exact List.suffix_cons _ _
  all_goals cases read
  all_goals exact suffix_cons_cons _ _ _

theorem suffix_of_stringLiteral? {fuel : Nat} {done s : List UInt8}
    (read : stringLiteral? fuel done ps = some (s, rest)) : rest <:+ ps := by
  induction fuel generalizing done ps with
  | zero => cases read
  | succ fuel ih =>
    unfold stringLiteral? at read
    split at read
    · cases read
      exact List.suffix_cons _ _
    · simp only [Option.bind_eq_bind, Option.bind_eq_some_iff] at read
      obtain ⟨⟨p, between⟩, first, read⟩ := read
      exact (ih read).trans (suffix_of_literalPiece? first)

theorem suffix_of_charLiteral? {n : NumberLiteral} (read : charLiteral? ps = some (n, rest)) :
    rest <:+ ps := by
  unfold charLiteral? at read
  split at read
  · cases read
  · simp only [Option.bind_eq_bind, Option.bind_eq_some_iff] at read
    obtain ⟨⟨p, between⟩, first, read⟩ := read
    simp only at read
    split at read
    · cases read
      exact (List.suffix_cons _ _).trans (suffix_of_literalPiece? first)
    · cases read

theorem suffix_of_actionToken? {t : Token} (read : actionToken? ps = some (t, rest)) : rest <:+ ps := by
  unfold actionToken? at read
  split at read
  case h_1 => cases read
  case h_2 | h_4 | h_5 | h_6 | h_7 =>
    cases read
    exact List.suffix_cons _ _
  case h_3 =>
    cases read
    exact suffix_cons_cons _ _ _
  case h_8 =>
    obtain ⟨⟨s, r⟩, literal, last⟩ := Option.map_eq_some_iff.mp read
    cases last
    exact (suffix_of_stringLiteral? literal).trans (List.suffix_cons _ _)
  case h_9 =>
    obtain ⟨⟨n, r⟩, literal, last⟩ := Option.map_eq_some_iff.mp read
    cases last
    exact (suffix_of_charLiteral? literal).trans (List.suffix_cons _ _)
  case h_10 =>
    simp only at read
    split_ifs at read
    cases read
    exact (List.dropWhile_suffix _).trans (List.suffix_cons _ _)
  case h_11 p r _ _ _ _ _ _ _ _ _ =>
    simp only at read
    split at read
    · cases read
      exact (List.dropWhile_suffix _).trans (List.suffix_cons _ _)
    split at read
    · split at read
      · cases read
      next quote after closed =>
        cases read
        have left : quote :: rest <:+ r := closed ▸ List.dropWhile_suffix _
        exact ((List.suffix_cons _ _).trans left).trans (List.suffix_cons _ _)
    split at read
    · split_ifs at read
      all_goals cases read
      all_goals exact (List.dropWhile_suffix _).trans (List.suffix_cons _ _)
    split at read
    · split_ifs at read
      obtain ⟨n, -, last⟩ := Option.map_eq_some_iff.mp read
      cases last
      exact List.drop_suffix _ _
    split at read
    · split_ifs at read
      cases read
      exact List.dropWhile_suffix _
    · cases read

theorem suffix_of_afterComment? (read : afterComment? ps = some rest) : rest <:+ ps := by
  fun_induction afterComment? ps with
  | case1 =>
    cases read
    exact suffix_cons_cons _ _ _
  | case2 p r _ ih => exact (ih read).trans (List.suffix_cons _ _)
  | case3 => cases read

theorem exists_brace_of_actionEnd? (read : actionEnd? ps = some rest) :
    ∃ before blanks, ps = before ++ .char '\x7d' :: (blanks ++ rest) ∧ .char '$' ∉ blanks := by
  unfold actionEnd? at read
  split at read
  · cases read
    exact ⟨[], [], rfl, by simp⟩
  next p after _ =>
    split_ifs at read
    cases read
    exact ⟨[p, .char '-'], after.takeWhile isSpace, by simp,
      fun member => absurd (List.mem_takeWhile_imp member) (by decide)⟩
  · cases read

end Rest

def Stuck (ps : List Piece) : Prop := .char '\x7d' ∉ ps ∨ Unclosed ps

section Stuck

variable {ps rest : List Piece}

theorem Unclosed.split {before : List Piece} (unclosed : Unclosed (before ++ rest)) :
    Unclosed rest ∨ .char '\x7d' ∉ rest ∧ .char '$' ∈ before := by
  obtain ⟨first, last, split, absent⟩ := unclosed
  rcases List.append_eq_append_iff.mp split with ⟨more, -, there⟩ | ⟨more, rfl, there⟩
  · exact .inl ⟨more, last, there, absent⟩
  · cases more with
    | nil => exact .inl ⟨[], last, there.symm, absent⟩
    | cons d more =>
      obtain ⟨rfl, tail⟩ := List.cons.inj there
      have behind : rest ⊆ .char '\x7b' :: last := tail ▸ List.subset_append_right more rest
      exact .inr ⟨fun member => by simpa [absent] using behind member, by simp⟩

theorem Unclosed.stuck (unclosed : Unclosed ps) : Stuck ps := .inr unclosed

theorem Stuck.suffix (stuck : Stuck ps) (suffix : rest <:+ ps) : Stuck rest := by
  rcases stuck with absent | unclosed
  · exact .inl fun member => absent (suffix.subset member)
  · obtain ⟨before, rfl⟩ := suffix
    exact unclosed.split.elim .inr fun none => .inl none.1

theorem Stuck.ended (stuck : Stuck ps) (read : actionEnd? ps = some rest) : Unclosed rest := by
  obtain ⟨before, blanks, rfl, free⟩ := exists_brace_of_actionEnd? read
  have unclosed : Unclosed (before ++ .char '\x7d' :: (blanks ++ rest)) := stuck.resolve_left (by simp)
  have behind : Unclosed ([.char '\x7d'] ++ (blanks ++ rest)) := unclosed.split.resolve_right (by simp)
  exact (behind.split.resolve_right (by simp)).split.resolve_right fun inside => free inside.2

theorem Unclosed.next {p : Piece} (unclosed : Unclosed (p :: rest))
    (plain : ∀ after, p = .char '$' → rest = .char '\x7b' :: after → False) : Unclosed rest := by
  obtain ⟨first, last, split, absent⟩ := unclosed
  cases first with
  | nil =>
    obtain ⟨dollar, brace⟩ := List.cons.inj split
    exact (plain last dollar brace).elim
  | cons d first => exact ⟨first, last, (List.cons.inj split).2, absent⟩

theorem tokens_eq_none (fuel : Nat) :
    (∀ done ps, Unclosed ps → textTokens fuel done ps = none) ∧
      (∀ depth ps, Stuck ps → actionTokens fuel depth ps = none) ∧
        ∀ depth ps, Stuck ps → nextTokens fuel depth ps = none := by
  induction fuel with
  | zero => exact ⟨fun _ _ _ => rfl, fun _ _ _ => rfl, fun _ _ _ => rfl⟩
  | succ fuel ih =>
    obtain ⟨text, action, next⟩ := ih
    refine ⟨fun done ps unclosed => ?_, fun depth ps stuck => ?_, fun depth ps stuck => ?_⟩
    · unfold textTokens
      split
      · obtain ⟨first, last, split, -⟩ := unclosed
        simp at split
      next rest =>
        have behind : Stuck rest := unclosed.stuck.suffix (suffix_cons_cons _ _ _)
        -- a mark that trims the text before it belongs to the opening
        split
        next before inner trimmed =>
        have stuck : Stuck inner := by
          split at trimmed
          · split_ifs at trimmed
            all_goals cases trimmed
            · exact behind.suffix (suffix_cons_cons _ _ _)
            · exact behind
          · cases trimmed
            exact behind
        split
        next rest' =>
          have commented : Stuck rest' := stuck.suffix (suffix_cons_cons _ _ _)
          simp only [Option.bind_eq_bind, Option.bind_eq_none_iff]
          intro rest'' closed after ended
          have left := (commented.suffix (suffix_of_afterComment? closed)).ended ended
          simp [text [] after left]
        next => simp [action 0 inner stuck]
      next p rest plain => exact text (p :: done) rest (unclosed.next plain)
    · unfold actionTokens
      split
      next after ended =>
        split
        · simp [text [] after (stuck.ended ended)]
        · rfl
      next =>
        split
        · split
          · exact action depth _ (stuck.suffix (List.drop_suffix 1 _))
          · exact next depth _ stuck
        · exact next depth _ stuck
    · unfold nextTokens
      split
      next => rfl
      next rest read => simp [action (depth + 1) rest (stuck.suffix (suffix_of_actionToken? read))]
      next rest read =>
        split
        · rfl
        · simp [action (depth - 1) rest (stuck.suffix (suffix_of_actionToken? read))]
      next t rest _ _ read => simp [action depth rest (stuck.suffix (suffix_of_actionToken? read))]

end Stuck

inductive Segment where
  | text (s : List UInt8)
  | dollar
  | place (name : String)

def Segment.tokens : Segment → List Token
  | .text s => [.text s]
  | .dollar => [.actionStart, .string (Text.bytes "$"), .actionEnd]
  | .place x => [.actionStart, .field x, .actionEnd]

def Segment.ofRun (run : List Piece) : List Segment :=
  if run.isEmpty then [] else [.text (run.flatMap Piece.bytes)]

def segments : List Piece → List Part → List Segment
  | run, [] => Segment.ofRun run.reverse
  | run, .plain p :: parts => segments (p :: run) parts
  | run, .dollar :: parts => Segment.ofRun run.reverse ++ .dollar :: segments [] parts
  | run, .place x :: parts => Segment.ofRun run.reverse ++ .place x :: segments [] parts

theorem textToken_eq (run : List Piece) : textToken run = (Segment.ofRun run).flatMap Segment.tokens := by
  cases run with
  | nil => rfl
  | cons => rfl

section Parts

variable {ps rest : List Piece} {parts : List Part}

theorem Reads.head? (read : Reads ps parts) : (Part.actions parts).head? = ps.head? := by
  cases read with
  | done | dollar | place | plain => rfl

theorem textTokens_plain {fuel : Nat} {run : List Piece} {p : Piece}
    (plain : p = .char '$' → rest.head? ≠ some (.char '\x7b')) :
    textTokens (fuel + 1) run (p :: rest) = textTokens fuel (p :: run) rest := by
  rw [textTokens]
  rintro after rfl rfl
  exact plain rfl rfl

theorem textTokens_action (fuel : Nat) (run : List Piece) {inner : List Piece} {p : Piece} {t : Token}
    (solid : isSpace p = false) (first : p ≠ .char '\x7d' ∧ p ≠ .char '-' ∧ p ≠ .char '/')
    (read : actionToken? (p :: inner ++ .char '\x7d' :: rest) = some (t, .char '\x7d' :: rest))
    (flat : t ≠ .openParen ∧ t ≠ .closeParen) :
    textTokens (fuel + 4) run (.char '$' :: .char '\x7b' :: p :: inner ++ .char '\x7d' :: rest) =
      (textTokens fuel [] rest).map fun ts =>
        textToken run.reverse ++ .actionStart :: t :: .actionEnd :: ts := by
  have goesOn : actionEnd? (p :: inner ++ .char '\x7d' :: rest) = none := by
    unfold actionEnd?
    split
    next here => exact absurd (List.cons.inj here).1 first.1
    next here =>
      obtain ⟨rfl, -⟩ := List.cons.inj here
      simp [solid]
    next => rfl
  -- The end of the action, its token and its front, each with one unit of fuel more.
  have last : actionTokens (fuel + 1) 0 (.char '\x7d' :: rest) =
      (textTokens fuel [] rest).map (.actionEnd :: ·) := by
    unfold actionTokens
    simp only [show actionEnd? (.char '\x7d' :: rest) = some rest from rfl, if_true]
    cases textTokens fuel [] rest <;> rfl
  have token : nextTokens (fuel + 2) 0 (p :: inner ++ .char '\x7d' :: rest) =
      (textTokens fuel [] rest).map (t :: .actionEnd :: ·) := by
    unfold nextTokens
    rw [read]
    split
    next none => cases none
    next same => cases same; exact absurd rfl flat.1
    next same => cases same; exact absurd rfl flat.2
    next same =>
      cases same
      rw [last]
      cases textTokens fuel [] rest <;> rfl
  have inside : actionTokens (fuel + 3) 0 (p :: inner ++ .char '\x7d' :: rest) =
      (textTokens fuel [] rest).map (t :: .actionEnd :: ·) := by
    unfold actionTokens
    rw [goesOn]
    simp only
    split
    next here =>
      obtain ⟨rfl, -⟩ := List.cons.inj here
      simp [solid, ← token]
    next => exact token
  rw [List.cons_append, List.cons_append, textTokens]
  · simp only [inside]
    cases textTokens fuel [] rest <;> rfl
  · rintro d after same
    exact first.2.1 (List.cons.inj same).1
  · rintro after same
    exact first.2.2 (List.cons.inj same).1

theorem actionToken?_dollar (rest : List Piece) :
    actionToken? (.char '"' :: [.char '$', .char '"'] ++ .char '\x7d' :: rest) =
      some (.string (Text.bytes "$"), .char '\x7d' :: rest) := by
  have sign : Text.bytes "$" = Piece.bytes (.char '$') := by decide +kernel
  rw [sign]
  rfl

theorem isWordPart_of_isNamePart {c : Char} (part : isNamePart c = true) : isWordPart (.char c) = true := by
  simp only [isNamePart, isNameStart, Bool.or_eq_true, decide_eq_true_eq] at part
  rcases part with (alpha | rfl) | digit
  · simp [isWordPart, Char.isAlphanum, alpha]
  · decide
  · simp [isWordPart, Char.isAlphanum, digit]

theorem actionToken?_field {name : List Char} (named : isName name = true) (rest : List Piece) :
    actionToken? (.char '.' :: name.map .char ++ .char '\x7d' :: rest) =
      some (.field (String.ofList name), .char '\x7d' :: rest) := by
  have word : ∀ p ∈ name.map Piece.char, isWordPart p = true := by
    intro p member
    obtain ⟨c, inside, rfl⟩ := List.mem_map.mp member
    exact isWordPart_of_isNamePart (isNamePart_of_isName named c inside)
  have brace : isWordPart (.char '\x7d') = false := by decide
  have taken : (name.map Piece.char ++ .char '\x7d' :: rest).takeWhile isWordPart = name.map .char := by
    rw [List.takeWhile_append_of_pos word, List.takeWhile_cons_of_neg (by simp [brace]), List.append_nil]
  have left : (name.map Piece.char ++ .char '\x7d' :: rest).dropWhile isWordPart = .char '\x7d' :: rest := by
    rw [List.dropWhile_append_of_pos word, List.dropWhile_cons_of_neg (by simp [brace])]
  -- a digit behind the point would make it a number
  obtain ⟨c, cs, rfl⟩ : ∃ c cs, name = c :: cs := List.exists_cons_of_ne_nil (by rintro rfl; cases named)
  have start : c.isDigit = false := by
    simp only [isName, Bool.and_eq_true] at named
    exact isDigit_eq_false_of_isNameStart named.1
  rw [List.cons_append, actionToken?]
  · dsimp only
    rw [if_neg (by decide), if_neg (by decide), if_pos (by simp [Piece.shown, start]), taken, left, shown_map_char]
    simp [endsWord, Piece.shown]
  all_goals simp

theorem Reads.textTokens (read : Reads ps parts) {fuel : Nat} (run : List Piece)
    (enough : (Part.actions parts).length < fuel) :
    Template.textTokens fuel run (Part.actions parts) = some ((segments run parts).flatMap Segment.tokens) := by
  induction read generalizing fuel run with
  | done =>
    obtain ⟨fuel, rfl⟩ := Nat.exists_eq_add_one_of_ne_zero (Nat.ne_zero_of_lt enough)
    simp only [Part.actions, List.flatMap_nil, Template.textTokens, segments, textToken_eq]
  | @dollar rest parts read ih =>
    have spelled : Part.actions (.dollar :: parts) =
        .char '$' :: .char '\x7b' :: .char '"' :: [.char '$', .char '"'] ++ .char '\x7d' :: Part.actions parts := rfl
    rw [spelled] at enough ⊢
    simp only [List.length_append, List.length_cons, List.length_nil] at enough
    obtain ⟨fuel, rfl⟩ : ∃ n, fuel = n + 4 := Nat.exists_eq_add_of_le' (by omega)
    have ended := textTokens_action fuel run (by decide) (by decide)
      (actionToken?_dollar (Part.actions parts)) (by simp)
    rw [ih [] (by omega)] at ended
    simpa [segments, textToken_eq, Segment.tokens] using ended
  | @place before after rest name parts named _ read ih =>
    have length : (Part.actions (.place (String.ofList name) :: parts)).length =
        (Part.actions parts).length + name.length + 4 := by
      simp [Part.actions, Part.action]
      omega
    obtain ⟨fuel, rfl⟩ : ∃ n, fuel = n + 4 := Nat.exists_eq_add_of_le' (by omega)
    have ended := textTokens_action fuel run (by decide) (by decide)
      (actionToken?_field named (Part.actions parts)) (by simp)
    rw [ih [] (by omega)] at ended
    simpa [segments, textToken_eq, Segment.tokens, Part.actions, Part.action] using ended
  | @plain p rest parts lone read ih =>
    obtain ⟨fuel, rfl⟩ := Nat.exists_eq_add_one_of_ne_zero (Nat.ne_zero_of_lt enough)
    have next : Part.actions (.plain p :: parts) = p :: Part.actions parts := rfl
    rw [next, textTokens_plain, ih, segments]
    · simpa [next] using enough
    · exact fun same => read.head? ▸ (lone same).2

end Parts

end Flowsheet.Template
