import Flowsheet.Template.Placeholder

set_option autoImplicit false

namespace Flowsheet.Template

open Text (Piece shown shown_map_char)

-- A text is read once, from left to right. Spelling its places as actions keeps the parts apart,
-- because what stands for itself never runs into the opening of an action.

inductive Part where
  | plain (p : Piece)
  | dollar
  | place (name : String)
deriving DecidableEq, Repr

def Lone (p : Piece) (rest : List Piece) : Prop :=
  p = .char '$' → rest.head? ≠ some (.char '$') ∧ rest.head? ≠ some (.char '\x7b')

instance (p : Piece) (rest : List Piece) : Decidable (Lone p rest) :=
  inferInstanceAs (Decidable (p = .char '$' → _ ∧ _))

/-- The parts of a text. Blanks around the name of a place do not belong to it. -/
inductive Reads : List Piece → List Part → Prop
  | done : Reads [] []
  | dollar {rest : List Piece} {parts : List Part} (read : Reads rest parts) :
      Reads (.char '$' :: .char '$' :: rest) (.dollar :: parts)
  | place {before after rest : List Piece} {name : List Char} {parts : List Part} (named : isName name = true)
      (blank : ∀ p ∈ before ++ after, isBlank p = true) (read : Reads rest parts) :
      Reads (.char '$' :: .char '\x7b' :: (before ++ name.map .char ++ after) ++ .char '\x7d' :: rest)
        (.place (String.ofList name) :: parts)
  | plain {p : Piece} {rest : List Piece} {parts : List Part} (lone : Lone p rest)
      (read : Reads rest parts) : Reads (p :: rest) (.plain p :: parts)

/-- A place is opened and no brace closes it. What comes before it may hold pipelines. -/
inductive Unterminated : List Piece → Prop
  | here {rest : List Piece} (unclosed : .char '\x7d' ∉ rest) : Unterminated (.char '$' :: .char '\x7b' :: rest)
  | dollar {rest : List Piece} (later : Unterminated rest) : Unterminated (.char '$' :: .char '$' :: rest)
  | place {inner rest : List Piece} (closed : .char '\x7d' ∉ inner) (later : Unterminated rest) :
      Unterminated (.char '$' :: .char '\x7b' :: inner ++ .char '\x7d' :: rest)
  | plain {p : Piece} {rest : List Piece} (lone : Lone p rest) (later : Unterminated rest) :
      Unterminated (p :: rest)

namespace Part

def names (parts : List Part) : List String :=
  parts.filterMap fun
    | .place x => some x
    | .plain _ | .dollar => none

@[simp] theorem names_plain (p : Piece) (parts : List Part) : names (.plain p :: parts) = names parts := rfl

@[simp] theorem names_dollar (parts : List Part) : names (.dollar :: parts) = names parts := rfl

@[simp] theorem names_place (x : String) (parts : List Part) :
    names (.place x :: parts) = x :: names parts := rfl

def action : Part → List Piece
  | .plain p => [p]
  | .dollar => dollarAction
  | .place x => .char '$' :: .char '\x7b' :: .char '.' :: x.toList.map .char ++ [.char '\x7d']

def actions (parts : List Part) : List Piece := parts.flatMap action

end Part

theorem isNamePart_of_isName {name : List Char} (named : isName name = true) :
    ∀ c ∈ name, isNamePart c = true := by
  cases name with
  | nil => cases named
  | cons c cs =>
    simp only [isName, Bool.and_eq_true, List.all_eq_true] at named
    intro d member
    rcases List.mem_cons.mp member with rfl | member
    · simp [isNamePart, named.1]
    · exact named.2 d member

example : isName "x_1".toList = true ∧ isName "1_x".toList = false := by cbv

theorem isNameStart_range {c : Char} (start : isNameStart c = true) :
    65 ≤ c.toNat ∧ c.toNat ≤ 90 ∨ c.toNat = 95 ∨ 97 ≤ c.toNat ∧ c.toNat ≤ 122 := by
  have letters : c.isAlpha = (decide ('A'.val ≤ c.val ∧ c.val ≤ 'Z'.val) ||
      (decide ('a'.val ≤ c.val) && decide (c.val ≤ 'z'.val))) := rfl
  simp only [isNameStart, letters, Bool.or_eq_true, Bool.and_eq_true, decide_eq_true_eq,
    UInt32.le_iff_toNat_le] at start
  rcases start with (upper | lower) | rfl
  · exact .inl upper
  · exact .inr (.inr lower)
  · exact .inr (.inl rfl)

theorem isDigit_eq_false_of_isNameStart {c : Char} (start : isNameStart c = true) :
    c.isDigit = false := by
  rw [Bool.eq_false_iff]
  intro digit
  simp only [Char.isDigit, Bool.and_eq_true, decide_eq_true_eq, UInt32.le_iff_toNat_le] at digit
  have above : c.toNat ≤ 57 := digit.2
  have range := isNameStart_range start
  omega

theorem isNamePart_range {c : Char} (part : isNamePart c = true) :
    48 ≤ c.toNat ∧ c.toNat ≤ 57 ∨ 65 ≤ c.toNat ∧ c.toNat ≤ 90 ∨ c.toNat = 95 ∨
      97 ≤ c.toNat ∧ c.toNat ≤ 122 := by
  simp only [isNamePart, Char.isDigit, Bool.or_eq_true, Bool.and_eq_true, decide_eq_true_eq,
    UInt32.le_iff_toNat_le] at part
  exact part.symm.imp_right isNameStart_range

theorem isBlank_eq_false_of_isNamePart {c : Char} (part : isNamePart c = true) :
    Text.isBlank c = false := by
  have range := isNamePart_range part
  simp only [Text.isBlank, Bool.or_eq_false_iff, Bool.and_eq_false_iff, decide_eq_false_iff_not]
  omega

theorem ne_brace_of_isNamePart {c : Char} (part : isNamePart c = true) : c ≠ '\x7d' := by
  rintro rfl
  exact absurd part (by decide)

theorem ne_brace_of_isBlank {p : Piece} (blank : isBlank p = true) : p ≠ .char '\x7d' := by
  rintro rfl
  exact absurd blank (by decide)

section Place

variable {before after : List Piece} {name : List Char}

theorem trimmed_name (named : isName name = true) (blank : ∀ p ∈ before ++ after, isBlank p = true) :
    trimmed (before ++ name.map .char ++ after) = name.map .char := by
  have parts := isNamePart_of_isName named
  have solid {cs : List Char} (some : cs ≠ []) (inside : ∀ c ∈ cs, c ∈ name) (rest : List Piece) :
      (cs.map Piece.char ++ rest).dropWhile isBlank = cs.map .char ++ rest := by
    obtain ⟨c, cs, rfl⟩ := List.exists_cons_of_ne_nil some
    refine List.dropWhile_cons_of_neg ?_
    simp [isBlank, Piece.shown, isBlank_eq_false_of_isNamePart (parts c (inside c (by simp)))]
  have filled : name ≠ [] := by
    rintro rfl
    cases named
  have start : (before ++ name.map Piece.char ++ after).dropWhile isBlank = name.map .char ++ after := by
    rw [List.append_assoc, List.dropWhile_append_of_pos fun p member => blank p (List.mem_append_left _ member),
      solid filled (fun _ => id)]
  have ended := solid (by simpa using filled : name.reverse ≠ []) (fun c => List.mem_reverse.mp) []
  rw [List.append_nil, List.map_reverse] at ended
  rw [trimmed, start, List.reverse_append, List.dropWhile_append_of_pos fun p member =>
    blank p (List.mem_append_right _ (List.mem_reverse.mp member)), ended, List.reverse_reverse]

theorem closed_place (named : isName name = true) (blank : ∀ p ∈ before ++ after, isBlank p = true) :
    .char '\x7d' ∉ before ++ name.map .char ++ after := by
  intro member
  simp only [List.mem_append] at member
  rcases member with (first | inside) | last
  · exact ne_brace_of_isBlank (blank _ (List.mem_append_left _ first)) rfl
  · obtain ⟨c, inside, same⟩ := List.mem_map.mp inside
    exact ne_brace_of_isNamePart (isNamePart_of_isName named c inside) (Piece.char.inj same)
  · exact ne_brace_of_isBlank (blank _ (List.mem_append_right _ last)) rfl

end Place

theorem actions_plain {p : Piece} {rest : List Piece} (lone : Lone p rest) :
    actions (p :: rest) = (actions rest).map (·.prepend [p]) := by
  rw [actions]
  · rintro rest' rfl rfl
    exact (lone rfl).1 rfl
  · rintro rest' rfl rfl
    exact (lone rfl).2 rfl

theorem actions_dollar (rest : List Piece) :
    actions (.char '$' :: .char '$' :: rest) = (actions rest).map (·.prepend dollarAction) := by
  rw [actions]

example : (actions ("$$5".toList.map .char)).toOption.map (·.text) = some ("$\x7b\"$\"\x7d5".toList.map .char) := by
  cbv

theorem split_place {inner : List Piece} (closed : .char '\x7d' ∉ inner) (rest : List Piece) :
    (inner ++ .char '\x7d' :: rest).takeWhile (· ≠ .char '\x7d') = inner ∧
      (inner ++ .char '\x7d' :: rest).dropWhile (· ≠ .char '\x7d') = .char '\x7d' :: rest := by
  have inside : ∀ c ∈ inner, decide (c ≠ .char '\x7d') = true := fun c member =>
    decide_eq_true fun same => closed (same ▸ member)
  constructor
  · rw [List.takeWhile_append_of_pos inside, List.takeWhile_cons_of_neg (by simp), List.append_nil]
  · rw [List.dropWhile_append_of_pos inside, List.dropWhile_cons_of_neg (by simp)]

theorem Reads.unique {cs : List Piece} {parts others : List Part} (read : Reads cs parts)
    (again : Reads cs others) : parts = others := by
  induction read generalizing others with
  | done => cases again; rfl
  | dollar _ ih =>
    cases again with
    | dollar read => rw [ih read]
    | plain lone => exact absurd rfl (lone rfl).1
  | @place before after rest name parts named blank _ ih =>
    generalize whole : .char '$' :: .char '\x7b' :: (before ++ name.map .char ++ after) ++ .char '\x7d' :: rest = cs at again
    cases again with
    | done => simp at whole
    | dollar => simp at whole
    | @place before' after' rest' name' parts' named' blank' read =>
      -- Both readings close the place at the first brace, so they agree on what it holds and what is left.
      have same : before ++ name.map .char ++ after ++ .char '\x7d' :: rest =
          before' ++ name'.map .char ++ after' ++ .char '\x7d' :: rest' := by simpa using whole
      obtain ⟨taken, left⟩ := split_place (closed_place named blank) rest
      obtain ⟨taken', left'⟩ := split_place (closed_place named' blank') rest'
      obtain rfl : rest = rest' := by
        rw [same, left'] at left
        exact (List.cons.inj left).2.symm
      have held : name.map Piece.char = name'.map .char := by
        rw [← trimmed_name named blank, ← trimmed_name named' blank', ← taken, ← taken', same]
      rw [ih read, ← shown_map_char name, held, shown_map_char]
    | plain lone =>
      obtain ⟨rfl, rfl⟩ := List.cons.inj whole
      exact absurd rfl (lone rfl).2
  | plain lone _ ih =>
    cases again with
    | dollar => exact absurd rfl (lone rfl).1
    | place => exact absurd rfl (lone rfl).2
    | plain _ read => rw [ih read]

theorem actions_place {inner rest : List Piece} (closed : .char '\x7d' ∉ inner) :
    actions (.char '$' :: .char '\x7b' :: inner ++ .char '\x7d' :: rest) =
      if isName (shown (trimmed inner)) then
        (actions rest).map fun a =>
          ⟨.char '$' :: .char '\x7b' :: .char '.' :: trimmed inner ++ .char '\x7d' :: a.text,
            String.ofList (shown (trimmed inner)) :: a.names⟩
      else
        match checkBody (trimmed inner) with
        | .error e => .error e
        | .ok _ => (actions rest).map (·.prepend (.char '$' :: .char '\x7b' :: inner ++ [.char '\x7d'])) := by
  obtain ⟨taken, left⟩ := split_place closed rest
  rw [List.cons_append, List.cons_append, actions]
  split
  next ended =>
    rw [left] at ended
    cases ended
  next after more =>
    obtain ⟨-, rfl⟩ := List.cons.inj (left.symm.trans more)
    cases checked : checkBody (trimmed inner) <;> simp only [taken, checked]

theorem actions_unclosed {rest : List Piece} (unclosed : .char '\x7d' ∉ rest) :
    actions (.char '$' :: .char '\x7b' :: rest) = .ok ⟨.char '$' :: .char '\x7b' :: rest, []⟩ := by
  rw [actions]
  split
  next => rfl
  next after more =>
    have closes : .char '\x7d' ∈ rest.dropWhile (· ≠ .char '\x7d') := by
      have first := List.head?_dropWhile_not (fun c => decide (c ≠ .char '\x7d')) rest
      simp only [more, List.head?_cons] at first
      simp only [more]
      simp_all
    exact absurd ((List.dropWhile_sublist _).subset closes) unclosed

theorem Reads.actions {cs : List Piece} {parts : List Part} (read : Reads cs parts) :
    Template.actions cs = .ok ⟨Part.actions parts, Part.names parts⟩ := by
  induction read with
  | done => rw [Template.actions]; rfl
  | dollar _ ih => rw [actions_dollar, ih]; rfl
  | @place before after rest name parts named blank _ ih =>
    rw [actions_place (closed_place named blank), trimmed_name named blank, shown_map_char, if_pos named, ih]
    simp [Except.map, Part.actions, Part.names, Part.action]
  | plain lone _ ih => rw [actions_plain lone, ih]; rfl

def Unclosed (cs : List Piece) : Prop :=
  ∃ before after, cs = before ++ .char '$' :: .char '\x7b' :: after ∧ .char '\x7d' ∉ after

theorem Unclosed.append {cs : List Piece} (unclosed : Unclosed cs) (more : List Piece) :
    Unclosed (more ++ cs) := by
  obtain ⟨before, after, rfl, absent⟩ := unclosed
  exact ⟨more ++ before, after, by simp, absent⟩

theorem Unclosed.of_prepend {rest more : List Piece} {a : Actions}
    (later : ∀ b, actions rest = .ok b → Unclosed b.text)
    (spelled : (actions rest).map (·.prepend more) = .ok a) : Unclosed a.text := by
  cases read : actions rest with
  | error e => simp [read, Except.map] at spelled
  | ok b =>
    obtain rfl : b.prepend more = a := by simpa [read, Except.map] using spelled
    exact (later b read).append more

theorem Unterminated.actions {cs : List Piece} (unterminated : Unterminated cs) (a : Actions)
    (spelled : Template.actions cs = .ok a) : Unclosed a.text := by
  induction unterminated generalizing a with
  | here unclosed =>
    rw [actions_unclosed unclosed] at spelled
    cases spelled
    exact ⟨[], _, rfl, unclosed⟩
  | dollar _ ih =>
    rw [actions_dollar] at spelled
    exact .of_prepend ih spelled
  | @place inner rest closed _ ih =>
    rw [actions_place closed] at spelled
    split at spelled
    · cases read : Template.actions rest with
      | error e => simp [read, Except.map] at spelled
      | ok b =>
        rw [read] at spelled
        cases spelled
        exact ((ih b read).append [.char '\x7d']).append (.char '$' :: .char '\x7b' :: .char '.' :: trimmed inner)
    · split at spelled
      · cases spelled
      · exact .of_prepend ih spelled
  | plain lone _ ih =>
    rw [actions_plain lone] at spelled
    exact .of_prepend ih spelled

end Flowsheet.Template
