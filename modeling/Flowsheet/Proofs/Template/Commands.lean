import Flowsheet.Template.Placeholder
import Flowsheet.Template.Token
import Mathlib.Tactic.Common

set_option autoImplicit false

namespace Flowsheet.Template

open Text (Piece shown shown_map_char)

-- A place is refused by the look of its body alone: exact about the bars that are there to see, blind
-- to literals, parentheses and marks.

def isQuote (c : Char) : Bool := c = '"' || c = '\'' || c.toNat = 96

inductive Mode where
  | plain
  | literal (quote : Char)
  | escaped (quote : Char)
deriving DecidableEq, Repr

def Mode.next : Mode → Char → Mode
  | .plain, c => if isQuote c then .literal c else .plain
  -- Nothing is escaped between grave accents.
  | .literal q, c => if c = q then .plain else if c = '\\' && q.toNat ≠ 96 then .escaped q else .literal q
  | .escaped q, _ => .literal q

def Mode.shown : Mode → Char → Char
  | .plain, c => if isQuote c then 'x' else c
  | .literal _, _ | .escaped _, _ => 'x'

/-- A body with its literals blotted out, quotes included. -/
def blot : Mode → List Char → List Char
  | _, [] => []
  | m, c :: cs => m.shown c :: blot (m.next c) cs

def dropMark : List Char → List Char
  | '-' :: rest => if rest.head?.all fun c => isSpace (.char c) then rest else '-' :: rest
  | cs => cs

def unmarked (cs : List Char) : List Char := (dropMark (dropMark cs).reverse).reverse

def neighbours (s : Option Char) : List Char → List (Option Char × Option Char)
  | [] => [(s, none)]
  | c :: cs => if isGap c then neighbours s cs else (s, some c) :: neighbours (some c) cs

def begins : Option Char → Bool
  | none => true
  | some c => c = '|' || c = '('

def ends : Option Char → Bool
  | none => true
  | some c => c = '|' || c = ')'

def isEdge : Option Char → Bool
  | none => true
  | some c => c = '|'

/-- There is a command with nothing in it, in the pipeline or in one that stands in parentheses. -/
def isHollow (pipeline : List Char) : Bool := (neighbours none pipeline).any fun p => begins p.1 && ends p.2

def pipeline (body : List Char) : List Char := unmarked (blot .plain body)

/-- No literal holds a bar: every one is still there when the literals are blotted out. -/
def ShowsBars (body : List Char) : Prop := ∀ p ∈ body.zip (blot .plain body), p.1 = '|' → p.2 = '|'

instance (body : List Char) : Decidable (ShowsBars body) :=
  inferInstanceAs (Decidable (∀ p ∈ body.zip (blot .plain body), p.1 = '|' → p.2 = '|'))

/-- No mark trims the text around the place. -/
def Unmarked (body : List Char) : Prop := pipeline body = blot .plain body

instance (body : List Char) : Decidable (Unmarked body) :=
  inferInstanceAs (Decidable (pipeline body = blot .plain body))

/-- A command is empty only between bars and ends, never beside a parenthesis. -/
def FullParentheses (body : List Char) : Prop :=
  ∀ p ∈ neighbours none (blot .plain body), begins p.1 = true → ends p.2 = true →
    isEdge p.1 = true ∧ isEdge p.2 = true

instance (body : List Char) : Decidable (FullParentheses body) :=
  inferInstanceAs (Decidable (∀ p ∈ neighbours none (blot .plain body), begins p.1 = true → ends p.2 = true →
    isEdge p.1 = true ∧ isEdge p.2 = true))

def Bare (ps : List (Option Char × Option Char)) : Prop := ∃ p ∈ ps, isEdge p.1 = true ∧ isEdge p.2 = true

variable {c : Char} {s s' : Option Char} {cs body : List Char} {m : Mode}

theorem isBlank_of_isGap (gap : isGap c = true) : Text.isBlank c = true := by
  simp only [isGap, Bool.or_eq_true, decide_eq_true_eq] at gap
  rcases gap with (((rfl | rfl) | rfl) | rfl) | page
  · decide
  · decide
  · decide
  · decide
  · simp [Text.isBlank, page]

theorem begins_of_isEdge (edge : isEdge s = true) : begins s = true := by
  cases s with
  | none => rfl
  | some c => simpa [begins] using .inl (by simpa [isEdge] using edge)

theorem ends_of_isEdge (edge : isEdge s = true) : ends s = true := by
  cases s with
  | none => rfl
  | some c => simpa [ends] using .inl (by simpa [isEdge] using edge)

theorem bars_mem_neighbours : (some '|', some '|') ∈ neighbours s cs ↔
    s = some '|' ∧ (cs.dropWhile isGap).head? = some '|' ∨ hasBarePair cs = true := by
  induction cs generalizing s with
  | nil => simp [neighbours, hasBarePair]
  | cons c cs ih =>
    by_cases gap : isGap c = true
    next =>
      have notBar : c ≠ '|' := by rintro rfl; exact absurd gap (by decide)
      simp [neighbours, gap, ih, hasBarePair, notBar]
    next => grind [neighbours, hasBarePair, List.dropWhile_cons]

theorem start_mem_neighbours : (none, some '|') ∈ neighbours s cs ↔
    s = none ∧ (cs.dropWhile isGap).head? = some '|' := by
  induction cs generalizing s with
  | nil => simp [neighbours]
  | cons c cs ih =>
    by_cases gap : isGap c = true
    next => simp [neighbours, gap, ih]
    next => simp [neighbours, gap, ih, eq_comm]

theorem end_mem_neighbours {t : Option Char} : (t, none) ∈ neighbours s cs ↔
    (cs.reverse.dropWhile isGap).head?.or s = t := by
  induction cs generalizing s with
  | nil => simp [neighbours, eq_comm]
  | cons c cs ih =>
    have last : ((c :: cs).reverse.dropWhile isGap).head? =
        (cs.reverse.dropWhile isGap).head?.or (if isGap c then none else some c) := by
      rw [List.reverse_cons, List.dropWhile_append]
      cases rest : cs.reverse.dropWhile isGap with
      | nil => by_cases gap : isGap c = true <;> simp [gap]
      | cons d ds => simp
    by_cases gap : isGap c = true
    next => rw [neighbours, if_pos gap, ih, last, if_pos gap, Option.or_none]
    next =>
      rw [neighbours, if_neg gap, last, if_neg gap, Option.or_assoc]
      simp [ih]

theorem bare_iff : Bare (neighbours none cs) ↔ (cs.reverse.dropWhile isGap).head? = none ∨
    (cs.dropWhile isGap).head? = some '|' ∨ hasBarePair cs = true ∨
    (cs.reverse.dropWhile isGap).head? = some '|' := by
  have known : Bare (neighbours none cs) ↔ (none, none) ∈ neighbours none cs ∨
      (none, some '|') ∈ neighbours none cs ∨ (some '|', some '|') ∈ neighbours none cs ∨
      (some '|', none) ∈ neighbours none cs := by
    constructor
    · rintro ⟨⟨_ | c, _ | d⟩, inside, left, right⟩
      · exact .inl inside
      · obtain rfl : d = '|' := by simpa [isEdge] using right
        exact .inr (.inl inside)
      · obtain rfl : c = '|' := by simpa [isEdge] using left
        exact .inr (.inr (.inr inside))
      · obtain rfl : c = '|' := by simpa [isEdge] using left
        obtain rfl : d = '|' := by simpa [isEdge] using right
        exact .inr (.inr (.inl inside))
    · rintro (inside | inside | inside | inside)
      all_goals exact ⟨_, inside, rfl, rfl⟩
  rw [known, bars_mem_neighbours, start_mem_neighbours, end_mem_neighbours, end_mem_neighbours]
  simp

theorem dropWhile_eq_self {p : Char → Bool} (starts : ∀ c, cs.head? = some c → p c = false) :
    cs.dropWhile p = cs := by
  cases cs with
  | nil => rfl
  | cons c cs => simp [starts c rfl]

theorem head?_shown {ps : List Piece} (bare : ∀ p, ps.head? = some p → isBlank p = false) :
    ∀ c, (shown ps).head? = some c → isGap c = false := by
  intro c first
  rw [shown, List.head?_map, Option.map_eq_some_iff] at first
  obtain ⟨p, first, rfl⟩ := first
  by_contra gap
  have solid := bare p first
  rw [isBlank, isBlank_of_isGap (by simpa using gap)] at solid
  cases solid

theorem head?_trimmed (inner : List Piece) : ∀ p, (trimmed inner).head? = some p → isBlank p = false := by
  intro p first
  obtain ⟨d, ds, whole⟩ : ∃ d ds, inner.dropWhile isBlank = d :: ds := by
    cases rest : inner.dropWhile isBlank with
    | nil => simp [trimmed, rest] at first
    | cons d ds => exact ⟨d, ds, rfl⟩
  have front : trimmed inner <+: d :: ds := by
    have suffix := List.dropWhile_suffix isBlank (l := (d :: ds).reverse)
    simpa [trimmed, whole] using List.reverse_prefix.mpr suffix
  have same : p = d := by
    obtain ⟨rest, split⟩ := front
    cases body : trimmed inner with
    | nil => simp [body] at first
    | cons e es =>
      rw [body] at first split
      simp only [List.head?_cons, Option.some.injEq] at first
      exact first ▸ (List.cons.inj split).1
  have solid := List.head?_dropWhile_not isBlank inner
  simp only [whole, List.head?_cons] at solid
  rw [same]
  exact solid

theorem head?_reverse_trimmed (inner : List Piece) :
    ∀ p, (trimmed inner).reverse.head? = some p → isBlank p = false := by
  intro p last
  rw [trimmed, List.reverse_reverse] at last
  have solid := List.head?_dropWhile_not isBlank (inner.dropWhile isBlank).reverse
  rw [last] at solid
  exact solid

theorem refused_iff_bare (inner : List Piece) :
    checkBody (trimmed inner) ≠ .ok () ↔ Bare (neighbours none (shown (trimmed inner))) := by
  have last : ∀ c, (shown (trimmed inner)).reverse.head? = some c → isGap c = false := by
    rw [shown, ← List.map_reverse]
    exact head?_shown (head?_reverse_trimmed inner)
  rw [bare_iff, dropWhile_eq_self (head?_shown (head?_trimmed inner)), dropWhile_eq_self last]
  cases body : trimmed inner with
  | nil => simp [checkBody, shown]
  | cons p ps =>
    obtain ⟨c, cs, look⟩ : ∃ c cs, shown (p :: ps) = c :: cs := ⟨_, _, rfl⟩
    by_cases empty : hasEmptyCommand (c :: cs) = true
    next =>
      have parts : c = '|' ∨ hasBarePair (c :: cs) = true ∨ (c :: cs).getLast? = some '|' := by
        simpa [hasEmptyCommand, or_assoc] using empty
      simp only [checkBody, empty, List.isEmpty_cons, Bool.false_eq_true, if_false, if_true, ne_eq, reduceCtorEq,
        not_false_eq_true, look, List.head?_reverse, List.head?_cons, Option.some.injEq, true_iff]
      exact .inr parts
    next =>
      have parts : ¬ (c = '|' ∨ hasBarePair (c :: cs) = true ∨ (c :: cs).getLast? = some '|') := by
        simpa [hasEmptyCommand, or_assoc] using empty
      simp only [checkBody, empty, List.isEmpty_cons, Bool.false_eq_true, if_false, ne_eq, not_true_eq_false,
        look, List.head?_reverse, List.head?_cons, Option.some.injEq, false_iff]
      rintro (none | edge)
      · simp at none
      · exact parts edge

theorem bare_cons {p : Option Char × Option Char} {ps : List (Option Char × Option Char)} :
    Bare (p :: ps) ↔ isEdge p.1 = true ∧ isEdge p.2 = true ∨ Bare ps := by
  simp [Bare]

theorem neighbours_gap (gap : isGap c = true) : neighbours s (c :: cs) = neighbours s cs := by
  rw [neighbours, if_pos gap]

theorem neighbours_sign (sign : isGap c = false) :
    neighbours s (c :: cs) = (s, some c) :: neighbours (some c) cs := by
  rw [neighbours, if_neg (by simp [sign])]

theorem bare_blotted : Bare (neighbours s' ('x' :: cs)) ↔ Bare (neighbours (some 'x') cs) := by
  rw [neighbours_sign (by decide), bare_cons]
  simp [isEdge]

theorem bare_of_blot (edge : isEdge s' = true → s = s') (bare : Bare (neighbours s' (blot m cs))) :
    Bare (neighbours s cs) := by
  induction cs generalizing s s' m with
  | nil =>
    obtain ⟨p, inside, left, right⟩ := bare
    obtain rfl := List.mem_singleton.mp inside
    exact ⟨_, List.mem_singleton_self _, by rw [edge left]; exact left, rfl⟩
  | cons c cs ih =>
    have vacuous {t : Option Char} (edge : isEdge (some 'x') = true) : t = some 'x' := absurd edge (by decide)
    -- What is blotted out is no edge, so it cannot be one of the two.
    have hidden (blotted : Bare (neighbours s' ('x' :: blot (m.next c) cs))) : Bare (neighbours s (c :: cs)) := by
      rw [bare_blotted] at blotted
      by_cases gap : isGap c = true
      next =>
        rw [neighbours_gap gap]
        exact ih vacuous blotted
      next =>
        rw [neighbours_sign (by simpa using gap), bare_cons]
        exact .inr (ih vacuous blotted)
    cases m with
    | literal q => exact hidden bare
    | escaped q => exact hidden bare
    | plain =>
      by_cases quote : isQuote c = true
      next =>
        rw [blot, Mode.shown, if_pos quote] at bare
        exact hidden bare
      next =>
        rw [blot, Mode.shown, Mode.next, if_neg quote, if_neg quote] at bare
        by_cases gap : isGap c = true
        next =>
          rw [neighbours_gap gap] at bare ⊢
          exact ih edge bare
        next =>
          rw [neighbours_sign (by simpa using gap), bare_cons] at bare ⊢
          refine bare.imp (fun ⟨left, right⟩ => ⟨by rw [edge left]; exact left, right⟩) fun rest => ?_
          exact ih (fun _ => rfl) rest

theorem bare_blot (shows : ∀ p ∈ cs.zip (blot m cs), p.1 = '|' → p.2 = '|') (edge : isEdge s = true → s = s')
    (inside : m ≠ .plain → isEdge s = false) (bare : Bare (neighbours s cs)) :
    Bare (neighbours s' (blot m cs)) := by
  induction cs generalizing s s' m with
  | nil =>
    obtain ⟨p, single, left, right⟩ := bare
    obtain rfl := List.mem_singleton.mp single
    exact ⟨_, List.mem_singleton_self _, by rw [← edge left]; exact left, rfl⟩
  | cons c cs ih =>
    rw [blot, List.zip_cons_cons, List.forall_mem_cons] at shows
    obtain ⟨here, later⟩ := shows
    -- a character that is blotted out is no bar, and the sign before it is no edge
    have hidden (blotted : m.shown c = 'x') (notBar : c ≠ '|') (before : m ≠ .plain ∨ isGap c = false) :
        Bare (neighbours s' (blot m (c :: cs))) := by
      have sign : isEdge (some c) = false := by simpa [isEdge] using notBar
      rw [blot, blotted, bare_blotted]
      by_cases gap : isGap c = true
      next =>
        have none := inside (before.resolve_right (by simp [gap]))
        rw [neighbours_gap gap] at bare
        exact ih later (fun edge => absurd edge (by simp [none])) (fun _ => none) bare
      next =>
        rw [neighbours_sign (by simpa using gap), bare_cons, sign] at bare
        exact ih later (fun edge => absurd edge (by simp [sign])) (fun _ => sign) (bare.resolve_left (by simp))
    cases m with
    | literal q => exact hidden rfl (fun bar => absurd (here bar) (by decide : 'x' ≠ '|')) (.inl nofun)
    | escaped q => exact hidden rfl (fun bar => absurd (here bar) (by decide : 'x' ≠ '|')) (.inl nofun)
    | plain =>
      by_cases quote : isQuote c = true
      next =>
        have notBar : c ≠ '|' := by rintro rfl; exact absurd quote (by decide)
        have sign : isGap c = false := by
          simp only [isQuote, Bool.or_eq_true, decide_eq_true_eq] at quote
          rcases quote with (rfl | rfl) | grave
          · decide
          · decide
          · have spelled : c = Char.ofNat 96 := by rw [← grave, Char.ofNat_toNat]
            rw [spelled]
            decide
        exact hidden (if_pos quote) notBar (.inr sign)
      next =>
        rw [blot, Mode.shown, Mode.next, if_neg quote, if_neg quote]
        rw [Mode.next, if_neg quote] at later
        by_cases gap : isGap c = true
        next =>
          rw [neighbours_gap gap] at bare ⊢
          exact ih later edge (fun other => absurd rfl other) bare
        next =>
          rw [neighbours_sign (by simpa using gap), bare_cons] at bare ⊢
          refine bare.imp (fun ⟨left, right⟩ => ⟨by rw [← edge left]; exact left, right⟩) fun rest => ?_
          exact ih later (fun _ => rfl) (fun other => absurd rfl other) rest

theorem Bare.start (bare : Bare (neighbours s cs)) (edge : isEdge s' = true) : Bare (neighbours s' cs) := by
  induction cs generalizing s with
  | nil => exact ⟨_, List.mem_singleton_self _, edge, rfl⟩
  | cons c cs ih =>
    by_cases gap : isGap c = true
    next =>
      rw [neighbours_gap gap] at bare ⊢
      exact ih bare
    next =>
      rw [neighbours_sign (by simpa using gap), bare_cons] at bare ⊢
      exact bare.imp_left fun both => ⟨edge, both.2⟩

theorem Bare.of_append_minus (bare : Bare (neighbours s (cs ++ ['-']))) : Bare (neighbours s cs) := by
  induction cs generalizing s with
  | nil =>
    have nothing : ¬ Bare (neighbours s ['-']) := by
      rw [neighbours_sign (by decide), bare_cons]
      simp [neighbours, Bare, isEdge]
    exact absurd bare nothing
  | cons c cs ih =>
    rw [List.cons_append] at bare
    by_cases gap : isGap c = true
    next =>
      rw [neighbours_gap gap] at bare ⊢
      exact ih bare
    next =>
      rw [neighbours_sign (by simpa using gap), bare_cons] at bare ⊢
      exact bare.imp_right ih

theorem dropMark_eq (cs : List Char) : dropMark cs = cs ∨ cs = '-' :: dropMark cs := by
  unfold dropMark
  split
  next rest =>
    split
    next => exact .inr rfl
    next => exact .inl rfl
  next => exact .inl rfl

theorem Bare.unmarked (bare : Bare (neighbours none cs)) : Bare (neighbours none (unmarked cs)) := by
  have front : Bare (neighbours none (dropMark cs)) := by
    rcases dropMark_eq cs with same | split
    · rwa [same]
    · rw [split, neighbours_sign (by decide), bare_cons] at bare
      exact (bare.resolve_left (by simp [isEdge])).start rfl
  rw [Template.unmarked]
  rcases dropMark_eq (dropMark cs).reverse with same | split
  · rwa [same, List.reverse_reverse]
  · rw [List.reverse_eq_cons_iff] at split
    rw [split] at front
    exact front.of_append_minus

theorem isHollow_of_bare (bare : Bare (neighbours none cs)) : isHollow cs = true := by
  obtain ⟨p, inside, left, right⟩ := bare
  exact List.any_eq_true.mpr ⟨p, inside, by simp [begins_of_isEdge left, ends_of_isEdge right]⟩

theorem isHollow_of_refused {inner : List Piece} (shows : ShowsBars (shown (trimmed inner)))
    (refused : checkBody (trimmed inner) ≠ .ok ()) : isHollow (pipeline (shown (trimmed inner))) = true :=
  isHollow_of_bare ((bare_blot shows (fun _ => rfl) (fun other => absurd rfl other)
    ((refused_iff_bare inner).mp refused)).unmarked)

theorem refused_of_isHollow {inner : List Piece} (unmarked : Unmarked (shown (trimmed inner)))
    (full : FullParentheses (shown (trimmed inner))) (hollow : isHollow (pipeline (shown (trimmed inner))) = true) :
    checkBody (trimmed inner) ≠ .ok () := by
  rw [unmarked] at hollow
  obtain ⟨p, inside, both⟩ := List.any_eq_true.mp hollow
  obtain ⟨left, right⟩ := (Bool.and_eq_true _ _).mp both
  exact (refused_iff_bare inner).mpr (bare_of_blot (fun _ => rfl) ⟨p, inside, full p inside left right⟩)

theorem refused_iff_hollow (inner : List Piece) :
    let body := shown (trimmed inner)
    (ShowsBars body → Unmarked body → FullParentheses body →
      (checkBody (trimmed inner) ≠ .ok () ↔ body = [] ∨ isHollow (pipeline body) = true)) ∧
    (ShowsBars body → checkBody (trimmed inner) ≠ .ok () → isHollow (pipeline body) = true) ∧
    (Unmarked body → FullParentheses body → isHollow (pipeline body) = true →
      checkBody (trimmed inner) ≠ .ok ()) := by
  intro body
  refine ⟨fun shows unmarked full => ⟨fun refused => .inr (isHollow_of_refused shows refused), ?_⟩,
    isHollow_of_refused, refused_of_isHollow⟩
  rintro (blank | hollow)
  · rw [List.map_eq_nil_iff.mp blank]
    exact fun passes => absurd passes (by decide)
  · exact refused_of_isHollow unmarked full hollow

theorem refused_iff_hollow_upper : ∃ full gapped : List Piece,
    full = " .name | replace \"a\" ( upper \"b\" ) | quote ".toList.map .char ∧
      gapped = " .name | | upper ".toList.map .char ∧
      (ShowsBars (shown (trimmed full)) ∧ Unmarked (shown (trimmed full)) ∧ FullParentheses (shown (trimmed full))) ∧
      (ShowsBars (shown (trimmed gapped)) ∧ Unmarked (shown (trimmed gapped)) ∧
        FullParentheses (shown (trimmed gapped))) ∧
      checkBody (trimmed full) = .ok () ∧ checkBody (trimmed gapped) ≠ .ok () := by
  refine ⟨_, _, rfl, rfl, by decide, by decide, ?_, ?_⟩
  · by_contra refused
    exact absurd (((refused_iff_hollow _).1 (by decide) (by decide) (by decide)).mp refused) (by decide)
  · exact ((refused_iff_hollow _).1 (by decide) (by decide) (by decide)).mpr (by decide)

theorem bodies_misjudged :
    (checkBody (trimmed (" .x | replace \"||\" \"-\" ".toList.map .char)) ≠ .ok () ∧
      isHollow (pipeline (shown (trimmed (" .x | replace \"||\" \"-\" ".toList.map .char)))) = false) ∧
    (checkBody (trimmed (" .x | -".toList.map .char)) = .ok () ∧
      isHollow (pipeline (shown (trimmed (" .x | -".toList.map .char)))) = true) ∧
    checkBody (trimmed (" ( .x | ) ".toList.map .char)) = .ok () ∧
      isHollow (pipeline (shown (trimmed (" ( .x | ) ".toList.map .char)))) = true := by
  decide

end Flowsheet.Template
