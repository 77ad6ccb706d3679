import Flowsheet.Document.Schema
import Flowsheet.Proofs.Decimal.Text
import Flowsheet.Proofs.Result
import Flowsheet.Script.Basic

set_option autoImplicit false

namespace Flowsheet

open Decimal (magnitude isNegative isFinite positional shortest RoundsTo)

def isLineEnd (c : Char) : Bool := c = '\n' || c = '\r'

def lines (cs : List Char) : List (List Char) := cs.splitOnP isLineEnd

def code (line : List Char) : List Char := line.takeWhile (· ≠ '#')

def isPad (c : Char) : Bool := c = ' ' || c = '\t' || c = '\x0c'

def isIdle (line : List Char) : Bool := (code line).all isPad

structure Assignment where
  name : String
  negative : Bool
  size : Decimal

def isWord (c : Char) : Bool := c.isAlphanum || c = '_'

def splitMinus : List Char → Bool × List Char
  | '-' :: rest => (true, rest)
  | cs => (false, cs)

def size? (cs : List Char) : Option Decimal :=
  match cs.dropWhile Char.isDigit with
  | '.' :: rest =>
    let whole := cs.takeWhile Char.isDigit
    let places := rest.takeWhile Char.isDigit
    if whole ++ places ≠ [] ∧ (rest.dropWhile Char.isDigit).all isPad then
      some ⟨Nat.ofDigitChars 10 (whole ++ places) 0, -places.length⟩
    else none
  | _ => none

def assignment? (cs : List Char) : Option Assignment :=
  let name := String.ofList (cs.takeWhile isWord)
  match (cs.dropWhile isWord).dropWhile isPad with
  | '=' :: rest =>
    let (negative, digits) := splitMinus (rest.dropWhile isPad)
    if Schema.isIdentifier name then (size? digits).map fun size => ⟨name, negative, size⟩ else none
  | _ => none

/-- What a text assigns, in its order, or its first line that says something else. -/
def assignments (text : String) : Except (List Char) (List Assignment) :=
  ((lines text.toList).filter (!isIdle ·)).mapM fun line => (assignment? (code line)).elim (.error line) .ok

structure Assignment.Sets (a : Assignment) (c : Constant Float) : Prop where
  name : a.name = c.name
  sign : a.negative = isNegative c.value
  size : ∃ m q, magnitude c.value = .finite m q ∧ RoundsTo a.size.toRat m q

theorem Assignment.Sets.unique {a : Assignment} {c c' : Constant Float} (sets : a.Sets c) (sets' : a.Sets c') :
    c.value = c'.value := by
  obtain ⟨m, q, known, rounds⟩ := sets.size
  obtain ⟨m', q', known', rounds'⟩ := sets'.size
  have regular := Decimal.regular_of_magnitude known
  obtain ⟨rfl, rfl⟩ := regular.unique (Decimal.regular_of_magnitude known') rounds rounds'
  exact Decimal.eq_of_magnitude (sets.sign.symm.trans sets'.sign) (known.trans known'.symm)

/-- What a text puts on lines of its own behind the line it starts on. -/
def overhang (s : String) : List (List Char) := (lines s.toList).tail

theorem lines_append {front : List Char} (unbroken : ∀ c ∈ front, isLineEnd c = false) (s : String) :
    lines (front ++ s.toList) = (front ++ (lines s.toList).headD []) :: overhang s := by
  obtain ⟨head, tail, split⟩ := List.exists_cons_of_ne_nil (List.splitOnP_ne_nil isLineEnd s.toList)
  rw [overhang, lines, lines, split]
  induction front with
  | nil => exact split
  | cons c front ih =>
    have rest := ih fun d inside => unbroken d (List.mem_cons_of_mem c inside)
    rw [List.cons_append, List.splitOnP_cons_eq_if_modifyHead, rest, unbroken c List.mem_cons_self]
    rfl

theorem unbroken_mark : ∀ c ∈ ['#', ' '], isLineEnd c = false := by simp [isLineEnd]

theorem lines_intercalate (s : String) (ss : List String) :
    lines ("\n".intercalate (s :: ss)).toList = (s :: ss).flatMap (lines ·.toList) := by
  rw [String.toList_intercalate]
  induction ss generalizing s with
  | nil => simp
  | cons t ss ih =>
    have ends : isLineEnd '\n' = true := rfl
    rw [List.map_cons, List.map_cons, show "\n".toList = ['\n'] from rfl, List.intercalate_cons_cons,
      List.append_assoc, List.singleton_append, lines, List.splitOnP_append_cons _ _ ends, List.flatMap_cons]
    exact congrArg (lines s.toList ++ ·) (ih t)

theorem overhang_eq_nil_iff {s : String} : overhang s = [] ↔ ∀ c ∈ s.toList, isLineEnd c = false := by
  constructor
  · intro none c inside
    by_contra ends
    obtain ⟨before, after, split⟩ := List.append_of_mem inside
    rw [overhang, lines, split, List.splitOnP_append_cons _ _ (by simpa using ends)] at none
    have two := congrArg List.length none
    have left := List.length_pos_iff.mpr (List.splitOnP_ne_nil isLineEnd before)
    have right := List.length_pos_iff.mpr (List.splitOnP_ne_nil isLineEnd after)
    simp only [List.length_tail, List.length_append, List.length_nil] at two
    omega
  · intro unbroken
    rw [overhang, lines, List.splitOnP_eq_singleton unbroken]
    rfl

def Constant.front (c : Constant Float) : List Char :=
  c.name.toList ++ [' ', '=', ' '] ++ (floatText c.value).toList ++ [' ', ' ']

def Constant.firstLine (c : Constant Float) : List Char :=
  c.front ++ '#' :: ' ' :: (lines c.description.toList).headD []

theorem toList_floatText {N : Type} [Quantity N] (v : N) : (floatText v).toList = (Quantity.plain v).toList ++
    if (Quantity.plain v).toList.any (['.', 'e', 'E', 'n', 'N'].contains ·) then [] else ['.', '0'] := by
  have marked := String.contains_bool_eq (p := (['.', 'e', 'E', 'n', 'N'].contains ·)) (s := Quantity.plain v)
  change String.toList (if (Quantity.plain v).contains (['.', 'e', 'E', 'n', 'N'].contains ·) then _ else _) = _
  rw [marked]
  split
  · exact (List.append_nil _).symm
  · exact String.toList_append

theorem unmarked_of_digits {cs : List Char} (digits : ∀ c ∈ cs, c.isDigit = true) :
    cs.any (['.', 'e', 'E', 'n', 'N'].contains ·) = false := by
  rw [List.any_eq_false]
  intro c inside known
  have digit := digits c inside
  simp only [List.contains_eq_mem, List.mem_cons, List.not_mem_nil, or_false, decide_eq_true_eq] at known
  rcases known with rfl | rfl | rfl | rfl | rfl <;> exact absurd digit (by decide)

theorem pointed_positional (d : Decimal) : ∃ whole places : List Char,
    (∀ c ∈ whole, c.isDigit = true) ∧ (∀ c ∈ places, c.isDigit = true) ∧ whole ≠ [] ∧
    (positional d ++ if (positional d).any (['.', 'e', 'E', 'n', 'N'].contains ·) then [] else ['.', '0']) =
      whole ++ '.' :: places ∧
    Decimal.toRat ⟨Nat.ofDigitChars 10 (whole ++ places) 0, -places.length⟩ = d.toRat := by
  obtain ⟨whole, places, digits, after, nonempty, count, value, text⟩ := Formula.positional_parts d
  have size := Decimal.toRat_places d
  rw [← value, ← count] at size
  rw [text]
  by_cases none : places = []
  · subst none
    refine ⟨whole, ['0'], digits, by simp, nonempty, ?_, ?_⟩
    · rw [if_pos rfl, unmarked_of_digits digits]
      simp
    rw [← size, Nat.ofDigitChars_append, List.append_nil]
    simp [Nat.ofDigitChars_cons, Decimal.toRat]
    ring
  · refine ⟨whole, places, digits, after, nonempty, ?_, size⟩
    rw [if_neg none, List.any_append]
    simp

theorem floatText_parts {x : Float} (finite : isFinite x) : ∃ whole places : List Char,
    (∀ c ∈ whole, c.isDigit = true) ∧ (∀ c ∈ places, c.isDigit = true) ∧ whole ≠ [] ∧
    (floatText x).toList = (if isNegative x then ['-'] else []) ++ (whole ++ '.' :: places) ∧
    ∃ m q, magnitude x = .finite m q ∧
      RoundsTo (Decimal.toRat ⟨Nat.ofDigitChars 10 (whole ++ places) 0, -places.length⟩) m q := by
  obtain ⟨m, q, known⟩ := Decimal.exists_magnitude finite
  obtain ⟨whole, places, digits, after, nonempty, text, value⟩ := pointed_positional (shortest m q)
  have plain : (Quantity.plain x).toList =
      (if isNegative x then ['-'] else []) ++ positional (shortest m q) := by
    rw [show Quantity.plain x = Decimal.Layout.plain.text x from rfl, Decimal.Layout.text_of_finite _ known]
    simp [Decimal.Layout.finite, Decimal.Layout.isPositional, Decimal.Layout.plain]
  have sign : (if isNegative x then ['-'] else []).any (['.', 'e', 'E', 'n', 'N'].contains ·) = false := by
    cases isNegative x <;> decide
  refine ⟨whole, places, digits, after, nonempty, ?_, m, q, known, ?_⟩
  · rw [toList_floatText, plain, List.any_append, sign, Bool.false_or, List.append_assoc, text]
  · rw [value]
    exact (Decimal.regular_of_magnitude known).roundsTo_shortest

theorem size?_digits {whole places : List Char} (digits : ∀ c ∈ whole, c.isDigit = true)
    (after : ∀ c ∈ places, c.isDigit = true) (nonempty : whole ≠ []) :
    size? (whole ++ '.' :: (places ++ [' ', ' '])) =
      some ⟨Nat.ofDigitChars 10 (whole ++ places) 0, -places.length⟩ := by
  have blank : Char.isDigit ' ' = false ∧ Char.isDigit '.' = false := by decide
  have blanks : isPad ' ' = true := rfl
  simp [size?, List.takeWhile_append_of_pos digits, List.dropWhile_append_of_pos digits,
    List.takeWhile_append_of_pos after, List.dropWhile_append_of_pos after, blank, blanks, nonempty]

theorem splitMinus_sign (negative : Bool) {cs : List Char} (unsigned : cs.head? ≠ some '-') :
    splitMinus ((if negative then ['-'] else []) ++ cs) = (negative, cs) := by
  cases negative with
  | true => rfl
  | false =>
    cases cs with
    | nil => rfl
    | cons c cs =>
      unfold splitMinus
      split
      next same =>
        cases same
        exact absurd rfl unsigned
      next => rfl

theorem isWord_of_isIdentifier {s : String} (identifier : Schema.isIdentifier s) :
    s.toList ≠ [] ∧ ∀ c ∈ s.toList, isWord c = true := by
  unfold Schema.isIdentifier at identifier
  cases known : s.toList with
  | nil => simp [known] at identifier
  | cons d ds =>
    simp only [known, Bool.and_eq_true, List.all_eq_true] at identifier
    refine ⟨by simp, fun c inside => ?_⟩
    rcases List.mem_cons.mp inside with rfl | inside
    · have first := identifier.1
      simp only [isWord, Char.isAlphanum]
      grind
    · exact identifier.2 c inside

theorem plain_of_isWord {x : Char} (word : isWord x = true) :
    x ≠ '#' ∧ x ≠ '-' ∧ isPad x = false ∧ isLineEnd x = false := by
  have other {y : Char} (foreign : isWord y = false) : x ≠ y := by
    rintro rfl
    exact absurd (word.symm.trans foreign) (by decide)
  exact ⟨other rfl, other rfl,
    by simp [isPad, other (show isWord ' ' = false from rfl), other (show isWord '\t' = false from rfl),
      other (show isWord '\x0c' = false from rfl)],
    by simp [isLineEnd, other (show isWord '\n' = false from rfl), other (show isWord '\r' = false from rfl)]⟩

theorem isWord_of_isDigit {x : Char} (digit : x.isDigit = true) : isWord x = true := by
  simp [isWord, Char.isAlphanum, digit]

section

variable {c : Constant Float} (identifier : Schema.isIdentifier c.name) (finite : isFinite c.value)

include identifier finite

theorem assignment?_front : ∃ a, assignment? c.front = some a ∧ a.Sets c := by
  obtain ⟨whole, places, digits, after, nonempty, text, m, q, known, rounds⟩ := floatText_parts finite
  refine ⟨⟨c.name, isNegative c.value, ⟨Nat.ofDigitChars 10 (whole ++ places) 0, -places.length⟩⟩, ?_,
    rfl, rfl, m, q, known, rounds⟩
  obtain ⟨-, word⟩ := isWord_of_isIdentifier identifier
  obtain ⟨d, ds, rfl⟩ := List.exists_cons_of_ne_nil nonempty
  have size := size?_digits digits after nonempty
  set number := (d :: ds) ++ '.' :: (places ++ [' ', ' ']) with shown
  obtain ⟨-, unsigned, unblank, -⟩ := plain_of_isWord (isWord_of_isDigit (digits d List.mem_cons_self))
  have minus : number.head? ≠ some '-' := fun same => unsigned (Option.some.inj same)
  have signed : ((if isNegative c.value then ['-'] else []) ++ number).dropWhile isPad =
      (if isNegative c.value then ['-'] else []) ++ number := by
    cases isNegative c.value with
    | true => rfl
    | false => simp [shown, unblank]
  have front : c.front =
      c.name.toList ++ ' ' :: '=' :: ' ' :: ((if isNegative c.value then ['-'] else []) ++ number) := by
    rw [Constant.front, text, shown]
    simp
  have blanks : isWord ' ' = false ∧ isPad ' ' = true ∧ isPad '=' = false := by decide
  rw [assignment?, front]
  simp [List.takeWhile_append_of_pos word, List.dropWhile_append_of_pos word, blanks, signed,
    splitMinus_sign _ minus, size, identifier]

theorem Constant.plain_front : ∀ x ∈ c.front, x ≠ '#' ∧ isLineEnd x = false := by
  obtain ⟨whole, places, digits, after, -, text, -⟩ := floatText_parts finite
  obtain ⟨-, word⟩ := isWord_of_isIdentifier identifier
  have plain {x : Char} (word : isWord x = true) : x ≠ '#' ∧ isLineEnd x = false :=
    ⟨(plain_of_isWord word).1, (plain_of_isWord word).2.2.2⟩
  have marks : ∀ x ∈ [' ', '=', '-', '.'], x ≠ '#' ∧ isLineEnd x = false := by simp [isLineEnd]
  have sign : ∀ x ∈ (if isNegative c.value then ['-'] else []), x ∈ [' ', '=', '-', '.'] := by
    cases isNegative c.value <;> simp
  intro x inside
  rw [Constant.front, text] at inside
  simp only [List.mem_append, List.mem_cons, List.not_mem_nil, or_false] at inside
  rcases inside with ((name | equals) | minus | first | point | rest) | last
  · exact plain (word x name)
  · exact marks x (by rcases equals with rfl | rfl | rfl <;> simp)
  · exact marks x (sign x minus)
  · exact plain (isWord_of_isDigit (digits x first))
  · exact marks x (by simp [point])
  · exact plain (isWord_of_isDigit (after x rest))
  · exact marks x (by rcases last with rfl | rfl <;> simp)

theorem Constant.lines_line : lines c.line.toList = c.firstLine :: overhang c.description := by
  have text : c.line.toList = (c.front ++ ['#', ' ']) ++ c.description.toList := by
    simp [Constant.line, Constant.front, toString]
  have unbroken : ∀ x ∈ c.front ++ ['#', ' '], isLineEnd x = false :=
    fun x inside => (List.mem_append.mp inside).elim (c.plain_front identifier finite x · |>.2) (unbroken_mark x)
  rw [text, lines_append unbroken, Constant.firstLine, List.append_assoc]
  rfl

theorem Constant.code_firstLine : code c.firstLine = c.front := by
  have silent : ∀ x ∈ c.front, decide (x ≠ '#') = true :=
    fun x inside => decide_eq_true (c.plain_front identifier finite x inside).1
  rw [code, Constant.firstLine, List.takeWhile_append_of_pos silent, List.takeWhile_cons_of_neg (by decide),
    List.append_nil]

theorem Constant.not_isIdle_firstLine : isIdle c.firstLine = false := by
  obtain ⟨nonempty, word⟩ := isWord_of_isIdentifier identifier
  obtain ⟨x, xs, name⟩ := List.exists_cons_of_ne_nil nonempty
  obtain ⟨-, -, unblank, -⟩ := plain_of_isWord (word x (by simp [name]))
  rw [isIdle, c.code_firstLine identifier finite, Constant.front, name]
  simp [unblank]

end

def ProcessRecord.overhang (p : ProcessRecord Float) : List (List Char) :=
  Flowsheet.overhang (p.name ++ "'s constants") ++ p.constants.flatMap (Flowsheet.overhang ·.description)

variable {p : ProcessRecord Float}

def Declared (cs : List (Constant Float)) : Prop := ∀ c ∈ cs, Schema.isIdentifier c.name ∧ isFinite c.value

theorem lines_constantsText (declared : Declared p.constants) (some : p.constants ≠ []) :
    ∃ title, lines p.constantsText.toList = ('#' :: title) :: Flowsheet.overhang (p.name ++ "'s constants") ++
      p.constants.flatMap fun c => c.firstLine :: Flowsheet.overhang c.description := by
  have heading : ∃ title, lines s!"# {p.name}'s constants".toList =
      ('#' :: title) :: Flowsheet.overhang (p.name ++ "'s constants") := by
    have text : s!"# {p.name}'s constants".toList = ['#', ' '] ++ (p.name ++ "'s constants").toList := by
      simp [toString]
    rw [text, lines_append unbroken_mark]
    exact ⟨_, rfl⟩
  obtain ⟨title, heading⟩ := heading
  have each : ∀ c ∈ p.constants, lines c.line.toList = c.firstLine :: Flowsheet.overhang c.description :=
    fun c inside => c.lines_line (declared c inside).1 (declared c inside).2
  refine ⟨title, ?_⟩
  rw [ProcessRecord.constantsText, ProcessRecord.constantLines, if_neg (by simpa using some), lines_intercalate,
    List.flatMap_cons, heading, List.flatMap_map, List.flatMap_congr each]

theorem spoken_constantsText (declared : Declared p.constants) (some : p.constants ≠ []) :
    (lines p.constantsText.toList).filter (!isIdle ·) =
      (Flowsheet.overhang (p.name ++ "'s constants")).filter (!isIdle ·) ++
        p.constants.flatMap fun c => c.firstLine :: (Flowsheet.overhang c.description).filter (!isIdle ·) := by
  obtain ⟨title, text⟩ := lines_constantsText declared some
  have silent : isIdle ('#' :: title) = true := rfl
  have each : ∀ c ∈ p.constants, (c.firstLine :: Flowsheet.overhang c.description).filter (!isIdle ·) =
      c.firstLine :: (Flowsheet.overhang c.description).filter (!isIdle ·) := by
    intro c inside
    rw [List.filter_cons, c.not_isIdle_firstLine (declared c inside).1 (declared c inside).2]
    rfl
  rw [text, List.filter_append, List.filter_cons, silent, List.filter_flatMap, List.flatMap_congr each]
  rfl

theorem length_flatMap_cons {α β : Type} (f : α → β) (g : α → List β) (xs : List α) :
    (xs.flatMap fun x => f x :: g x).length = xs.length + (xs.flatMap g).length := by
  induction xs with
  | nil => rfl
  | cons x xs ih =>
    simp only [List.flatMap_cons, List.length_append, List.length_cons, ih]
    omega

theorem length_spoken (declared : Declared p.constants) (some : p.constants ≠ []) :
    ((lines p.constantsText.toList).filter (!isIdle ·)).length =
      p.constants.length + (p.overhang.filter (!isIdle ·)).length := by
  rw [spoken_constantsText declared some, ProcessRecord.overhang, List.filter_append, List.filter_flatMap,
    List.length_append, List.length_append, length_flatMap_cons]
  omega

theorem length_lines (declared : Declared p.constants) (some : p.constants ≠ []) :
    (lines p.constantsText.toList).length = p.constants.length + 1 + p.overhang.length := by
  obtain ⟨title, text⟩ := lines_constantsText declared some
  rw [text, ProcessRecord.overhang, List.length_append, List.length_append, List.length_cons,
    length_flatMap_cons]
  omega

theorem ProcessRecord.overhang_eq_nil_iff :
    p.overhang = [] ↔
      ∀ s ∈ p.name :: p.constants.map (·.description), ∀ c ∈ s.toList, isLineEnd c = false := by
  have suffix : ∀ c ∈ "'s constants".toList, isLineEnd c = false := by simp [isLineEnd]
  rw [ProcessRecord.overhang, List.append_eq_nil_iff, Flowsheet.overhang_eq_nil_iff, String.toList_append,
    List.forall_mem_append, and_iff_left suffix, List.flatMap_eq_nil_iff, List.forall_mem_cons,
    List.forall_mem_map]
  simp only [Flowsheet.overhang_eq_nil_iff]

theorem reads_firstLines {cs : List (Constant Float)} (declared : Declared cs) :
    ∃ rows, (cs.map (·.firstLine)).mapM (fun line => (assignment? (code line)).elim (.error line) .ok) =
      (.ok rows : Except (List Char) (List Assignment)) ∧ List.Forall₂ Assignment.Sets rows cs := by
  induction cs with
  | nil => exact ⟨[], rfl, .nil⟩
  | cons c cs ih =>
    obtain ⟨identifier, finite⟩ := declared c List.mem_cons_self
    obtain ⟨a, read, sets⟩ := assignment?_front identifier finite
    obtain ⟨rows, rest, others⟩ := ih fun d inside => declared d (List.mem_cons_of_mem c inside)
    refine ⟨a :: rows, ?_, .cons sets others⟩
    rw [List.map_cons, List.mapM_cons, c.code_firstLine identifier finite, read]
    simp only [Option.elim_some, rest]
    rfl

theorem reads_back_iff (declared : Declared p.constants) :
    (∃ rows, assignments p.constantsText = .ok rows ∧ List.Forall₂ Assignment.Sets rows p.constants) ↔
      p.constants = [] ∨ ∀ line ∈ p.overhang, isIdle line = true := by
  by_cases none : p.constants = []
  · refine iff_of_true ⟨[], ?_, none ▸ .nil⟩ (.inl none)
    rw [ProcessRecord.constantsText, ProcessRecord.constantLines, none]
    rfl
  rw [or_iff_right none]
  constructor
  · rintro ⟨rows, read, sets⟩
    -- as many lines say something as there are constants
    have count := (mapM_eq_ok.mp read).length_eq
    rw [length_spoken declared none, sets.length_eq] at count
    have idle : p.overhang.filter (!isIdle ·) = [] := List.length_eq_zero_iff.mp (by omega)
    simpa using idle
  · intro idle
    obtain ⟨rows, read, sets⟩ := reads_firstLines declared
    refine ⟨rows, ?_, sets⟩
    have title : (Flowsheet.overhang (p.name ++ "'s constants")).filter (!isIdle ·) = [] := by
      simpa using fun line inside => idle line (List.mem_append_left _ inside)
    have each : ∀ c ∈ p.constants,
        c.firstLine :: (Flowsheet.overhang c.description).filter (!isIdle ·) = [c.firstLine] := by
      intro c inside
      have behind : ∀ line ∈ Flowsheet.overhang c.description, isIdle line = true :=
        fun line member => idle line (List.mem_append_right _ (List.mem_flatMap.mpr ⟨c, inside, member⟩))
      simpa using behind
    rw [assignments, spoken_constantsText declared none, title, List.flatMap_congr each, List.nil_append,
      ← List.map_eq_flatMap, read]

theorem constants_read_back_iff (p : ProcessRecord Float) (declared : Declared p.constants) :
    ((∃ rows, assignments p.constantsText = .ok rows ∧ List.Forall₂ Assignment.Sets rows p.constants) ↔
      p.constants = [] ∨ ∀ line ∈ p.overhang, isIdle line = true) ∧
    (p.constants ≠ [] → ((lines p.constantsText.toList).length = p.constants.length + 1 ↔
      ∀ s ∈ p.name :: p.constants.map (·.description), ∀ c ∈ s.toList, isLineEnd c = false)) := by
  refine ⟨reads_back_iff declared, fun some => ?_⟩
  rw [length_lines declared some, ← p.overhang_eq_nil_iff, ← List.length_eq_zero_iff]
  omega

def quarry (name description : String) : ProcessRecord Float where
  name := name
  constants := [{ name := "rate", description := description, value := 2 }]

theorem declared_quarry (name description : String) : Declared (quarry name description).constants := by
  intro c inside
  rw [List.mem_singleton.mp inside]
  have identifier : Schema.isIdentifier "rate" = true := by decide
  have finite : isFinite (2 : Float) = true := by decide +kernel
  exact ⟨identifier, finite⟩

theorem constants_read_back_iff_quarry :
    (∃ rows, assignments (quarry "Quarry" "per hour").constantsText = .ok rows ∧
      List.Forall₂ Assignment.Sets rows (quarry "Quarry" "per hour").constants) ∧
    (lines (quarry "Quarry" "per hour").constantsText.toList).length = 2 := by
  obtain ⟨reading, count⟩ := constants_read_back_iff (quarry "Quarry" "per hour") (declared_quarry _ _)
  exact ⟨reading.mpr (.inr (by decide +kernel)), (count (by simp [quarry])).mpr (by simp [quarry, isLineEnd])⟩

def Misread (p : ProcessRecord Float) : Prop :=
  (∃ process, p.compile = .ok process) ∧ Declared p.constants ∧
    ¬ ∃ rows, assignments p.constantsText = .ok rows ∧ List.Forall₂ Assignment.Sets rows p.constants

theorem misread_quarry {name description : String}
    (spoken : ¬ ∀ line ∈ (quarry name description).overhang, isIdle line = true) :
    Misread (quarry name description) := by
  refine ⟨⟨_, rfl⟩, declared_quarry _ _, ?_⟩
  rw [reads_back_iff (declared_quarry _ _)]
  exact fun idle => idle.elim (by simp [quarry]) spoken

theorem comments_read_back :
    Misread (quarry "Quarry" "per hour\nrate = 0.0") ∧ Misread (quarry "Quarry\nrate = 0.0 #" "per hour") :=
  ⟨misread_quarry (by decide +kernel), misread_quarry (by decide +kernel)⟩

end Flowsheet
