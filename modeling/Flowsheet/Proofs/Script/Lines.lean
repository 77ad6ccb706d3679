import Flowsheet.Proofs.Script.Constants
import Flowsheet.Proofs.Script.Run

set_option autoImplicit false

namespace Flowsheet.Script

/-- Code as it is read: words, which hold letters, digits and points, and single signs. -/
inductive Mark where
  | word (letters : List Char)
  | sign (c : Char)
deriving DecidableEq

def isPart (c : Char) : Bool := isWord c || c = '.'

def Mark.before (c : Char) (ms : List Mark) : List Mark :=
  if isPart c then
    match ms with
    | .word w :: rest => .word (c :: w) :: rest
    | rest => .word [c] :: rest
  else .sign c :: ms

def cut (cs : List Char) : List Mark := cs.foldr Mark.before []

def Mark.isGap : Mark → Bool
  | .sign c => isPad c
  | .word _ => false

def marks (cs : List Char) : List Mark := (cut cs).filter (!·.isGap)

inductive Line where
  | assign (target : String) (value : List Mark)
  | call (method : String) (args : List String)

def Line.target? : Line → Option String
  | .assign x _ => some x
  | .call _ _ => none

def listed? : List Mark → Option (List String)
  | [.sign ')'] => some []
  | [.word w, .sign ')'] => some [String.ofList w]
  | .word w :: .sign ',' :: rest => (listed? rest).map (String.ofList w :: ·)
  | _ => none

def line? : List Mark → Option Line
  | .word w :: .sign '=' :: value => (attribute? (String.ofList w)).map (.assign · value)
  | .word w :: .sign '(' :: args => do
    return .call (← attribute? (String.ofList w)) (← (← listed? args).mapM attribute?)
  | _ => none

def codeLines (cs : List Char) : List (List Mark) := ((lines cs).map marks).filter (!·.isEmpty)

def readLines (text : String) : Option (List Line) := (codeLines text.toList).mapM line?

theorem mapM_map_eq_some {α β γ : Type} {f : β → Option γ} {g : α → β} {h : α → γ} {xs : List α}
    (each : ∀ x ∈ xs, f (g x) = some (h x)) : (xs.map g).mapM f = some (xs.map h) := by
  induction xs with
  | nil => rfl
  | cons x xs ih =>
    have rest := ih fun y inside => each y (List.mem_cons_of_mem x inside)
    rw [List.map_cons, List.mapM_cons, each x (by simp), rest]
    rfl

def assignedNames (text : String) : List String := ((readLines text).getD []).filterMap Line.target?

theorem cut_sign {s : Char} (foreign : isPart s = false) (cs rest : List Char) :
    cut (cs ++ s :: rest) = cut cs ++ .sign s :: cut rest := by
  have sign (ms : List Mark) : Mark.before s ms = .sign s :: ms := by simp [Mark.before, foreign]
  induction cs with
  | nil => exact sign (cut rest)
  | cons c cs ih =>
    change Mark.before c (cut (cs ++ s :: rest)) = Mark.before c (cut cs) ++ _
    rw [ih]
    cases cut cs with
    | nil => by_cases part : isPart c <;> simp [Mark.before, part]
    | cons m ms => cases m <;> by_cases part : isPart c <;> simp [Mark.before, part]

theorem cut_word {w : List Char} (nonempty : w ≠ []) (parts : ∀ c ∈ w, isPart c = true) :
    cut w = [.word w] := by
  induction w with
  | nil => exact absurd rfl nonempty
  | cons c w ih =>
    have part := parts c (by simp)
    change Mark.before c (cut w) = _
    by_cases last : w = []
    · subst last
      simp [cut, Mark.before, part]
    · rw [ih last fun d inside => parts d (List.mem_cons_of_mem c inside)]
      simp [Mark.before, part]

theorem isPart_of_isPad {c : Char} (pad : isPad c = true) : isPart c = false := by
  simp only [isPad, Bool.or_eq_true, decide_eq_true_eq] at pad
  rcases pad with (rfl | rfl) | rfl <;> rfl

theorem marks_sign {s : Char} (foreign : isPart s = false) (visible : isPad s = false) (cs rest : List Char) :
    marks (cs ++ s :: rest) = marks cs ++ .sign s :: marks rest := by
  rw [marks, cut_sign foreign, List.filter_append, List.filter_cons_of_pos (by simp [Mark.isGap, visible])]
  rfl

theorem marks_pad {s : Char} (pad : isPad s = true) (cs rest : List Char) :
    marks (cs ++ s :: rest) = marks cs ++ marks rest := by
  rw [marks, cut_sign (isPart_of_isPad pad), List.filter_append, List.filter_cons_of_neg (by simp [Mark.isGap, pad])]
  rfl

theorem marks_word {w : List Char} (nonempty : w ≠ []) (parts : ∀ c ∈ w, isPart c = true) :
    marks w = [.word w] := by
  rw [marks, cut_word nonempty parts]
  rfl

theorem marks_indent {front : List Char} (pads : ∀ c ∈ front, isPad c = true) (cs : List Char) :
    marks (front ++ cs) = marks cs := by
  induction front with
  | nil => rfl
  | cons c front ih =>
    rw [List.cons_append, ← List.nil_append (c :: _), marks_pad (pads c (by simp)),
      ih fun d inside => pads d (List.mem_cons_of_mem c inside)]
    rfl

def Unbroken (cs : List Char) : Prop := ∀ c ∈ cs, isLineEnd c = false

theorem codeLines_line {cs : List Char} (unbroken : Unbroken cs) (spoken : marks cs ≠ []) :
    codeLines cs = [marks cs] := by
  rw [codeLines, lines, List.splitOnP_eq_singleton unbroken]
  simp [spoken]

theorem codeLines_cons {cs : List Char} (unbroken : Unbroken cs) (spoken : marks cs ≠ []) (rest : List Char) :
    codeLines (cs ++ '\n' :: rest) = marks cs :: codeLines rest := by
  rw [codeLines, lines, List.splitOnP_append_cons _ _ (by rfl), List.splitOnP_eq_singleton unbroken]
  simp [spoken, codeLines, lines]

theorem codeLines_indent {front : List Char} (pads : ∀ c ∈ front, isPad c = true) (s : String) :
    codeLines (front ++ s.toList) = codeLines s.toList := by
  have unbroken : Unbroken front := by
    intro c inside
    have pad := pads c inside
    simp only [isPad, Bool.or_eq_true, decide_eq_true_eq] at pad
    rcases pad with (rfl | rfl) | rfl <;> rfl
  obtain ⟨head, tail, split⟩ := List.exists_cons_of_ne_nil (List.splitOnP_ne_nil isLineEnd s.toList)
  have first : lines s.toList = head :: tail := split
  rw [codeLines, codeLines, lines_append unbroken, overhang, first]
  simp [marks_indent pads]

def IsPlain (x : String) : Prop := x.toList ≠ [] ∧ ∀ c ∈ x.toList, isPart c = true

theorem isPlain_of_isIdentifier {x : String} (identifier : Schema.isIdentifier x = true) : IsPlain x := by
  obtain ⟨nonempty, word⟩ := isWord_of_isIdentifier identifier
  exact ⟨nonempty, fun c inside => by simp [isPart, word c inside]⟩

theorem isPlain_attr {x : String} (word : ∀ c ∈ x.toList, isWord c = true) : IsPlain (attr x) := by
  have front : ∀ c ∈ "self.__".toList, isPart c = true := by
    simp [show "self.__".toList = ['s', 'e', 'l', 'f', '.', '_', '_'] from rfl, isPart, isWord]
  rw [IsPlain, attr, String.toList_append]
  refine ⟨by simp, fun c inside => ?_⟩
  rcases List.mem_append.mp inside with known | inside
  · exact front c known
  · simp [isPart, word c inside]

theorem IsPlain.marks {x : String} (plain : IsPlain x) : marks x.toList = [.word x.toList] :=
  marks_word plain.1 plain.2

theorem listed?_intercalate {xs : List String} (plain : ∀ x ∈ xs, IsPlain x) :
    listed? (marks (", ".intercalate xs).toList ++ [.sign ')']) = some xs := by
  rw [String.toList_intercalate, show ", ".toList = [',', ' '] from rfl]
  induction xs with
  | nil => rfl
  | cons x xs ih =>
    have first := (plain x (by simp)).marks
    have others := ih fun y inside => plain y (List.mem_cons_of_mem x inside)
    cases xs with
    | nil => simp [first, listed?]
    | cons y ys =>
      have gap (cs : List Char) : marks ([' '] ++ cs) = marks cs := marks_indent (by simp [isPad]) cs
      rw [List.map_cons, List.map_cons, List.intercalate_cons_cons, List.append_assoc, List.cons_append,
        marks_sign (by rfl) (by rfl), first, List.singleton_append, gap, ← List.map_cons]
      simp only [List.cons_append, listed?, others]
      simp

variable {N : Type}

def IsNamed : Statement N → Prop
  | .assign x e => (∀ c ∈ x.toList, isWord c = true) ∧ ∀ y ∈ e.occurrences, IsPlain y
  | .preset x _ => ∀ c ∈ x.toList, isWord c = true
  | .call f xs => (∀ c ∈ f.toList, isWord c = true) ∧ ∀ x ∈ xs, ∀ c ∈ x.toList, isWord c = true

/-- The names that documents give to what the class assigns, takes as parameters and calls. -/
def writtenNames (m : MetaProcess N) (ps : List (String × Process N)) : List String :=
  m.demands.map (·.name) ++ m.closing.map (·.name) ++
    ps.flatMap fun q => q.2.shortName :: (q.2.methodArgs ++ q.2.operations.map (·.name))

def Spelled (m : MetaProcess N) (ps : List (String × Process N)) : Prop :=
  ∀ x ∈ writtenNames m ps, Schema.isIdentifier x = true

instance (m : MetaProcess N) (ps : List (String × Process N)) : Decidable (Spelled m ps) :=
  inferInstanceAs (Decidable (∀ x ∈ writtenNames m ps, Schema.isIdentifier x = true))

theorem Spelled.word_of_process {m : MetaProcess N} {ps : List (String × Process N)} (spelled : Spelled m ps)
    {q : String × Process N} (member : q ∈ ps) :
    ∀ x ∈ q.2.shortName :: (q.2.methodArgs ++ q.2.operations.map (·.name)), Schema.isIdentifier x = true :=
  fun x inside => spelled x (List.mem_append_right _ (List.mem_flatMap.mpr ⟨q, member, inside⟩))

theorem isWord_of_isName {x : String} (identifier : Formula.IsIdentifier x) : ∀ c ∈ x.toList, isWord c = true := by
  intro c inside
  obtain ⟨b, part, rfl⟩ := identifier.exists_part inside
  have small : ∀ n < 128, Formula.isNamePart (UInt8.ofNat n) = true → isWord (Char.ofNat n) = true := by
    decide +kernel
  exact small b.toNat (Formula.toNat_lt_of_isNamePart part) (by rwa [UInt8.ofNat_toNat])

theorem isPlain_of_isName {x : String} (identifier : Formula.IsIdentifier x) : IsPlain x := by
  refine ⟨?_, fun c inside => by simp [isPart, isWord_of_isName identifier c inside]⟩
  obtain ⟨b, bs, -, -, rfl⟩ := identifier
  simp [Formula.toList_shown]

theorem isNamed_assignment {o : Operation N} (formed : o.WellFormed) (named : Schema.isIdentifier o.name = true)
    (isPrivate : Arg → Bool) : IsNamed (o.assignment isPrivate) := by
  refine ⟨(isWord_of_isIdentifier named).2, fun y inside => ?_⟩
  rw [Formula.occurrences_rename] at inside
  obtain ⟨x, used, rfl⟩ := List.mem_map.mp inside
  have identifier := formed.spelled x (Formula.mem_identifiers.mpr used)
  split
  · exact isPlain_attr (isWord_of_isName identifier)
  · exact isPlain_of_isName identifier

theorem forall_mem_constructor {m : MetaProcess N} {ps : List (String × Process N)} {P : Statement N → Prop}
    (demands : ∀ d ∈ m.demands, P (d.toOperation.assignment MetaProcess.isPrivate))
    (presets : ∀ q ∈ ps, ∀ x ∈ q.2.methodArgs, ∀ v, P (.preset x v)) (calls : ∀ q ∈ ps, P q.2.call)
    (closing : ∀ o ∈ m.closing, P (o.assignment MetaProcess.isPrivate)) :
    ∀ s ∈ Industry.constructor m ps, P s := by
  intro s inside
  rw [Industry.constructor, List.mem_append, List.mem_flatMap] at inside
  rcases inside with ⟨q, member, block⟩ | last
  · simp only [List.mem_append, List.mem_singleton] at block
    rcases block with (demanded | preset) | rfl
    · obtain ⟨d, used, rfl⟩ := List.mem_map.mp demanded
      exact demands d (List.mem_filter.mp used).1
    · obtain ⟨x, argument, found⟩ := List.mem_filterMap.mp preset
      split at found
      · cases found
      · obtain ⟨v, -, rfl⟩ := Option.map_eq_some_iff.mp found
        exact presets q member x argument v
    · exact calls q member
  · obtain ⟨o, operation, rfl⟩ := List.mem_map.mp last
    exact closing o operation

section Spelled

variable {m : MetaProcess N} {ps : List (String × Process N)} (spelled : Spelled m ps)

include spelled

theorem Spelled.isNamed_method {q : String × Process N} (member : q ∈ ps) (formed : q.2.WellFormed) :
    ∀ s ∈ q.2.statements, IsNamed s := by
  intro s inside
  obtain ⟨o, operation, rfl⟩ := List.mem_map.mp inside
  refine isNamed_assignment (formed.operations o operation) ?_ _
  exact spelled.word_of_process member _ (by simp [List.mem_map_of_mem operation])

theorem Spelled.isNamed_constructor (formed : m.WellFormed) :
    ∀ s ∈ Industry.constructor m ps, IsNamed s := by
  refine forall_mem_constructor (fun d declared => ?_) (fun q member x argument v => ?_) (fun q member => ?_)
    (fun o operation => ?_)
  · refine isNamed_assignment (formed.demands d declared) (spelled _ ?_) _
    simp [writtenNames, List.mem_map_of_mem declared]
  · exact (isWord_of_isIdentifier (spelled.word_of_process member x (by simp [argument]))).2
  · have words := spelled.word_of_process member
    exact ⟨(isWord_of_isIdentifier (words _ (by simp))).2,
      fun x argument => (isWord_of_isIdentifier (words x (by simp [argument]))).2⟩
  · refine isNamed_assignment (formed.closing o operation) (spelled _ ?_) _
    simp [writtenNames, List.mem_map_of_mem operation]

end Spelled

variable [Quantity N]

def Line.of : Statement N → Line
  | .assign x e => .assign x (marks e.print.toList)
  | .preset x v => .assign x (marks (floatText v).toList)
  | .call f xs => .call f xs

def NumbersOnLine (N : Type) [Quantity N] : Prop := ∀ v : N, Unbroken (Quantity.plain v).toList

theorem unbroken_append {cs ds : List Char} : Unbroken (cs ++ ds) ↔ Unbroken cs ∧ Unbroken ds :=
  List.forall_mem_append

theorem unbroken_of_parts {cs : List Char} (parts : ∀ c ∈ cs, isPart c = true) : Unbroken cs := by
  intro c inside
  have part := parts c inside
  simp only [isPart, Bool.or_eq_true, decide_eq_true_eq] at part
  rcases part with word | rfl
  · exact (plain_of_isWord word).2.2.2
  · rfl

theorem unbroken_enclose {cs : List Char} (unbroken : Unbroken cs) (needed : Bool) :
    Unbroken (Formula.enclose needed cs) := by
  cases needed with
  | false => exact unbroken
  | true =>
    have brackets : Unbroken ['('] ∧ Unbroken [')'] := by simp [Unbroken, isLineEnd]
    exact unbroken_append.mpr ⟨unbroken_append.mpr ⟨brackets.1, unbroken⟩, brackets.2⟩

theorem unbroken_write (numbers : NumbersOnLine N) {e : Formula N} (names : ∀ x ∈ e.occurrences, IsPlain x) :
    Unbroken e.write := by
  induction e with
  | number v => exact numbers v
  | name x => exact unbroken_of_parts (names x (by simp [Formula.occurrences])).2
  | signed s e ih =>
    have sign : Unbroken [s.symbol] := by cases s <;> simp [Unbroken, isLineEnd, Sign.symbol]
    exact unbroken_append.mpr ⟨sign, unbroken_enclose (ih names) _⟩
  | binary op l r hl hr =>
    have between : Unbroken (Formula.between op) := by
      cases op <;> simp [Unbroken, isLineEnd, Formula.between, Operator.precedence, Operator.symbol]
    have left := unbroken_enclose (hl fun x inside => names x (List.mem_append_left _ inside))
    have right := unbroken_enclose (hr fun x inside => names x (List.mem_append_right _ inside))
    exact unbroken_append.mpr ⟨unbroken_append.mpr ⟨left _, between⟩, right _⟩

theorem unbroken_print (numbers : NumbersOnLine N) {e : Formula N} (names : ∀ x ∈ e.occurrences, IsPlain x) :
    Unbroken e.print.toList := by
  rw [Formula.print, String.toList_ofList]
  exact unbroken_write numbers fun x inside => names x (e.occurrences_canonical_perm.mem_iff.mp inside)

theorem unbroken_floatText (numbers : NumbersOnLine N) (v : N) : Unbroken (floatText v).toList := by
  rw [toList_floatText, unbroken_append]
  refine ⟨numbers v, ?_⟩
  split <;> simp [Unbroken, isLineEnd]

theorem unbroken_intercalate {xs : List String} (unbroken : ∀ x ∈ xs, Unbroken x.toList) :
    Unbroken (", ".intercalate xs).toList := by
  rw [String.toList_intercalate, show ", ".toList = [',', ' '] from rfl]
  have gap : Unbroken [',', ' '] := by simp [Unbroken, isLineEnd]
  induction xs with
  | nil => simp [Unbroken]
  | cons x xs ih =>
    have first := unbroken x (by simp)
    have others := ih fun y inside => unbroken y (List.mem_cons_of_mem x inside)
    cases xs with
    | nil => simpa using first
    | cons y ys =>
      rw [List.map_cons, List.map_cons, List.intercalate_cons_cons]
      exact unbroken_append.mpr ⟨unbroken_append.mpr ⟨first, gap⟩, others⟩

theorem reads_assign {x : String} (word : ∀ c ∈ x.toList, isWord c = true) {value : String}
    (unbroken : Unbroken value.toList) :
    Unbroken (attr x ++ " = " ++ value).toList ∧
      line? (marks (attr x ++ " = " ++ value).toList) = some (.assign x (marks value.toList)) := by
  have plain := isPlain_attr word
  have middle : " = ".toList = [' ', '=', ' '] := rfl
  rw [String.toList_append, String.toList_append, middle]
  constructor
  · have sign : Unbroken [' ', '=', ' '] := by simp [Unbroken, isLineEnd]
    exact unbroken_append.mpr ⟨unbroken_append.mpr ⟨unbroken_of_parts plain.2, sign⟩, unbroken⟩
  · have spread : (attr x).toList ++ [' ', '=', ' '] ++ value.toList =
        (attr x).toList ++ ' ' :: ([] ++ '=' :: ([' '] ++ value.toList)) := by simp
    rw [spread, marks_pad (by rfl), marks_sign (by rfl) (by rfl), marks_indent (by simp [isPad]), plain.marks]
    simp [line?, marks, cut, attribute?_attr]

theorem reads_call {f : String} {xs : List String} (word : ∀ c ∈ f.toList, isWord c = true)
    (words : ∀ x ∈ xs, ∀ c ∈ x.toList, isWord c = true) :
    let text := attr f ++ "(" ++ ", ".intercalate (xs.map attr) ++ ")"
    Unbroken text.toList ∧ line? (marks text.toList) = some (.call f xs) := by
  intro text
  have plain := isPlain_attr word
  have args : ∀ y ∈ xs.map attr, IsPlain y := by
    intro y inside
    obtain ⟨x, member, rfl⟩ := List.mem_map.mp inside
    exact isPlain_attr (words x member)
  have parts : text.toList = (attr f).toList ++ '(' :: ((", ".intercalate (xs.map attr)).toList ++ ')' :: []) := by
    simp [text]
  have back : (xs.map attr).mapM attribute? = some xs := by
    simpa using mapM_map_eq_some (h := id) fun x (_ : x ∈ xs) => attribute?_attr x
  rw [parts]
  constructor
  · have opening : Unbroken ['('] := by simp [Unbroken, isLineEnd]
    have closing : Unbroken [')'] := by simp [Unbroken, isLineEnd]
    have inner := unbroken_intercalate fun y inside => unbroken_of_parts (args y inside).2
    have list := unbroken_append.mpr ⟨unbroken_append.mpr ⟨opening, inner⟩, closing⟩
    exact unbroken_append.mpr ⟨unbroken_of_parts plain.2, list⟩
  · rw [marks_sign (by rfl) (by rfl), marks_sign (by rfl) (by rfl), plain.marks]
    change line? (.word (attr f).toList :: .sign '(' :: (marks _ ++ [.sign ')'])) = _
    simp only [line?, String.ofList_toList, attribute?_attr, listed?_intercalate args]
    simp [back]

theorem reads_statement (numbers : NumbersOnLine N) {s : Statement N} (named : IsNamed s) :
    Unbroken s.text.toList ∧ line? (marks s.text.toList) = some (.of s) := by
  cases s with
  | assign x e => exact reads_assign named.1 (unbroken_print numbers named.2)
  | preset x v => exact reads_assign named (unbroken_floatText numbers v)
  | call f xs => exact reads_call named.1 named.2

theorem codeLines_intercalate {ts : List String} (unbroken : ∀ t ∈ ts, Unbroken t.toList)
    (spoken : ∀ t ∈ ts, marks t.toList ≠ []) :
    codeLines ("\n        ".intercalate ts).toList = ts.map (marks ·.toList) := by
  induction ts with
  | nil => rfl
  | cons t ts ih =>
    have here := unbroken t (by simp)
    have visible := spoken t (by simp)
    have others := ih (fun u inside => unbroken u (List.mem_cons_of_mem t inside))
      (fun u inside => spoken u (List.mem_cons_of_mem t inside))
    cases ts with
    | nil => simpa using codeLines_line here visible
    | cons u us =>
      -- a line end, then the blanks that set the next line in
      have split : ("\n        ".intercalate (t :: u :: us)).toList =
          t.toList ++ '\n' :: (List.replicate 8 ' ' ++ ("\n        ".intercalate (u :: us)).toList) := by
        simp [show "\n        ".toList = '\n' :: List.replicate 8 ' ' from rfl]
      rw [split, codeLines_cons here visible, codeLines_indent (by simp [isPad]), others]
      rfl

theorem readLines_body (numbers : NumbersOnLine N) {ss : List (Statement N)} (named : ∀ s ∈ ss, IsNamed s) :
    readLines (Statement.body ss) = some (ss.map .of) := by
  have each (s : Statement N) (inside : s ∈ ss) := reads_statement numbers (named s inside)
  have unbroken : ∀ t ∈ ss.map (·.text), Unbroken t.toList :=
    List.forall_mem_map.mpr fun s inside => (each s inside).1
  have spoken : ∀ t ∈ ss.map (·.text), marks t.toList ≠ [] := by
    refine List.forall_mem_map.mpr fun s inside empty => ?_
    have line := (each s inside).2
    rw [empty] at line
    cases line
  rw [readLines, Statement.body, codeLines_intercalate unbroken spoken, List.map_map]
  exact mapM_map_eq_some fun s inside => (each s inside).2

theorem mem_assignedNames (numbers : NumbersOnLine N) {ss : List (Statement N)} (named : ∀ s ∈ ss, IsNamed s)
    {s : Statement N} (inside : s ∈ ss) {x : String} (target : (Line.of s).target? = some x) :
    x ∈ assignedNames (Statement.body ss) := by
  rw [assignedNames, readLines_body numbers named]
  exact List.mem_filterMap.mpr ⟨.of s, List.mem_map_of_mem inside, target⟩

example : (readLines "self.__ore = 3.0\n        self.__mill(self.__ore)").map (·.map Line.target?) =
    some [some "ore", none] := by decide +kernel

end Flowsheet.Script
