import Flowsheet.Proofs.Industry.Queue
import Flowsheet.Proofs.Script.Lines

set_option autoImplicit false

namespace Flowsheet.Script

open Formula (Token)

variable {N : Type} [Quantity N]

def token? : Mark → Option (Token N)
  | .word w =>
    if w.head?.any fun c => c.isDigit || c = '.' then
      (Formula.spelledNumber? (String.ofList w)).map .number
    else some (.name (String.ofList w))
  | .sign '+' => some (.operator .add)
  | .sign '-' => some (.operator .sub)
  | .sign '*' => some (.operator .mul)
  | .sign '/' => some (.operator .div)
  | .sign '(' => some .openParen
  | .sign ')' => some .closeParen
  | .sign _ => none

def formula? (ms : List Mark) : Option (Formula N) := do
  let ts ← ms.mapM token?
  (Formula.parseLexemes 0 (ts.map fun t => ⟨t, "", 0⟩)).toOption

def statement? : Line → Option (Statement N)
  | .assign x value => (formula? value).map (.assign x)
  | .call f xs => some (.call f xs)

def readBody (text : String) : Option (List (Statement N)) := do (← readLines text).mapM statement?

def parameters? (text : String) : Option (List String) :=
  match listed? (marks text.toList ++ [.sign ')']) with
  | some ("self" :: xs) => some xs
  | _ => none

def method? (values : List (String × String)) : Option (Method N) := do
  return ⟨← values.lookup "name", ← parameters? (← values.lookup "args"), ← readBody (← values.lookup "operation")⟩

/-- Runs a class from its texts: the body of its constructor and what its methods are filled with. -/
def runText (constants : Values N) (methods : List (List (String × String))) (constructor : String)
    (attributes : Values N) : Option (Except (Exception N) (Values N)) := do
  let methods ← methods.mapM method?
  let statements ← readBody constructor
  return statements.foldlM (Statement.run constants [] (methodCalls constants methods)) attributes

def Tokenised (cs : List Char) (ts : List (Token N)) : Prop := (marks cs).mapM token? = some ts

theorem Tokenised.sign {cs ds : List Char} {ts us : List (Token N)} {c : Char} {t : Token N}
    (left : Tokenised cs ts) (right : Tokenised ds us) (foreign : isPart c = false) (visible : isPad c = false)
    (known : token? (.sign c) = some t) : Tokenised (cs ++ c :: ds) (ts ++ t :: us) := by
  rw [Tokenised] at left right ⊢
  rw [marks_sign foreign visible, List.mapM_append, left, List.mapM_cons, known, right]
  rfl

theorem Tokenised.beside {cs ds : List Char} {ts us : List (Token N)} (left : Tokenised cs ts)
    (right : Tokenised ds us) : Tokenised (cs ++ ' ' :: ds) (ts ++ us) := by
  rw [Tokenised] at left right ⊢
  rw [marks_pad (by rfl), List.mapM_append, left, right]
  rfl

theorem tokenised_nil : Tokenised [] ([] : List (Token N)) := rfl

theorem Tokenised.enclose {cs : List Char} {ts : List (Token N)} (spelled : Tokenised cs ts) (needed : Bool) :
    Tokenised (Formula.enclose needed cs) (Formula.encloseTokens needed ts) := by
  cases needed with
  | false => exact spelled
  | true => exact tokenised_nil.sign (spelled.sign tokenised_nil rfl rfl rfl) rfl rfl rfl

theorem Tokenised.between {cs ds : List Char} {ts us : List (Token N)} (left : Tokenised cs ts)
    (right : Tokenised ds us) (op : Operator) :
    Tokenised (cs ++ Formula.between op ++ ds) (ts ++ .operator op :: us) := by
  rw [List.append_assoc]
  cases op with
  | mul | div => exact left.sign right rfl rfl rfl
  -- blanks stand on both sides of the operator
  | add | sub => exact left.beside (tokenised_nil.sign (tokenised_nil.beside right) rfl rfl rfl)

def IsName (x : String) : Prop := IsPlain x ∧ ∀ c ∈ x.toList.head?, c.isDigit = false ∧ c ≠ '.'

theorem isName_attr {x : String} (word : ∀ c ∈ x.toList, isWord c = true) : IsName (attr x) := by
  refine ⟨isPlain_attr word, ?_⟩
  rw [attr, String.toList_append]
  rintro c ⟨⟩
  decide

theorem isName_of_isIdentifier {x : String} (identifier : Formula.IsIdentifier x) : IsName x := by
  refine ⟨isPlain_of_isName identifier, ?_⟩
  obtain ⟨b, bs, start, -, rfl⟩ := identifier
  rw [Formula.toList_shown]
  rintro c ⟨⟩
  have small : ∀ n < 128, Formula.isNameStart (UInt8.ofNat n) = true →
      (Char.ofNat n).isDigit = false ∧ Char.ofNat n ≠ '.' := by decide +kernel
  have part : Formula.isNamePart b = true := by simp [Formula.isNamePart, start]
  exact small b.toNat (Formula.toNat_lt_of_isNamePart part) (by rwa [UInt8.ofNat_toNat])

theorem tokenised_name {x : String} (named : IsName x) : Tokenised x.toList [(.name x : Token N)] := by
  have number : (x.toList.head?.any fun c => c.isDigit || c = '.') = false := by
    cases front : x.toList.head? with
    | none => rfl
    | some c => simpa using named.2 c front
  rw [Tokenised, named.1.marks]
  simp [token?, number]

theorem isPart_of_digitOrPoint {c : Char} (digit : c.isDigit = true ∨ c = '.') : isPart c = true := by
  rcases digit with digit | rfl
  · simp [isPart, isWord_of_isDigit digit]
  · rfl

theorem tokenised_number {cs : List Char} {v : N} (digits : ∀ c ∈ cs, c.isDigit = true ∨ c = '.')
    (reads : Formula.spelledNumber? (String.ofList cs) = some v) : Tokenised cs [.number v] := by
  have nonempty : cs ≠ [] := by
    rintro rfl
    have none : Text.bytes "" = [] := Text.bytes_ofList []
    rw [String.ofList_nil, Formula.spelledNumber?, none] at reads
    cases reads
  have parts : ∀ c ∈ cs, isPart c = true := fun c inside => isPart_of_digitOrPoint (digits c inside)
  obtain ⟨c, rest, rfl⟩ := List.exists_cons_of_ne_nil nonempty
  have number : (c.isDigit || c = '.') = true := by simpa using digits c (by simp)
  have token : token? (.word (c :: rest)) = some (.number v) := by
    rw [token?, if_pos (by simpa using number), reads]
    rfl
  rw [Tokenised, marks_word nonempty parts, List.mapM_cons, token]
  rfl

theorem tokenised_write {e : Formula N} (spellable : e.Spellable IsName) : Tokenised e.write e.tokens := by
  induction e with
  | number v =>
    have reads : Quantity.PlainReads v := spellable
    exact tokenised_number reads.digits (by rw [Formula.write, String.ofList_toList]; exact reads.reads)
  | name x => exact tokenised_name spellable
  | signed s e ih =>
    have body := (ih spellable).enclose (e.precedence ≤ 3)
    cases s with
    | plus | minus => exact tokenised_nil.sign body rfl rfl rfl
  | binary op l r hl hr => exact ((hl spellable.1).enclose _).between ((hr spellable.2).enclose _) op

theorem formula?_of_derives {cs : List Char} {ts : List (Token N)} {e : Formula N} (spelled : Tokenised cs ts)
    (derived : Formula.Derives .sum ts e) : formula? (marks cs) = some e := by
  have same : Formula.tokensOf (ts.map fun t => (⟨t, "", 0⟩ : Formula.Lexeme N)) = ts := by
    simp [Formula.tokensOf, Function.comp_def]
  have parsed := Formula.parseLexemes_of_derives 0 (same.symm ▸ derived)
  rw [Tokenised] at spelled
  simp [formula?, spelled, parsed, Except.toOption]

theorem formula?_write {e : Formula N} (spellable : e.Spellable IsName) : formula? (marks e.write) = some e :=
  formula?_of_derives (tokenised_write spellable)
    (e.derives_tokens.weaken 1 (by cases Formula.Level.ofRank e.precedence <;> decide))

/-- That a text spells a formula without names and with this value. -/
def Denotes (cs : List Char) (v : ℚ) : Prop :=
  ∃ ts e, Tokenised cs ts ∧ Formula.Derives .product ts e ∧ ∀ value, e.eval value = .ok v

theorem tokenised_reads {cs : List Char} {d : Decimal} (reads : Formula.Reads cs d) :
    Tokenised cs [.number d.toRat] := by
  refine tokenised_number reads.digits ?_
  have ascii : ∀ c ∈ cs, Text.IsAscii c := fun c inside => (Formula.byte_of_digitOrPoint (reads.digits c inside)).1
  rw [Formula.spelledNumber?, Text.bytes_ofList_of_ascii ascii, reads.decimal]
  rfl

theorem denotes_signed {cs : List Char} {d : Decimal} (reads : Formula.Reads cs d) {v : ℚ}
    (size : d.toRat = |v|) : Denotes ((if v < 0 then ['-'] else []) ++ cs) v := by
  have number := tokenised_reads reads
  split
  next negative =>
    refine ⟨_, .signed .minus (.number d.toRat), tokenised_nil.sign number rfl rfl rfl, ?_, fun value => ?_⟩
    · exact ((Formula.Derives.number _).unsigned.sign .minus).factor
    · simp [Formula.eval, size, abs_of_neg negative]
  next positive =>
    refine ⟨_, .number d.toRat, number, (Formula.Derives.number _).unsigned.factor, fun value => ?_⟩
    simp [Formula.eval, size, abs_of_nonneg (not_lt.mp positive)]

theorem Denotes.div {cs ds : List Char} {d : Decimal} {v : ℚ} (numerator : Denotes cs v)
    (reads : Formula.Reads ds d) (nonzero : d.toRat ≠ 0) : Denotes (cs ++ '/' :: ds) (v / d.toRat) := by
  obtain ⟨ts, e, spelled, derived, evaluates⟩ := numerator
  refine ⟨_, .binary .div e (.number d.toRat), spelled.sign (tokenised_reads reads) rfl rfl rfl, ?_, fun value => ?_⟩
  · exact derived.times rfl (Formula.Derives.number _).unsigned
  · have divisor : Quantity.isZero d.toRat = false := by simpa [Quantity.isZero] using nonzero
    simp [Formula.eval, evaluates value, divisor]

theorem toRat_abs {v : ℚ} {k : Nat} (divides : v.den ∣ 10 ^ k) :
    Decimal.toRat ⟨v.num.natAbs * 10 ^ k / v.den, -k⟩ = |v| := by
  rcases le_total 0 v with nonnegative | negative
  · rw [Rational.toRat_scaled nonnegative divides, abs_of_nonneg nonnegative]
  · have mirrored := Rational.toRat_scaled (neg_nonneg.mpr negative) (k := k) (by rwa [Rat.neg_den])
    rwa [Rat.neg_den, Rat.neg_num, Int.natAbs_neg, ← abs_of_nonpos negative] at mirrored

theorem any_sign_append (negative : Prop) [Decidable negative] (cs : List Char) :
    ((if negative then ['-'] else []) ++ cs).any (['.', 'e', 'E', 'n', 'N'].contains ·) =
      cs.any (['.', 'e', 'E', 'n', 'N'].contains ·) := by
  split <;> simp

theorem toList_plain_of_decimal {v : ℚ} {d : Decimal} (known : Rational.decimal? v = some d) :
    (Quantity.plain v).toList = (if v < 0 then ['-'] else []) ++ Decimal.positional d := by
  simp [Quantity.plain, Rational.text, known, Decimal.Layout.finite, Decimal.Layout.isPositional, Decimal.Layout.plain]

theorem toList_plain_of_fraction {v : ℚ} (known : Rational.decimal? v = none) :
    (Quantity.plain v).toList =
      ((if v.num < 0 then ['-'] else []) ++ Nat.toDigits 10 v.num.natAbs) ++ '/' :: Nat.toDigits 10 v.den := by
  have text : Quantity.plain v = toString v.num ++ "/" ++ v.den.repr := by
    simp [Quantity.plain, Rational.text, known]
  rw [text, String.toList_append, String.toList_append, Nat.toList_repr, Text.toList_toString]
  simp

theorem denotes_quotient {v : ℚ} :
    Denotes ((if v.num < 0 then ['-'] else []) ++ Nat.toDigits 10 v.num.natAbs ++
      '/' :: (Nat.toDigits 10 v.den ++ ['.', '0'])) v := by
  have numerator := Formula.reads_whole (Text.isDigit_toDigits (n := v.num.natAbs))
    (List.ne_nil_of_length_pos Nat.length_toDigits_pos)
  have denominator := Formula.reads_places (Nat.toDigits 10 v.den) ['0'] Text.isDigit_toDigits (by simp)
    (List.ne_nil_of_length_pos Nat.length_toDigits_pos)
  have size : Decimal.toRat ⟨Nat.ofDigitChars 10 (Nat.toDigits 10 v.num.natAbs) 0, 0⟩ = |(v.num : ℚ)| := by
    rw [Nat.ofDigitChars_ten_toDigits]
    simp [Decimal.toRat, Nat.cast_natAbs]
  have divisor : Decimal.toRat ⟨Nat.ofDigitChars 10 (Nat.toDigits 10 v.den ++ ['0']) 0, -(['0'] : List Char).length⟩ =
      v.den := by
    rw [Nat.ofDigitChars_append, Nat.ofDigitChars_ten_toDigits]
    simp [Nat.ofDigitChars_cons, Decimal.toRat]
    ring
  have quotient := (denotes_signed (v := v.num) numerator size).div denominator
    (by rw [divisor]; exact_mod_cast v.den_nz)
  rw [divisor, Rat.num_div_den] at quotient
  simpa using quotient

theorem denotes_floatText (v : ℚ) : Denotes (floatText v).toList v := by
  rw [toList_floatText]
  cases known : Rational.decimal? v with
  | some d =>
    obtain ⟨k, places, rfl⟩ := Option.map_eq_some_iff.mp known
    have divides : v.den ∣ 10 ^ k := by simpa using List.find?_some places
    obtain ⟨whole, places, digits, after, nonempty, text, value⟩ :=
      pointed_positional ⟨v.num.natAbs * 10 ^ k / v.den, -Int.ofNat k⟩
    rw [toList_plain_of_decimal known, any_sign_append, List.append_assoc, text]
    exact denotes_signed (Formula.reads_places whole places digits after nonempty) (value.trans (toRat_abs divides))
  | none =>
    have unmarked : (Quantity.plain v).toList.any (['.', 'e', 'E', 'n', 'N'].contains ·) = false := by
      rw [toList_plain_of_fraction known, List.any_append, any_sign_append, List.any_cons,
        unmarked_of_digits Text.isDigit_toDigits, unmarked_of_digits Text.isDigit_toDigits]
      rfl
    rw [unmarked, toList_plain_of_fraction known]
    simpa using denotes_quotient

theorem unbroken_sign (negative : Prop) [Decidable negative] : Unbroken (if negative then ['-'] else []) := by
  split <;> simp [Unbroken, isLineEnd]

theorem unbroken_positional (d : Decimal) : Unbroken (Decimal.positional d) :=
  unbroken_of_parts fun c inside => isPart_of_digitOrPoint ((Formula.reads_positional d).digits c inside)

theorem numbersOnLine_rat : NumbersOnLine ℚ := by
  intro v
  have digits {n : Nat} : Unbroken (Nat.toDigits 10 n) :=
    unbroken_of_parts fun c inside => isPart_of_digitOrPoint (.inl (Text.isDigit_toDigits c inside))
  cases known : Rational.decimal? v with
  | some d =>
    rw [toList_plain_of_decimal known]
    exact unbroken_append.mpr ⟨unbroken_sign _, unbroken_positional d⟩
  | none =>
    rw [toList_plain_of_fraction known]
    have slash : Unbroken ['/'] := by simp [Unbroken, isLineEnd]
    exact unbroken_append.mpr ⟨unbroken_append.mpr ⟨unbroken_sign _, digits⟩, unbroken_append.mpr ⟨slash, digits⟩⟩

theorem numbersOnLine_float : NumbersOnLine Float := by
  intro x
  rw [show Quantity.plain x = Decimal.Layout.plain.text x from rfl]
  cases known : Decimal.magnitude x with
  | finite m q =>
    have finite : Decimal.Layout.plain.finite (Decimal.shortest m q) = Decimal.positional (Decimal.shortest m q) := by
      simp [Decimal.Layout.finite, Decimal.Layout.isPositional, Decimal.Layout.plain]
    rw [Decimal.Layout.text_of_finite _ known, finite]
    exact unbroken_append.mpr ⟨unbroken_sign _, unbroken_positional _⟩
  | infinite =>
    simp only [Decimal.Layout.text, known]
    split <;> simp [Unbroken, isLineEnd]
  | undefined =>
    simp only [Decimal.Layout.text, known]
    simp [Unbroken, isLineEnd]

theorem exists_mapM_map {α β γ : Type} {f : β → Option γ} {g : α → β} {r : α → γ → Prop} {xs : List α}
    (each : ∀ x ∈ xs, ∃ y, f (g x) = some y ∧ r x y) :
    ∃ ys, (xs.map g).mapM f = some ys ∧ List.Forall₂ r xs ys := by
  induction xs with
  | nil => exact ⟨[], rfl, .nil⟩
  | cons x xs ih =>
    obtain ⟨y, first, related⟩ := each x (by simp)
    obtain ⟨ys, rest, others⟩ := ih fun z inside => each z (List.mem_cons_of_mem x inside)
    refine ⟨y :: ys, ?_, .cons related others⟩
    rw [List.map_cons, List.mapM_cons, first, rest]
    rfl

def SameRun (s s' : Statement N) : Prop :=
  ∀ constants params attributes calls, s.run constants params calls attributes = s'.run constants params calls attributes

def IsLegible : Statement N → Prop
  | .assign _ e => e.Spellable IsName
  | .preset _ _ | .call _ _ => True

theorem exists_sameRun {s : Statement ℚ} (legible : IsLegible s) :
    ∃ s', statement? (.of s) = some s' ∧ SameRun s s' := by
  cases s with
  | assign x e =>
    have read := formula?_write (Formula.Spellable.canonical legible)
    refine ⟨.assign x e.canonical, ?_, fun constants params attributes calls => ?_⟩
    · rw [Line.of, statement?, Formula.print, String.toList_ofList, read]
      rfl
    · simp only [Statement.run, Formula.canonical_canonical]
  | preset x v =>
    obtain ⟨ts, e, spelled, derived, evaluates⟩ := denotes_floatText v
    refine ⟨.assign x e, ?_, fun constants params attributes calls => ?_⟩
    · rw [Line.of, statement?, formula?_of_derives spelled derived.term]
      rfl
    · simp only [Statement.run, (Formula.eval_canonical_eq_ok).mpr (evaluates _)]
  | call f xs => exact ⟨.call f xs, rfl, fun _ _ _ _ => rfl⟩

theorem readBody_body {ss : List (Statement ℚ)} (named : ∀ s ∈ ss, IsNamed s) (legible : ∀ s ∈ ss, IsLegible s) :
    ∃ ss', readBody (Statement.body ss) = some ss' ∧ List.Forall₂ SameRun ss ss' := by
  obtain ⟨ss', read, alike⟩ := exists_mapM_map fun s inside => exists_sameRun (legible s inside)
  exact ⟨ss', by rw [readBody, readLines_body numbersOnLine_rat named]; exact read, alike⟩

theorem foldlM_sameRun {ss ss' : List (Statement N)} (alike : List.Forall₂ SameRun ss ss')
    (constants params attributes : Values N) (calls : Calls N) :
    ss.foldlM (Statement.run constants params calls) attributes =
      ss'.foldlM (Statement.run constants params calls) attributes := by
  induction alike generalizing attributes with
  | nil => rfl
  | cons same _ ih =>
    rw [List.foldlM_cons, List.foldlM_cons, same]
    exact congrArg _ (funext ih)

theorem parameters?_args {xs : List String} (plain : ∀ x ∈ xs, IsPlain x) :
    parameters? (", ".intercalate ("self" :: xs)) = some xs := by
  have object : IsPlain "self" := by
    simp [IsPlain, show "self".toList = ['s', 'e', 'l', 'f'] from rfl, isPart, isWord]
  have listed := listed?_intercalate (List.forall_mem_cons.mpr ⟨object, plain⟩)
  simp only [parameters?, listed]

def SameMethod (m m' : Method N) : Prop :=
  m.name = m'.name ∧ ∀ constants, m.run constants = m'.run constants

theorem find?_sameMethod {ms ms' : List (Method N)} (alike : List.Forall₂ SameMethod ms ms') (name : String) :
    Option.Rel SameMethod (ms.find? (·.name == name)) (ms'.find? (·.name == name)) := by
  induction alike with
  | nil => exact .none
  | @cons m m' ms ms' same _ ih =>
    rw [List.find?_cons, List.find?_cons, same.1]
    split
    · exact .some same
    · exact ih

theorem methodCalls_sameMethod {ms ms' : List (Method N)} (alike : List.Forall₂ SameMethod ms ms')
    (constants : Values N) : methodCalls constants ms = methodCalls constants ms' := by
  funext name args attributes
  have found := find?_sameMethod (List.rel_reverse alike) name
  rw [methodCalls, methodCalls]
  revert found
  generalize ms.reverse.find? (·.name == name) = a
  generalize ms'.reverse.find? (·.name == name) = b
  rintro (same | _)
  · exact congrFun (congrFun (same.2 constants) args) attributes
  · rfl

theorem exists_method {p : Process ℚ} (named : ∀ s ∈ p.statements, IsNamed s)
    (legible : ∀ s ∈ p.statements, IsLegible s) (plain : ∀ x ∈ p.methodArgs, IsPlain x) :
    ∃ method, method? p.methodValues = some method ∧ SameMethod p.method method := by
  obtain ⟨body, read, alike⟩ := readBody_body named legible
  refine ⟨⟨p.shortName, p.methodArgs, body⟩, ?_, rfl, fun constants => ?_⟩
  · have params := parameters?_args plain
    have name : p.methodValues.lookup "name" = some p.shortName := rfl
    have args : p.methodValues.lookup "args" = some (", ".intercalate ("self" :: p.methodArgs)) := rfl
    have operation : p.methodValues.lookup "operation" = some (Statement.body p.statements) := rfl
    rw [method?, name, args, operation]
    simp [params, read]
  · funext args attributes
    simp only [Method.run, Process.method, foldlM_sameRun alike]

theorem isLegible_assignment {o : Operation ℚ} {item : Item ℚ} (reads : o.Reads item) (isPrivate : Arg → Bool) :
    IsLegible (o.assignment isPrivate) := by
  have legible := Formula.legible_of_parseBytes Rational.plainReads reads.formula
  refine Formula.Spellable.rename legible fun x identifier => ?_
  split
  · exact isName_attr (isWord_of_isName identifier)
  · exact isName_of_isIdentifier identifier

theorem isLegible_method {r : ProcessRecord ℚ} {p : Process ℚ} (compiled : r.compile = .ok p) :
    ∀ s ∈ p.statements, IsLegible s := by
  intro s inside
  obtain ⟨o, operation, rfl⟩ := List.mem_map.mp inside
  obtain ⟨output, -, reads⟩ := exists_left_of_mem (Process.operations_of_compile compiled) operation
  exact isLegible_assignment reads _

theorem isLegible_constructor {r : IndustryRecord ℚ} {m : MetaProcess ℚ} (compiled : r.compile = .ok m)
    (ps : List (String × Process ℚ)) : ∀ s ∈ Industry.constructor m ps, IsLegible s := by
  obtain ⟨-, -, -, -, ⟨-, demands⟩, -, closing⟩ := IndustryRecord.compile_eq_ok.mp compiled
  refine forall_mem_constructor (fun d declared => ?_) (fun _ _ _ _ _ => trivial) (fun _ _ => trivial)
    (fun o operation => ?_)
  · obtain ⟨item, -, reads, -⟩ := exists_left_of_mem demands declared
    exact isLegible_assignment reads _
  · obtain ⟨item, -, reads⟩ := exists_left_of_mem closing operation
    exact isLegible_assignment reads _

theorem runText_eq {i : Industry ℚ} {m : MetaProcess ℚ} {queue : List String} (built : Industry.Built i)
    (set : i.metaProcess = some m) (spelled : Spelled m (i.queued queue)) (outcome : ℚ) :
    runText (Industry.constants m (i.queued queue)) ((i.queued queue).map (·.2.methodValues))
        (Statement.body (Industry.constructor m (i.queued queue))) [(m.outcome.name, outcome)] =
      some (Industry.construct m (i.queued queue) outcome) := by
  have inside {q : String × Process ℚ} (member : q ∈ i.queued queue) : q ∈ i.processes :=
    Industry.mem_processes_of_process? (Industry.mem_queued.mp member).2
  have formed := built.wellFormed
  have legible : ∀ s ∈ Industry.constructor m (i.queued queue), IsLegible s :=
    built.forall_meta (P := fun m => ∀ s ∈ Industry.constructor m (i.queued queue), IsLegible s)
      (fun compiled => isLegible_constructor compiled _) m set
  obtain ⟨ms, readMethods, alike⟩ := exists_mapM_map (f := method?) (g := fun q => q.2.methodValues)
    (r := fun q method => SameMethod q.2.method method) fun q (member : q ∈ i.queued queue) =>
      exists_method (spelled.isNamed_method member (formed.processes q (inside member)))
        (built.forall_process isLegible_method q (inside member)) fun x argument =>
          isPlain_of_isIdentifier (spelled.word_of_process member x (by simp [argument]))
  obtain ⟨body, read, same⟩ := readBody_body (spelled.isNamed_constructor (formed.metaProcess m set)) legible
  rw [← List.forall₂_map_left_iff] at alike
  rw [runText, readMethods, Industry.construct, methodCalls_sameMethod alike, foldlM_sameRun same]
  simp [read]

end Flowsheet.Script
