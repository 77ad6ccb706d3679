import Flowsheet.Proofs.Formula.Value

set_option autoImplicit false

namespace Flowsheet.Formula

variable {N : Type}

/-- Every formula inside, the operands before what is made of them. -/
def postorder : Formula N → List (Formula N)
  | .number v => [.number v]
  | .name x => [.name x]
  | .signed s e => e.postorder ++ [.signed s e]
  | .binary op l r => l.postorder ++ (r.postorder ++ [.binary op l r])

/-- The names without a value, each once, in the order of their first occurrence. -/
structure Lacks (value : String → Option N) (e : Formula N) (names : List String) : Prop where
  once : names.Nodup
  exact : ∀ x, x ∈ names ↔ x ∈ e.identifiers ∧ value x = none
  inOrder : names.Pairwise fun x y => e.occurrences.idxOf x < e.occurrences.idxOf y

variable {value : String → Option N} {e : Formula N} {names : List String}

theorem lacks_missing (value : String → Option N) (e : Formula N) : e.Lacks value (e.missing value) where
  once := (nodup_eraseDups e.occurrences).filter _
  exact x := by simp [missing, List.mem_filter]
  inOrder := (inOrder_eraseDups e.occurrences).filter _

theorem Lacks.eq_missing (lacks : e.Lacks value names) : names = e.missing value := by
  have exact := e.lacks_missing value
  refine List.Perm.eq_of_pairwise (fun x y _ _ before after => ?_) lacks.inOrder exact.inOrder ?_
  · exact absurd before after.asymm
  · rw [List.perm_ext_iff_of_nodup lacks.once exact.once]
    exact fun x => (lacks.exact x).trans (exact.exact x).symm

theorem missing_ne_nil : e.missing value ≠ [] ↔ ∃ x ∈ e.identifiers, value x = none := by
  simp [missing, List.filter_eq_nil_iff]

variable [Quantity N]

/-- The value without any check. A name without a value counts as zero. -/
def reckon (value : String → Option N) : Formula N → N
  | .number v => v
  | .name x => (value x).getD Quantity.zero
  | .signed .plus e => e.reckon value
  | .signed .minus e => -e.reckon value
  | .binary .add l r => l.reckon value + r.reckon value
  | .binary .sub l r => l.reckon value - r.reckon value
  | .binary .mul l r => l.reckon value * r.reckon value
  | .binary .div l r => l.reckon value / r.reckon value

def dividesByZero (value : String → Option N) : Formula N → Bool
  | .binary .div _ r => Quantity.isZero (r.reckon value)
  | _ => false

def outcome (v : N) : Option (Formula N) → Except (EvalError N) N
  | none => .ok v
  | some quotient => .error (.divisionByZero quotient)

theorem eval_eq_outcome (bound : ∀ x ∈ e.occurrences, (value x).isSome) :
    e.eval value = outcome (e.reckon value) (e.postorder.find? (dividesByZero value)) := by
  induction e with
  | number v => rfl
  | name x =>
    obtain ⟨v, found⟩ := Option.isSome_iff_exists.mp (bound x List.mem_cons_self)
    simp [eval, found, reckon, postorder, dividesByZero, outcome]
  | signed s e ih =>
    rw [eval, ih bound, postorder, List.find?_append]
    cases e.postorder.find? (dividesByZero value) with
    | some quotient => rfl
    | none => cases s <;> simp [outcome, reckon, dividesByZero]
  | binary op l r hl hr =>
    rw [eval, hl fun x inside => bound x (List.mem_append_left _ inside),
      hr fun x inside => bound x (List.mem_append_right _ inside), postorder, List.find?_append, List.find?_append]
    cases l.postorder.find? (dividesByZero value) with
    | some quotient => rfl
    | none =>
      cases r.postorder.find? (dividesByZero value) with
      | some quotient => rfl
      | none =>
        cases op with
        | add | sub | mul => rfl
        | div => cases zero : Quantity.isZero (r.reckon value) <;> simp [outcome, dividesByZero, reckon, zero]

theorem substitute_of_bound (bound : ∀ x ∈ e.identifiers, (value x).isSome) :
    e.substitute value = outcome (e.reckon value) (e.postorder.find? (dividesByZero value)) := by
  have bound : ∀ x ∈ e.occurrences, (value x).isSome := fun x inside => bound x (mem_identifiers.mpr inside)
  rw [substitute, if_pos (missing_eq_nil.mpr bound), eval_eq_outcome bound]

theorem substitute_cases (value : String → Option N) (e : Formula N) :
    ((∀ x ∈ e.identifiers, (value x).isSome) ∧
      e.substitute value = outcome (e.reckon value) (e.postorder.find? (dividesByZero value))) ∨
    (¬ (∀ x ∈ e.identifiers, (value x).isSome) ∧ e.missing value ≠ [] ∧
      e.substitute value = .error (.unbound (e.missing value))) := by
  by_cases bound : ∀ x ∈ e.identifiers, (value x).isSome
  · exact .inl ⟨bound, substitute_of_bound bound⟩
  · have some : e.missing value ≠ [] := fun none =>
      bound fun x inside => missing_eq_nil.mp none x (mem_identifiers.mp inside)
    exact .inr ⟨bound, some, if_neg some⟩

theorem substitute_eq_unbound :
    e.substitute value = .error (.unbound names) ↔ names ≠ [] ∧ e.Lacks value names := by
  have exact : e.Lacks value names ↔ names = e.missing value :=
    ⟨Lacks.eq_missing, fun same => same ▸ e.lacks_missing value⟩
  rw [exact]
  obtain ⟨bound, result⟩ | ⟨-, some, result⟩ := substitute_cases value e
  · have none : e.missing value = [] := missing_eq_nil.mpr fun x inside => bound x (mem_identifiers.mpr inside)
    rw [result, none]
    cases e.postorder.find? (dividesByZero value) <;> simp [outcome]
  · rw [result]
    simp only [Except.error.injEq, EvalError.unbound.injEq]
    exact ⟨fun same => ⟨same ▸ some, same.symm⟩, fun ⟨_, same⟩ => same.symm⟩

theorem substitute_eq_divisionByZero {quotient : Formula N} :
    e.substitute value = .error (.divisionByZero quotient) ↔
      (∀ x ∈ e.identifiers, (value x).isSome) ∧ e.postorder.find? (dividesByZero value) = some quotient := by
  obtain ⟨bound, result⟩ | ⟨unbound, -, result⟩ := substitute_cases value e
  · rw [result, and_iff_right bound]
    cases e.postorder.find? (dividesByZero value) <;> simp [outcome]
  · simp [result, unbound]

theorem substitute_eq_value {v : N} : e.substitute value = .ok v ↔ (∀ x ∈ e.identifiers, (value x).isSome) ∧
    (∀ quotient ∈ e.postorder, quotient.dividesByZero value = false) ∧ v = e.reckon value := by
  have none : e.postorder.find? (dividesByZero value) = none ↔
      ∀ quotient ∈ e.postorder, quotient.dividesByZero value = false := by
    simp only [List.find?_eq_none, Bool.not_eq_true]
  rw [← none]
  obtain ⟨bound, result⟩ | ⟨unbound, -, result⟩ := substitute_cases value e
  · rw [result, and_iff_right bound]
    cases e.postorder.find? (dividesByZero value) <;> simp [outcome, eq_comm]
  · simp [result, unbound]

theorem substitute_congr {other : String → Option N} (alike : ∀ x ∈ e.identifiers, value x = other x) :
    e.substitute value = e.substitute other := by
  have missing : e.missing value = e.missing other :=
    List.filter_congr fun x inside => by rw [alike x inside]
  rw [substitute, substitute, missing, eval_congr fun x inside => alike x (mem_identifiers.mpr inside)]

theorem substitute_fails_iff (value : String → Option N) (e : Formula N) :
    ((∃ names, e.substitute value = .error (.unbound names)) ↔ ∃ x ∈ e.identifiers, value x = none) ∧
    (∀ names, e.substitute value = .error (.unbound names) ↔ names ≠ [] ∧ e.Lacks value names) ∧
    ((∃ quotient, e.substitute value = .error (.divisionByZero quotient)) ↔
      (∀ x ∈ e.identifiers, (value x).isSome) ∧ ∃ quotient ∈ e.postorder, quotient.dividesByZero value = true) ∧
    (∀ quotient, e.substitute value = .error (.divisionByZero quotient) ↔
      (∀ x ∈ e.identifiers, (value x).isSome) ∧ e.postorder.find? (dividesByZero value) = some quotient) ∧
    (∀ v, e.substitute value = .ok v ↔ (∀ x ∈ e.identifiers, (value x).isSome) ∧
      (∀ quotient ∈ e.postorder, quotient.dividesByZero value = false) ∧ v = e.reckon value) ∧
    (∀ names, (EvalError.unbound names : EvalError N).message = "unbound reference: " ++ ", ".intercalate names) ∧
    (∀ quotient : Formula N, (EvalError.divisionByZero quotient).message = "division by zero: " ++ quotient.print) ∧
    ∀ other, (∀ x ∈ e.identifiers, value x = other x) → e.substitute value = e.substitute other := by
  refine ⟨?_, fun _ => substitute_eq_unbound, ?_, fun _ => substitute_eq_divisionByZero, fun _ => substitute_eq_value,
    fun _ => rfl, fun _ => rfl, fun _ => substitute_congr⟩
  · rw [← missing_ne_nil]
    constructor
    · rintro ⟨names, failed⟩
      obtain ⟨some, lacks⟩ := substitute_eq_unbound.mp failed
      exact lacks.eq_missing ▸ some
    · exact fun some => ⟨_, substitute_eq_unbound.mpr ⟨some, e.lacks_missing value⟩⟩
  · simp only [substitute_eq_divisionByZero, exists_and_left, ← Option.isSome_iff_exists, List.find?_isSome]

example : (Formula.binary .div (.name "a") (.binary .div (.name "b") (.number 0))).substitute (fun _ => some (1 : ℚ)) =
    .error (.divisionByZero (.binary .div (.name "b") (.number 0))) := by cbv

end Flowsheet.Formula
