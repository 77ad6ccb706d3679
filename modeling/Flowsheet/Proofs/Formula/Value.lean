import Mathlib
import Flowsheet.Formula.Eval
import Flowsheet.Proofs.Formula.Canonical
import Flowsheet.Proofs.Rational

set_option autoImplicit false

namespace Flowsheet.Formula

variable {N : Type}

/-- A failure as it is printed: a quotient counts by its canonical form. -/
def EvalError.canonical : EvalError N → EvalError N
  | .unbound names => .unbound names
  | .divisionByZero quotient => .divisionByZero quotient.canonical

def settled (result : Except (EvalError N) N) : Except (EvalError N) N :=
  result.mapError EvalError.canonical

@[simp] theorem settled_ok (v : N) : settled (.ok v) = .ok v := rfl

@[simp] theorem settled_error (err : EvalError N) : settled (.error err) = .error err.canonical := rfl

theorem missing_eq_nil {value : String → Option N} {e : Formula N} :
    e.missing value = [] ↔ ∀ x ∈ e.occurrences, (value x).isSome := by
  simp only [missing, List.filter_eq_nil_iff, mem_identifiers, Option.isNone_iff_eq_none,
    Option.isSome_iff_ne_none, ne_eq]

theorem settled_cases {x y : Except (EvalError N) N} (same : settled x = settled y) :
    (∃ v, x = .ok v ∧ y = .ok v) ∨
      (∃ err err', x = .error err ∧ y = .error err' ∧ err.canonical = err'.canonical) := by
  cases x <;> cases y <;> simp_all

section Lookup

variable [Quantity N]

theorem isSome_of_eval_ok {value : String → Option N} {e : Formula N} {v : N}
    (evaluated : e.eval value = .ok v) : ∀ x ∈ e.occurrences, (value x).isSome := by
  induction e generalizing v with
  | number => simp [occurrences]
  | name x =>
    simp only [eval] at evaluated
    cases found : value x <;> simp_all [occurrences]
  | signed s e ih =>
    simp only [eval] at evaluated
    cases body : e.eval value with
    | error err => simp [body] at evaluated
    | ok w => exact ih body
  | binary op l r hl hr =>
    simp only [eval] at evaluated
    cases left : l.eval value with
    | error err => simp [left] at evaluated
    | ok a =>
      cases right : r.eval value with
      | error err => simp [left, right] at evaluated
      | ok b =>
        intro x member
        rcases List.mem_append.mp member with inLeft | inRight
        · exact hl left x inLeft
        · exact hr right x inRight

example : (Formula.binary .div (.name "x") (.number 2)).eval (fun _ => some (6 : ℚ)) = .ok 3 := by cbv

theorem eval_congr {value other : String → Option N} {e : Formula N}
    (alike : ∀ x ∈ e.occurrences, value x = other x) : e.eval value = e.eval other := by
  induction e with
  | number => rfl
  | name x => simp [eval, alike x (by simp [occurrences])]
  | signed s e ih => simp only [eval, ih alike]
  | binary op l r hl hr =>
    have left := hl (fun x member => alike x (List.mem_append_left _ member))
    have right := hr (fun x member => alike x (List.mem_append_right _ member))
    simp only [eval, left, right]

def EvalError.rename (f : String → String) : EvalError N → EvalError N
  | .unbound names => .unbound (names.map f)
  | .divisionByZero quotient => .divisionByZero (quotient.rename f)

theorem eval_rename (value : String → Option N) (f : String → String) (e : Formula N) :
    (e.rename f).eval value = (e.eval (value ∘ f)).mapError (EvalError.rename f) := by
  induction e with
  | number => rfl
  | name x =>
    simp only [Formula.rename, eval, Function.comp_apply]
    cases value (f x) <;> rfl
  | signed s e ih =>
    simp only [Formula.rename, eval, ih]
    cases e.eval (value ∘ f) <;> rfl
  | binary op l r hl hr =>
    simp only [Formula.rename, eval, hl, hr]
    cases l.eval (value ∘ f) with
    | error err => rfl
    | ok a =>
      cases r.eval (value ∘ f) with
      | error err => rfl
      | ok b =>
        cases op with
        | add | sub | mul => rfl
        | div =>
          by_cases zero : Quantity.isZero b <;>
            simp [Except.mapError, zero, EvalError.rename, Formula.rename]

theorem eval_rename_eq_ok {value : String → Option N} {f : String → String} {e : Formula N} {v : N} :
    (e.rename f).eval value = .ok v ↔ e.eval (value ∘ f) = .ok v := by
  rw [eval_rename]
  cases e.eval (value ∘ f) <;> simp [Except.mapError]

theorem divisionByZero_of_eval_error {value : String → Option N} {e : Formula N} {err : EvalError N}
    (bound : ∀ x ∈ e.occurrences, (value x).isSome) (failed : e.eval value = .error err) :
    ∃ quotient, err = .divisionByZero quotient := by
  induction e generalizing err with
  | number => simp [eval] at failed
  | name x =>
    obtain ⟨v, found⟩ := Option.isSome_iff_exists.mp (bound x (by simp [occurrences]))
    simp [eval, found] at failed
  | signed s e ih =>
    simp only [eval] at failed
    cases body : e.eval value with
    | ok v => simp [body] at failed
    | error inner =>
      simp only [body, Except.error.injEq] at failed
      exact ih bound (failed ▸ body)
  | binary op l r hl hr =>
    simp only [eval] at failed
    cases left : l.eval value with
    -- The left operand fails first, then the right one, and only then the division.
    | error inner =>
      simp only [left, Except.error.injEq] at failed
      exact hl (fun x member => bound x (List.mem_append_left _ member)) (failed ▸ left)
    | ok a =>
      cases right : r.eval value with
      | error inner =>
        simp only [left, right, Except.error.injEq] at failed
        exact hr (fun x member => bound x (List.mem_append_right _ member)) (failed ▸ right)
      | ok b =>
        cases op with
        | add | sub | mul => simp [left, right] at failed
        | div =>
          simp only [left, right] at failed
          split at failed
          · exact ⟨_, (Except.error.inj failed).symm⟩
          · cases failed

theorem substitute_eq_ok {value : String → Option N} {e : Formula N} {v : N} :
    e.substitute value = .ok v ↔ e.eval value = .ok v := by
  unfold substitute
  split
  · rfl
  · next unbound =>
    rw [missing_eq_nil] at unbound
    constructor
    · intro impossible
      cases impossible
    · intro evaluated
      exact absurd (isSome_of_eval_ok evaluated) unbound

end Lookup

section Exact

def times (x y : Except (EvalError ℚ) ℚ) : Except (EvalError ℚ) ℚ :=
  match x with
  | .error err => .error err
  | .ok a =>
    match y with
    | .error err => .error err
    | .ok b => .ok (a * b)

@[simp] theorem times_error (err : EvalError ℚ) (y : Except (EvalError ℚ) ℚ) :
    times (.error err) y = .error err := rfl

@[simp] theorem times_one (x : Except (EvalError ℚ) ℚ) : times x (.ok 1) = x := by
  cases x <;> simp [times]

@[simp] theorem one_times (x : Except (EvalError ℚ) ℚ) : times (.ok 1) x = x := by
  cases x <;> simp [times]

theorem times_assoc (x y z : Except (EvalError ℚ) ℚ) :
    times (times x y) z = times x (times y z) := by
  cases x <;> cases y <;> cases z <;> simp [times, mul_assoc]

theorem settled_times (x y : Except (EvalError ℚ) ℚ) :
    settled (times x y) = times (settled x) (settled y) := by
  cases x <;> cases y <;> rfl

variable (value : String → Option ℚ)

theorem eval_mul (l r : Formula ℚ) :
    (Formula.binary .mul l r).eval value = times (l.eval value) (r.eval value) := by
  simp only [eval]
  cases l.eval value <;> cases r.eval value <;> rfl

def factorsValue : List (Formula ℚ) → Except (EvalError ℚ) ℚ
  | [] => .ok 1
  | f :: fs => times (f.eval value) (factorsValue fs)

theorem factorsValue_append (fs gs : List (Formula ℚ)) :
    factorsValue value (fs ++ gs) = times (factorsValue value fs) (factorsValue value gs) := by
  induction fs with
  | nil => simp [factorsValue]
  | cons f fs ih => simp [factorsValue, ih, times_assoc]

example : factorsValue (fun _ => some 2) [.number 3, .name "x"] = .ok 6 := by cbv

theorem eval_foldl_mul (fs : List (Formula ℚ)) (f : Formula ℚ) :
    (fs.foldl (.binary .mul) f).eval value = times (f.eval value) (factorsValue value fs) := by
  induction fs generalizing f with
  | nil => simp [factorsValue]
  | cons g gs ih => rw [List.foldl_cons, ih, eval_mul, factorsValue, times_assoc]

theorem eval_productOr (unit : Formula ℚ) {fs : List (Formula ℚ)} (nonempty : fs ≠ []) :
    (productOr unit fs).eval value = factorsValue value fs := by
  cases fs with
  | nil => exact absurd rfl nonempty
  | cons f fs => exact eval_foldl_mul value fs f

def simpleValue : Formula ℚ → ℚ
  | .number v => v
  | .name x => (value x).getD 1
  | _ => 1

variable {value}

theorem eval_eq_simpleValue {f : Formula ℚ} (simple : f.isCompound = false)
    (bound : ∀ x ∈ f.occurrences, (value x).isSome) : f.eval value = .ok (simpleValue value f) := by
  cases f with
  | number v => rfl
  | name x =>
    obtain ⟨v, found⟩ := Option.isSome_iff_exists.mp (bound x (by simp [occurrences]))
    simp [eval, simpleValue, found]
  | signed | binary => simp [isCompound, isName, name?, isNumber] at simple

theorem factorsValue_split {fs : List (Formula ℚ)}
    (bound : ∀ f ∈ fs, ∀ x ∈ f.occurrences, (value x).isSome) :
    factorsValue value fs = times (factorsValue value (fs.filter isCompound))
      (.ok ((fs.filter (!·.isCompound)).map (simpleValue value)).prod) := by
  induction fs with
  | nil => simp [factorsValue]
  | cons f fs ih =>
    have rest := ih (fun g member => bound g (List.mem_cons_of_mem _ member))
    cases kind : f.isCompound with
    | true => simp [factorsValue, rest, kind, times_assoc]
    | false =>
      -- a name or a number cannot fail, so it may be multiplied in at the end
      have first := eval_eq_simpleValue kind (bound f (by simp))
      have merged (x : Except (EvalError ℚ) ℚ) (a b : ℚ) :
          times (.ok a) (times x (.ok b)) = times x (.ok (a * b)) := by
        cases x <;> simp [times, mul_left_comm]
      simp [factorsValue, rest, kind, first, merged]

theorem factorsValue_sortFactors {fs : List (Formula ℚ)}
    (bound : ∀ f ∈ fs, ∀ x ∈ f.occurrences, (value x).isSome) :
    factorsValue value (sortFactors fs) = factorsValue value fs := by
  have sortedBound : ∀ f ∈ sortFactors fs, ∀ x ∈ f.occurrences, (value x).isSome :=
    fun f member => bound f (mem_sortFactors.mp member)
  have products := (((sortFactors_perm fs).filter (!·.isCompound)).map (simpleValue value)).prod_eq
  rw [factorsValue_split sortedBound, factorsValue_split bound, filter_isCompound_sortFactors, products]

theorem eval_canonical_eq_factorsValue {e : Formula ℚ}
    (bound : ∀ x ∈ e.occurrences, (value x).isSome) :
    e.canonical.eval value = factorsValue value e.factors := by
  have factorsBound : ∀ f ∈ e.factors, ∀ x ∈ f.occurrences, (value x).isSome := by
    intro f member x inside
    exact bound x (e.flatMap_occurrences_factors.mem_iff.mp (List.mem_flatMap.mpr ⟨f, member, inside⟩))
  rw [canonical, eval_productOr value e (sortFactors_ne_nil e.factors_ne_nil),
    factorsValue_sortFactors factorsBound]

theorem settled_signed (s : Sign) {e f : Formula ℚ}
    (same : settled (e.eval value) = settled (f.eval value)) :
    settled ((Formula.signed s e).eval value) = settled ((Formula.signed s f).eval value) := by
  obtain ⟨v, left, right⟩ | ⟨err, err', left, right, printed⟩ := settled_cases same
  · simp [eval, left, right]
  · simp [eval, left, right, printed]

theorem settled_binary (op : Operator) {l r l' r' : Formula ℚ}
    (leftSame : settled (l.eval value) = settled (l'.eval value))
    (rightSame : settled (r.eval value) = settled (r'.eval value))
    (quotient : (Formula.binary .div l r).canonical = (Formula.binary .div l' r').canonical) :
    settled ((Formula.binary op l r).eval value) = settled ((Formula.binary op l' r').eval value) := by
  obtain ⟨a, hl, hl'⟩ | ⟨err, err', hl, hl', printed⟩ := settled_cases leftSame
  · obtain ⟨b, hr, hr'⟩ | ⟨err, err', hr, hr', printed⟩ := settled_cases rightSame
    · cases op with
      | add | sub | mul => simp [eval, hl, hl', hr, hr']
      | div =>
        by_cases zero : Quantity.isZero b <;>
          simp [eval, hl, hl', hr, hr', zero, EvalError.canonical, quotient]
    · simp [eval, hl, hl', hr, hr', printed]
  · simp [eval, hl, hl', printed]

theorem settled_factorsValue {e : Formula ℚ} (bound : ∀ x ∈ e.occurrences, (value x).isSome) :
    settled (factorsValue value e.factors) = settled (e.eval value) := by
  induction e with
  | number | name => simp [factors, factorsValue]
  | signed s e ih =>
    cases s with
    | plus =>
      have body := ih bound
      simp only [factors, body, eval]
      cases e.eval value <;> simp
    | minus =>
      have inner : ∀ x ∈ e.occurrences, (value x).isSome := bound
      have body : settled (e.canonical.eval value) = settled (e.eval value) := by
        rw [eval_canonical_eq_factorsValue inner, ih inner]
      simpa [factors, factorsValue, canonical] using settled_signed .minus body
  | binary op l r hl hr =>
    have leftBound : ∀ x ∈ l.occurrences, (value x).isSome :=
      fun x member => bound x (List.mem_append_left _ member)
    have rightBound : ∀ x ∈ r.occurrences, (value x).isSome :=
      fun x member => bound x (List.mem_append_right _ member)
    have left : settled (l.canonical.eval value) = settled (l.eval value) := by
      rw [eval_canonical_eq_factorsValue leftBound, hl leftBound]
    have right : settled (r.canonical.eval value) = settled (r.eval value) := by
      rw [eval_canonical_eq_factorsValue rightBound, hr rightBound]
    have quotient : (Formula.binary .div l.canonical r.canonical).canonical =
        (Formula.binary .div l r).canonical := by
      simp only [canonical_binary (show Operator.div ≠ .mul by decide), canonical_canonical]
    have whole := settled_binary op left right quotient
    cases op with
    -- a product has the factors of its operands, not their canonical forms
    | mul =>
      rw [factors, factorsValue_append, settled_times, hl leftBound, hr rightBound, ← settled_times,
        eval_mul]
    | add | sub | div => simpa [factors, factorsValue, canonical] using whole

theorem settled_eval_canonical {e : Formula ℚ} (bound : ∀ x ∈ e.occurrences, (value x).isSome) :
    settled (e.canonical.eval value) = settled (e.eval value) := by
  rw [eval_canonical_eq_factorsValue bound, settled_factorsValue bound]

theorem eval_canonical_eq_ok {e : Formula ℚ} {v : ℚ} :
    e.canonical.eval value = .ok v ↔ e.eval value = .ok v := by
  -- whichever of the two has a value, its names are bound, and both have the same names
  constructor
  · intro evaluated
    have bound : ∀ x ∈ e.occurrences, (value x).isSome := fun x member =>
      isSome_of_eval_ok evaluated x (e.occurrences_canonical_perm.mem_iff.mpr member)
    obtain ⟨w, left, right⟩ | ⟨_, _, failed, _⟩ := settled_cases (settled_eval_canonical bound)
    · rw [right, ← left, evaluated]
    · simp [failed] at evaluated
  · intro evaluated
    obtain ⟨w, left, right⟩ | ⟨_, _, _, failed, _⟩ :=
      settled_cases (settled_eval_canonical (isSome_of_eval_ok evaluated))
    · rw [left, ← right, evaluated]
    · simp [failed] at evaluated

theorem missing_canonical_perm (e : Formula ℚ) : (e.canonical.missing value).Perm (e.missing value) := by
  rw [List.perm_ext_iff_of_nodup]
  · intro x
    simp [missing, mem_identifiers_canonical]
  · exact (nodup_eraseDups _).filter _
  · exact (nodup_eraseDups _).filter _

theorem substitute_canonical_of_bound {e : Formula ℚ} (bound : ∀ x ∈ e.identifiers, (value x).isSome) :
    (∃ v, e.substitute value = .ok v ∧ e.canonical.substitute value = .ok v) ∨
      (∃ q q', e.substitute value = .error (.divisionByZero q) ∧
        e.canonical.substitute value = .error (.divisionByZero q') ∧ q'.print = q.print) := by
  have covered : ∀ x ∈ e.occurrences, (value x).isSome := fun x member =>
    bound x (mem_identifiers.mpr member)
  have coveredToo : ∀ x ∈ e.canonical.occurrences, (value x).isSome := fun x member =>
    covered x (e.occurrences_canonical_perm.mem_iff.mp member)
  simp only [substitute, missing_eq_nil.mpr covered, missing_eq_nil.mpr coveredToo, if_true]
  obtain ⟨v, left, right⟩ | ⟨err', err, left, right, printed⟩ :=
    settled_cases (settled_eval_canonical covered)
  · exact .inl ⟨v, right, left⟩
  · obtain ⟨q', rfl⟩ := divisionByZero_of_eval_error coveredToo left
    obtain ⟨q, rfl⟩ := divisionByZero_of_eval_error covered right
    have same : q'.canonical = q.canonical := by simpa [EvalError.canonical] using printed
    exact .inr ⟨q, q', right, left, by rw [print, print, same]⟩

theorem substitute_canonical_of_unbound {e : Formula ℚ} (unbound : ∃ x ∈ e.identifiers, value x = none) :
    ∃ names names', e.substitute value = .error (.unbound names) ∧
      e.canonical.substitute value = .error (.unbound names') ∧ names'.Perm names ∧
        ∀ x, x ∈ names ↔ x ∈ e.identifiers ∧ value x = none := by
  obtain ⟨x, member, unbound⟩ := unbound
  have missed : e.missing value ≠ [] := by
    apply List.ne_nil_of_mem (a := x)
    simp [missing, member, unbound]
  have missedToo : e.canonical.missing value ≠ [] := by
    intro empty
    exact missed (List.nil_perm.mp (empty ▸ missing_canonical_perm e))
  refine ⟨e.missing value, e.canonical.missing value, ?_, ?_, missing_canonical_perm e, ?_⟩
  · rw [substitute, if_neg missed]
  · rw [substitute, if_neg missedToo]
  · simp [missing]

theorem substitute_canonical (e : Formula ℚ) (value : String → Option ℚ) :
    ((∀ x ∈ e.identifiers, (value x).isSome) →
      (∃ v, e.substitute value = .ok v ∧ e.canonical.substitute value = .ok v) ∨
        (∃ q q', e.substitute value = .error (.divisionByZero q) ∧
          e.canonical.substitute value = .error (.divisionByZero q') ∧ q'.print = q.print)) ∧
    ((∃ x ∈ e.identifiers, value x = none) →
      ∃ names names', e.substitute value = .error (.unbound names) ∧
        e.canonical.substitute value = .error (.unbound names') ∧ names'.Perm names ∧
          ∀ x, x ∈ names ↔ x ∈ e.identifiers ∧ value x = none) :=
  ⟨substitute_canonical_of_bound, substitute_canonical_of_unbound⟩

theorem substitute_canonical_quotient :
    let quotient : Formula ℚ :=
      .binary .div (.binary .mul (.number 2) (.name "a")) (.binary .sub (.name "b") (.name "b"))
    let e : Formula ℚ := .binary .mul (.number 3) quotient
    (∀ x ∈ e.identifiers, (some (1 : ℚ)).isSome) ∧
      ∃ q q', e.substitute (fun _ => some 1) = .error (.divisionByZero q) ∧
        e.canonical.substitute (fun _ => some 1) = .error (.divisionByZero q') ∧ q'.print = q.print := by
  intro quotient e
  have bound : ∀ x ∈ e.identifiers, (some (1 : ℚ)).isSome := fun _ _ => rfl
  refine ⟨bound, ?_⟩
  rcases (substitute_canonical e (fun _ => some 1)).1 bound with ⟨v, value, -⟩ | failed
  · have stops : e.substitute (fun _ => some 1) = .error (.divisionByZero quotient) := by cbv
    rw [stops] at value
    cases value
  · exact failed

end Exact

end Flowsheet.Formula
