import Flowsheet.Proofs.Formula.Value
import Flowsheet.Script.Statement

set_option autoImplicit false

namespace Flowsheet.Formula

variable {N : Type}

def newName (mapping : String → Option String) (x : String) : String := (mapping x).getD x

/-- Two computations that give one value, or fail for the same kind of reason: with names or with
quotients that are related. -/
inductive Matches (names : List String → List String → Prop) (quotients : Formula N → Formula N → Prop) :
    Except (EvalError N) N → Except (EvalError N) N → Prop
  | value (v : N) : Matches names quotients (.ok v) (.ok v)
  | unbound {xs ys : List String} (related : names xs ys) :
      Matches names quotients (.error (.unbound xs)) (.error (.unbound ys))
  | divisionByZero {q q' : Formula N} (related : quotients q q') :
      Matches names quotients (.error (.divisionByZero q)) (.error (.divisionByZero q'))

def Renames (f : String → String) : Except (EvalError N) N → Except (EvalError N) N → Prop :=
  Matches (fun xs ys => ys = (xs.map f).eraseDups) fun q q' => q' = q.rename f

/-- The same up to the order in which missing names and the factors of a quotient are reported. -/
def RenamesInText [Quantity N] (f : String → String) : Except (EvalError N) N → Except (EvalError N) N → Prop :=
  Matches (fun xs ys => ys.Perm (xs.map f).eraseDups) fun q q' => q'.print = (q.rename f).print

variable {f : String → String} {value : String → Option N}

theorem identifiers_rename (f : String → String) (e : Formula N) :
    (e.rename f).identifiers = (e.identifiers.map f).eraseDups := by
  rw [identifiers, occurrences_rename, identifiers, eraseDups_map_eraseDups]

theorem missing_rename (f : String → String) (value : String → Option N) (e : Formula N) :
    (e.rename f).missing value = ((e.missing (value ∘ f)).map f).eraseDups := by
  rw [missing, identifiers_rename, filter_eraseDups, List.filter_map]
  rfl

theorem missing_rename_eq_nil {e : Formula N} : (e.rename f).missing value = [] ↔ e.missing (value ∘ f) = [] := by
  rw [missing_eq_nil, missing_eq_nil, occurrences_rename, List.forall_mem_map]
  rfl

theorem renames_substitute [Quantity N] (f : String → String) (value : String → Option N) (e : Formula N) :
    Renames f (e.substitute (value ∘ f)) ((e.rename f).substitute value) := by
  by_cases bound : e.missing (value ∘ f) = []
  · rw [substitute, substitute, if_pos bound, if_pos (missing_rename_eq_nil.mpr bound), eval_rename]
    cases computed : e.eval (value ∘ f) with
    | ok v => exact .value v
    | error err =>
      obtain ⟨q, rfl⟩ := divisionByZero_of_eval_error (missing_eq_nil.mp bound) computed
      exact .divisionByZero rfl
  · rw [substitute, substitute, if_neg bound, if_neg (mt missing_rename_eq_nil.mp bound), missing_rename]
    exact .unbound rfl

theorem Renames.inText {x y z : Except (EvalError ℚ) ℚ} (renamed : Renames f x y)
    (sorted : Matches (fun xs ys => ys.Perm xs) (fun q q' => q'.print = q.print) y z) : RenamesInText f x z := by
  cases renamed with
  | value v =>
    cases sorted
    exact .value v
  | unbound same =>
    cases sorted with
    | unbound perm => exact .unbound (same ▸ perm)
  | divisionByZero same =>
    cases sorted with
    | divisionByZero printed => exact .divisionByZero (same ▸ printed)

theorem matches_canonical (value : String → Option ℚ) (e : Formula ℚ) :
    Matches (fun xs ys => ys.Perm xs) (fun q q' => q'.print = q.print) (e.substitute value)
      (e.canonical.substitute value) := by
  by_cases bound : ∀ x ∈ e.identifiers, (value x).isSome
  · obtain ⟨v, own, sorted⟩ | ⟨q, q', own, sorted, printed⟩ := substitute_canonical_of_bound bound
    · rw [own, sorted]
      exact .value v
    · rw [own, sorted]
      exact .divisionByZero printed
  · have unbound : ∃ x ∈ e.identifiers, value x = none := by simpa using bound
    obtain ⟨names, names', own, sorted, perm, -⟩ := substitute_canonical_of_unbound unbound
    rw [own, sorted]
    exact .unbound perm

end Flowsheet.Formula

namespace Flowsheet.Operation

variable {N : Type}

def attributes (isPrivate : Arg → Bool) (o : Operation N) : Values String :=
  o.args.foldl (fun names a => if isPrivate a then names.set a.name (attr a.name) else names) []

theorem get?_attributes_foldl (isPrivate : Arg → Bool) (args : List Arg) (names : Values String) (x : String) :
    (args.foldl (fun names a => if isPrivate a then names.set a.name (attr a.name) else names) names).get? x =
      if args.any (fun a => isPrivate a && a.name == x) then some (attr x) else names.get? x := by
  induction args generalizing names with
  | nil => rfl
  | cons a args ih =>
    rw [List.foldl_cons, ih, List.any_cons]
    by_cases hidden : isPrivate a = true
    next =>
      by_cases same : a.name = x
      next => simp [hidden, same]
      next => simp [hidden, same, Values.get?_set_of_ne _ _ (Ne.symm same)]
    next => simp [hidden]

theorem newName_attributes (isPrivate : Arg → Bool) (o : Operation N) (x : String) :
    Formula.newName (o.attributes isPrivate).get? x = if o.hasArg isPrivate x then attr x else x := by
  rw [Formula.newName, attributes, get?_attributes_foldl, hasArg]
  split <;> rfl

theorem assignment_eq (isPrivate : Arg → Bool) (o : Operation N) :
    o.assignment isPrivate = .assign o.name (o.formula.rename (Formula.newName (o.attributes isPrivate).get?)) := by
  rw [assignment, funext (newName_attributes isPrivate o)]

end Flowsheet.Operation

namespace Flowsheet.Formula

variable {N : Type} [Quantity N]

theorem renaming_keeps_results (mapping : String → Option String) (value : String → Option N) (e : Formula N) :
    let f := newName mapping
    Renames f (e.substitute (value ∘ f)) ((e.rename f).substitute value) ∧
    (e.rename f).identifiers = (e.identifiers.map f).eraseDups ∧
    ∀ (o : Operation ℚ) (isPrivate : Arg → Bool) (bindings : String → Option ℚ),
      let g := newName (o.attributes isPrivate).get?
      let printed := (o.formula.rename g).canonical
      (o.assignment isPrivate).text = attr o.name ++ " = " ++ String.ofList printed.write ∧
      RenamesInText g (o.formula.substitute (bindings ∘ g)) (printed.substitute bindings) := by
  refine ⟨renames_substitute _ value e, identifiers_rename _ e, fun o isPrivate bindings => ⟨?_, ?_⟩⟩
  · rw [Operation.assignment_eq]
    rfl
  · exact (renames_substitute _ bindings o.formula).inText (matches_canonical bindings _)

example : ((Formula.binary .add (.name "a") (.name "b") : Formula ℚ).rename (newName fun _ => some "c")).identifiers =
    ["c"] := by decide

end Flowsheet.Formula
