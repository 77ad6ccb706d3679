import Flowsheet.Industry.Evaluate
import Flowsheet.Proofs.Formula.Value
import Flowsheet.Proofs.Result

set_option autoImplicit false

namespace Flowsheet

section Split

variable {α β : Type}

theorem split_append {xs ys before after : List α} {y : α} (split : xs ++ ys = before ++ y :: after) :
    (∃ rest, xs = before ++ y :: rest) ∨ ∃ rest, before = xs ++ rest ∧ ys = rest ++ y :: after := by
  rcases List.append_eq_append_iff.mp split with ⟨rest, here, there⟩ | ⟨rest, here, there⟩
  · exact .inr ⟨rest, here, there⟩
  · rcases List.cons_eq_append_iff.mp there with ⟨rfl, last⟩ | ⟨rest, rfl, -⟩
    · exact .inr ⟨[], by simp [here], by simp [last]⟩
    · exact .inl ⟨rest, here⟩

theorem split_flatMap {f : α → List β} {xs : List α} {before after : List β} {y : β}
    (split : xs.flatMap f = before ++ y :: after) :
    ∃ earlier x later first last, xs = earlier ++ x :: later ∧ f x = first ++ y :: last ∧
      before = earlier.flatMap f ++ first := by
  induction xs generalizing before with
  | nil => simp at split
  | cons x xs ih =>
    rw [List.flatMap_cons] at split
    rcases split_append split with ⟨last, here⟩ | ⟨rest, rfl, there⟩
    · exact ⟨[], x, xs, before, last, rfl, here, rfl⟩
    · obtain ⟨earlier, z, later, first, last, rfl, here, rfl⟩ := ih there
      exact ⟨x :: earlier, z, later, first, last, rfl, here, by simp⟩

theorem split_map {f : α → β} {xs : List α} {before after : List β} {y : β}
    (split : xs.map f = before ++ y :: after) :
    ∃ earlier x later, xs = earlier ++ x :: later ∧ y = f x ∧ before = earlier.map f := by
  obtain ⟨earlier, rest, rfl, rfl, tail⟩ := List.map_eq_append_iff.mp split
  obtain ⟨x, later, rfl, rfl, -⟩ := List.map_eq_cons_iff.mp tail
  exact ⟨earlier, x, later, rfl, rfl, rfl⟩

end Split

theorem Industry.apply_eq_ok {N : Type} [Quantity N] {owner : String} {o : Operation N} {values values' : Values N} :
    Industry.apply owner values o = .ok values' ↔
      ∃ v, o.formula.eval values.get? = .ok v ∧ values' = values.set o.name v := by
  simp only [Industry.apply, ← Formula.substitute_eq_ok]
  generalize o.formula.substitute values.get? = result
  cases result with
  | error reason => simp
  | ok v =>
    simp only [Except.ok.injEq, exists_eq_left']
    exact eq_comm

theorem Industry.apply_eq_error {N : Type} [Quantity N] {owner : String} {o : Operation N}
    {values : Values N} {fault : EvaluateError N} :
    Industry.apply owner values o = .error fault ↔
      ∃ reason, o.formula.substitute values.get? = .error reason ∧ fault = .formula o.name owner reason := by
  simp only [Industry.apply]
  generalize o.formula.substitute values.get? = result
  cases result with
  | ok v => simp
  | error reason =>
    simp only [Except.error.injEq, exists_eq_left']
    exact eq_comm

theorem Values.isSome_set {N : Type} {vs : Values N} {x : String} (y : String) (v : N) :
    ((vs.set y v).get? x).isSome ↔ (vs.get? x).isSome ∨ x = y := by
  by_cases here : x = y
  · simp [here]
  · simp [Values.get?_set_of_ne vs v here, here]

inductive Step (N : Type) where
  | constant (c : Constant N)
  | outcome (name : String) (value : N)
  | demand (d : Requirement N)
  | preset (p : Process N) (x : String)
  | output (id : String) (p : Process N) (o : Operation N)
  | closing (o : Operation N)

namespace Step

variable {N : Type}

def name : Step N → String
  | .constant c => c.name
  | .outcome x _ => x
  | .demand d => d.name
  | .preset _ x => x
  | .output _ _ o => o.name
  | .closing o => o.name

def run [Quantity N] (m : MetaProcess N) (vs : Values N) : Step N → Except (EvaluateError N) (Values N)
  | .constant c => .ok (vs.set c.name c.value)
  | .outcome x v => .ok (vs.set x v)
  | .demand d => Industry.apply m.name vs d.toOperation
  | .preset p x => .ok (Industry.preset p vs x)
  | .output _ p o => Industry.apply p.name vs o
  | .closing o => Industry.apply m.name vs o

def Defines (x : String) : Step N → Prop
  | .preset p y => y = x ∧ (p.ownValue? y).isSome
  | s => s.name = x

section Run

variable [Quantity N] {m : MetaProcess N} {vs vs' : Values N} {s : Step N} {x : String}

theorem run_eq_ok (ran : s.run m vs = .ok vs') :
    (vs' = vs ∧ ∃ p y, s = .preset p y) ∨ ∃ v, vs' = vs.set s.name v := by
  have applied {owner : String} {o : Operation N} (done : Industry.apply owner vs o = .ok vs') :
      ∃ v, vs' = vs.set o.name v := (Industry.apply_eq_ok.mp done).imp fun _ computed => computed.2
  cases s with
  | constant c => exact .inr ⟨c.value, (Except.ok.inj ran).symm⟩
  | outcome y v => exact .inr ⟨v, (Except.ok.inj ran).symm⟩
  | demand d => exact .inr (applied ran)
  | output id p o => exact .inr (applied ran)
  | closing o => exact .inr (applied ran)
  | preset p y =>
    obtain rfl : Industry.preset p vs y = vs' := Except.ok.inj ran
    unfold Industry.preset
    split
    · exact .inl ⟨rfl, p, y, rfl⟩
    · split
      next v _ => exact .inr ⟨v, rfl⟩
      next => exact .inl ⟨rfl, p, y, rfl⟩

theorem isSome_run (known : (vs.get? x).isSome) (ran : s.run m vs = .ok vs') :
    (vs'.get? x).isSome := by
  rcases run_eq_ok ran with ⟨rfl, -⟩ | ⟨v, rfl⟩
  · exact known
  · exact (Values.isSome_set s.name v).mpr (.inl known)

theorem Defines.isSome_run (defines : s.Defines x) (ran : s.run m vs = .ok vs') :
    (vs'.get? x).isSome := by
  rcases run_eq_ok ran with ⟨rfl, p, y, rfl⟩ | ⟨v, rfl⟩
  · -- an own value is left out only where there is a value already
    obtain ⟨rfl, own⟩ := defines
    obtain ⟨w, value⟩ := Option.isSome_iff_exists.mp own
    have same : Industry.preset p vs' y = vs' := Except.ok.inj ran
    unfold Industry.preset at same
    split at same
    next known => exact known
    next =>
      rw [value] at same
      rw [← same, Values.get?_set_self]
      rfl
  · have named : s.name = x := by
      cases s with
      | preset => exact defines.1
      | _ => exact defines
    exact (Values.isSome_set s.name v).mpr (.inr named.symm)

theorem isSome_foldlM {ss : List (Step N)} (known : (vs.get? x).isSome)
    (ran : ss.foldlM (Step.run m) vs = .ok vs') : (vs'.get? x).isSome := by
  induction ss generalizing vs with
  | nil =>
    cases ran
    exact known
  | cons s ss ih =>
    obtain ⟨next, first, rest⟩ := foldlM_cons_eq_ok.mp ran
    exact ih (Step.isSome_run known first) rest

theorem Defines.isSome_foldlM {ss : List (Step N)} (defines : s.Defines x) (member : s ∈ ss)
    (ran : ss.foldlM (Step.run m) vs = .ok vs') : (vs'.get? x).isSome := by
  obtain ⟨earlier, later, rfl⟩ := List.append_of_mem member
  obtain ⟨between, -, rest⟩ := foldlM_append_eq_ok.mp ran
  obtain ⟨next, here, last⟩ := foldlM_cons_eq_ok.mp rest
  exact Step.isSome_foldlM (defines.isSome_run here) last

end Run

end Step

namespace Industry

variable {N : Type}

def declarations (m : MetaProcess N) (ps : List (String × Process N)) (outcome : N) : List (Step N) :=
  m.constants.map .constant ++ ps.flatMap (fun q => q.2.constants.map .constant) ++
    [.outcome m.outcome.name outcome]

def block (m : MetaProcess N) (q : String × Process N) : List (Step N) :=
  (m.demandsFor q.1).map .demand ++ q.2.methodArgs.map (.preset q.2) ++
    q.2.operations.map (.output q.1 q.2)

def steps (m : MetaProcess N) (ps : List (String × Process N)) (outcome : N) : List (Step N) :=
  declarations m ps outcome ++ ps.flatMap (block m) ++ m.closing.map .closing

section Steps

variable {m : MetaProcess N} {ps : List (String × Process N)} {outcome : N} {before after : List (Step N)}
  {id : String} {p : Process N} {o : Operation N}

theorem split_declared {s : Step N} (fresh : s ∉ declarations m ps outcome)
    (split : steps m ps outcome = before ++ s :: after) :
    ∃ rest, before = declarations m ps outcome ++ rest ∧
      ps.flatMap (block m) ++ m.closing.map .closing = rest ++ s :: after := by
  rw [steps, List.append_assoc] at split
  rcases split_append split with ⟨_, here⟩ | later
  · exact absurd (by simp [here]) fresh
  · exact later

theorem split_output (split : steps m ps outcome = before ++ .output id p o :: after) :
    ∃ earlier later first last, ps = earlier ++ (id, p) :: later ∧ p.operations = first ++ o :: last ∧
      before = declarations m ps outcome ++ (earlier.flatMap (block m) ++
        ((m.demandsFor id).map .demand ++ p.methodArgs.map (.preset p) ++ first.map (.output id p))) := by
  obtain ⟨_, rfl, there⟩ := split_declared (by simp [declarations]) split
  rcases split_append there with ⟨_, blocks⟩ | ⟨_, -, here⟩
  · obtain ⟨earlier, ⟨id', p'⟩, later, part, last, rfl, inner, rfl⟩ := split_flatMap blocks
    rcases split_append inner with ⟨_, here⟩ | ⟨first, rfl, outputs⟩
    · have member : Step.output id p o ∈
          (m.demandsFor id').map .demand ++ p'.methodArgs.map (.preset p') := by simp [here]
      simp at member
    · obtain ⟨os, o', rest, operations, same, rfl⟩ := split_map outputs
      cases same
      exact ⟨earlier, later, os, rest, rfl, operations, rfl⟩
  · have member : Step.output id p o ∈ m.closing.map .closing := by simp [here]
    simp at member

theorem output_mem_blocks {q : String × Process N} (inside : q ∈ ps) (operation : o ∈ q.2.operations) :
    .output q.1 q.2 o ∈ ps.flatMap (block m) :=
  List.mem_flatMap.mpr ⟨q, inside, by simp [block, operation]⟩

end Steps

section Evaluate

variable [Quantity N]

theorem foldlM_flatMap {α β γ ε : Type} {f : γ → β → Except ε γ} {g : α → List β} (xs : List α) (s : γ) :
    (xs.flatMap g).foldlM f s = xs.foldlM (fun s x => (g x).foldlM f s) s := by
  induction xs generalizing s with
  | nil => rfl
  | cons x xs ih => simp only [List.flatMap_cons, List.foldlM_append, List.foldlM_cons, ih]

theorem foldlM_constants (m : MetaProcess N) (cs : List (Constant N)) (vs : Values N) :
    (cs.map Step.constant).foldlM (Step.run m) vs = .ok (setConstants vs cs) := by
  induction cs generalizing vs with
  | nil => rfl
  | cons c cs ih => exact ih (vs.set c.name c.value)

theorem foldlM_declarations (m : MetaProcess N) (ps : List (String × Process N)) (outcome : N) :
    (declarations m ps outcome).foldlM (Step.run m) [] = .ok (initialValues m ps outcome) := by
  have processes (vs : Values N) :
      (ps.flatMap fun q => q.2.constants.map Step.constant).foldlM (Step.run m) vs =
        .ok (ps.foldl (fun vs q => setConstants vs q.2.constants) vs) := by
    rw [foldlM_flatMap]
    induction ps generalizing vs with
    | nil => rfl
    | cons q ps ih =>
      rw [List.foldlM_cons, foldlM_constants]
      exact ih (setConstants vs q.2.constants)
  rw [declarations, foldlM_append_eq_ok]
  refine ⟨_, foldlM_append_eq_ok.mpr ⟨_, foldlM_constants m _ _, processes _⟩, rfl⟩

theorem foldlM_steps_block (m : MetaProcess N) (q : String × Process N) (vs : Values N) :
    (block m q).foldlM (Step.run m) vs = runProcess m vs q.1 q.2 := by
  have presets (xs : List String) (vs : Values N) :
      (xs.map (Step.preset q.2)).foldlM (Step.run m) vs = .ok (xs.foldl (preset q.2) vs) := by
    induction xs generalizing vs with
    | nil => rfl
    | cons x xs ih => exact ih (preset q.2 vs x)
  rw [block, runProcess, List.append_assoc, List.foldlM_append, List.foldlM_map, List.foldlM_map]
  congr 1
  funext vs
  rw [List.foldlM_append, presets]
  exact List.foldlM_map ..

theorem evaluate_eq_foldlM {i : Industry N} {m : MetaProcess N} {queue : List String}
    (set : i.metaProcess = some m) (ordered : i.executionQueue = .ok queue) (outcome : N) :
    i.evaluate outcome =
      if Quantity.lt outcome i.bounds.1 || Quantity.lt i.bounds.2 outcome then
        .error (.outOfRange m.outcome.name i.bounds.1 i.bounds.2 outcome)
      else (steps m (i.queued queue) outcome).foldlM (Step.run m) [] := by
  simp only [evaluate, set, ordered]
  cases Quantity.lt outcome i.bounds.1 || Quantity.lt i.bounds.2 outcome with
  | true => rfl
  | false =>
    rw [steps, List.append_assoc, List.foldlM_append, foldlM_declarations]
    change ((i.queued queue).foldlM _ (initialValues m (i.queued queue) outcome) >>= fun vs =>
      m.closing.foldlM (apply m.name) vs) = ((i.queued queue).flatMap (block m) ++
        m.closing.map Step.closing).foldlM (Step.run m) (initialValues m (i.queued queue) outcome)
    rw [List.foldlM_append, foldlM_flatMap]
    simp only [foldlM_steps_block, List.foldlM_map]
    rfl

/-- An evaluation comes to a step with these values. -/
structure Reaches (m : MetaProcess N) (ps : List (String × Process N)) (outcome : N)
    (before : List (Step N)) (s : Step N) (values : Values N) : Prop where
  split : ∃ after, steps m ps outcome = before ++ s :: after
  ran : before.foldlM (Step.run m) [] = .ok values

theorem Reaches.earlier {m : MetaProcess N} {ps : List (String × Process N)} {outcome : N}
    {first later : List (Step N)} {s t : Step N} {values : Values N}
    (reaches : Reaches m ps outcome (first ++ t :: later) s values) :
    ∃ known next, Reaches m ps outcome first t known ∧ t.run m known = .ok next ∧
      later.foldlM (Step.run m) next = .ok values := by
  obtain ⟨after, split⟩ := reaches.split
  obtain ⟨known, ran, rest⟩ := foldlM_append_eq_ok.mp reaches.ran
  obtain ⟨next, computed, last⟩ := foldlM_cons_eq_ok.mp rest
  exact ⟨known, next, ⟨⟨later ++ s :: after, by simp [split]⟩, ran⟩, computed, last⟩

theorem reaches_of_evaluate_eq_formula {i : Industry N} {m : MetaProcess N} {queue : List String}
    {outcome : N} {name owner : String} {reason : Formula.EvalError N} (set : i.metaProcess = some m)
    (ordered : i.executionQueue = .ok queue)
    (failed : i.evaluate outcome = .error (.formula name owner reason)) :
    ∃ before s values, Reaches m (i.queued queue) outcome before s values ∧
      s.run m values = .error (.formula name owner reason) := by
  rw [evaluate_eq_foldlM set ordered] at failed
  split at failed
  · cases failed
  · obtain ⟨before, s, after, values, split, ran, last⟩ := foldlM_eq_error.mp failed
    exact ⟨before, s, values, ⟨⟨after, split⟩, ran⟩, last⟩

end Evaluate

end Industry

end Flowsheet
