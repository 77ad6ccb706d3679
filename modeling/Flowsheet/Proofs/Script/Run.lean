import Flowsheet.Proofs.Evaluation.Steps
import Flowsheet.Proofs.Industry.Built
import Flowsheet.Script.Basic

set_option autoImplicit false

namespace Flowsheet

def attribute? (name : String) : Option String :=
  ("self.__".toList.isPrefixOf? name.toList).map String.ofList

theorem attribute?_attr (x : String) : attribute? (attr x) = some x := by
  simp [attribute?, attr, List.isPrefixOf?]

theorem attribute?_of_isIdentifier {x : String} (identifier : Formula.IsIdentifier x) :
    attribute? x = none := by
  rw [attribute?, Option.map_eq_none_iff, ← Option.not_isSome_iff_eq_none]
  intro found
  obtain ⟨rest, known⟩ := Option.isSome_iff_exists.mp found
  -- no identifier has a point in it
  have point : '.' ∈ x.toList := by simp [← List.isPrefixOf?_eq_some_iff_append_eq.mp known]
  obtain ⟨b, part, same⟩ := identifier.exists_part point
  have code : b = 46 := by rw [← Formula.byte_ofNat b, same]; rfl
  rw [code] at part
  exact absurd part (by decide)

variable {N : Type}

inductive Exception (N : Type) where
  | formula (target : String) (reason : Formula.EvalError N)
  | unset (name : String)
  | noMethod (method : String)
  | arity (method : String)

/-- A name that is no attribute is a parameter, else a constant. -/
def readName (constants params attributes : Values N) (name : String) : Option N :=
  match attribute? name with
  | some x => attributes.get? x
  | none => (params.get? name).or (constants.get? name)

abbrev Calls (N : Type) := String → List N → Values N → Except (Exception N) (Values N)

def Calls.none : Calls N := fun method _ _ => .error (.noMethod method)

def arguments (attributes : Values N) (names : List String) : Except (Exception N) (List N) :=
  names.mapM fun x =>
    match attributes.get? x with
    | some v => .ok v
    | none => .error (.unset x)

def Statement.run [Quantity N] (constants params : Values N) (calls : Calls N)
    (attributes : Values N) : Statement N → Except (Exception N) (Values N)
  | .assign x e =>
    match e.canonical.eval (readName constants params attributes) with
    | .ok v => .ok (attributes.set x v)
    | .error reason => .error (.formula x reason)
  | .preset x v => .ok (attributes.set x v)
  | .call method xs => do calls method (← arguments attributes xs) attributes

structure Method (N : Type) where
  name : String
  params : List String
  body : List (Statement N)

/-- The body holds assignments, no method calls another one. -/
def Method.run [Quantity N] (constants : Values N) (method : Method N) (args : List N)
    (attributes : Values N) : Except (Exception N) (Values N) :=
  if args.length = method.params.length then
    method.body.foldlM (Statement.run constants (method.params.zip args) Calls.none) attributes
  else .error (.arity method.name)

def Process.method (p : Process N) : Method N := ⟨p.shortName, p.methodArgs, p.statements⟩

/-- Of two methods with one name the later definition counts. -/
def methodCalls [Quantity N] (constants : Values N) (methods : List (Method N)) : Calls N :=
  fun name args attributes =>
    match methods.reverse.find? (·.name == name) with
    | some method => method.run constants args attributes
    | none => .error (.noMethod name)

namespace Industry

def constants (m : MetaProcess N) (ps : List (String × Process N)) : Values N :=
  ps.foldl (fun vs (_, p) => setConstants vs p.constants) (setConstants [] m.constants)

variable [Quantity N]

def construct (m : MetaProcess N) (ps : List (String × Process N)) (outcome : N) :
    Except (Exception N) (Values N) :=
  (constructor m ps).foldlM
    (Statement.run (constants m ps) [] (methodCalls (constants m ps) (ps.map (·.2.method))))
    [(m.outcome.name, outcome)]

def runBlock (m : MetaProcess N) (constants : Values N) (attributes : Values N) :
    String × Process N → Except (Exception N) (Values N)
  | (id, p) =>
    (m.opening id ++ p.presets ((m.demandsFor id).map (·.name)) ++ [p.call]).foldlM
      (Statement.run constants [] fun _ => p.method.run constants) attributes

/-- The constructor with each call resolved to the method of its own process. -/
def constructOwn (m : MetaProcess N) (ps : List (String × Process N)) (outcome : N) :
    Except (Exception N) (Values N) := do
  let attributes ← ps.foldlM (runBlock m (constants m ps)) [(m.outcome.name, outcome)]
  m.ending.foldlM (Statement.run (constants m ps) [] Calls.none) attributes

end Industry

theorem Values.get?_cons (x y : String) (v : N) (vs : Values N) :
    Values.get? ((y, v) :: vs) x = if x = y then some v else vs.get? x := by
  by_cases here : x = y
  · simp [Values.get?, here]
  · have differ : (x == y) = false := by simpa using here
    simp [Values.get?, List.lookup_cons, differ, here]

theorem arguments_eq_ok {attributes : Values N} {names : List String} {args : List N}
    (passed : arguments attributes names = .ok args) :
    args.length = names.length ∧
      (∀ x, x ∈ names ↔ (Values.get? (names.zip args) x).isSome) ∧
        ∀ x v, Values.get? (names.zip args) x = some v → attributes.get? x = some v := by
  induction names generalizing args with
  | nil =>
    cases passed
    simp [Values.get?]
  | cons y ys ih =>
    rw [arguments, List.mapM_cons, bind_eq_ok] at passed
    obtain ⟨v, first, rest⟩ := passed
    rw [bind_eq_ok] at rest
    obtain ⟨vs, others, last⟩ := rest
    cases last
    have value : attributes.get? y = some v := by
      cases found : attributes.get? y with
      | none => simp [found] at first
      | some w => simpa [found] using first
    obtain ⟨length, named, same⟩ := ih others
    refine ⟨by simpa using length, fun x => ?_, fun x w found => ?_⟩
    · rw [List.zip_cons_cons, Values.get?_cons, List.mem_cons, named]
      split <;> simp_all
    · rw [List.zip_cons_cons, Values.get?_cons] at found
      split at found
      next here => rw [here, value, found]
      next => exact same x w found

theorem exists_arguments {attributes : Values N} {names : List String}
    (given : ∀ x ∈ names, (attributes.get? x).isSome) :
    ∃ args, arguments attributes names = .ok args := by
  induction names with
  | nil => exact ⟨[], rfl⟩
  | cons y ys ih =>
    obtain ⟨vs, others⟩ := ih (fun x member => given x (List.mem_cons_of_mem _ member))
    obtain ⟨v, value⟩ := Option.isSome_iff_exists.mp (given y (by simp))
    refine ⟨v :: vs, ?_⟩
    rw [arguments] at others ⊢
    rw [List.mapM_cons, others, value]
    rfl

def Operation.reads (o : Operation N) (isPrivate : Arg → Bool) (constants params attributes : Values N)
    (x : String) : Option N :=
  if o.hasArg isPrivate x then attributes.get? x else (params.get? x).or (constants.get? x)

theorem Operation.run_assignment_eq_ok {o : Operation ℚ} (formed : o.WellFormed)
    {isPrivate : Arg → Bool} {constants params attributes attributes' : Values ℚ}
    {calls : Calls ℚ} :
    (o.assignment isPrivate).run constants params calls attributes = .ok attributes' ↔
      ∃ v, o.formula.eval (o.reads isPrivate constants params attributes) = .ok v ∧
        attributes' = attributes.set o.name v := by
  have same : ∀ x ∈ o.formula.occurrences,
      (readName constants params attributes ∘ fun x => if o.hasArg isPrivate x then attr x else x) x =
        o.reads isPrivate constants params attributes x := by
    intro x member
    have plain := attribute?_of_isIdentifier (formed.spelled x (Formula.mem_identifiers.mpr member))
    by_cases known : o.hasArg isPrivate x
    · simp [readName, Operation.reads, known, attribute?_attr]
    · simp [readName, Operation.reads, known, plain]
  -- the printed formula is renamed and canonical, and has the value of the formula itself
  have value (v : ℚ) :
      (o.formula.rename fun x => if o.hasArg isPrivate x then attr x else x).canonical.eval
          (readName constants params attributes) = .ok v ↔
        o.formula.eval (o.reads isPrivate constants params attributes) = .ok v := by
    rw [Formula.eval_canonical_eq_ok, Formula.eval_rename_eq_ok, Formula.eval_congr same]
  simp only [Operation.assignment, Statement.run, ← value]
  generalize Formula.eval (N := ℚ) _ _ = result
  cases result with
  | error reason => simp
  | ok v =>
    simp only [Except.ok.injEq, exists_eq_left']
    exact eq_comm

def assignAll [Quantity N] (isPrivate : Arg → Bool) (constants params attributes : Values N)
    (os : List (Operation N)) : Except (Exception N) (Values N) :=
  (os.map (·.assignment isPrivate)).foldlM (Statement.run constants params Calls.none) attributes

theorem foldlM_assignments [Quantity N] (isPrivate : Arg → Bool) (constants params attributes : Values N)
    (calls : Calls N) (os : List (Operation N)) :
    (os.map (·.assignment isPrivate)).foldlM (Statement.run constants params calls) attributes =
      assignAll isPrivate constants params attributes os := by
  simp only [assignAll, List.foldlM_map]
  rfl

theorem assignAll_cons_eq_ok {isPrivate : Arg → Bool} {constants params attributes attributes' : Values ℚ}
    {o : Operation ℚ} {os : List (Operation ℚ)} (formed : o.WellFormed) :
    assignAll isPrivate constants params attributes (o :: os) = .ok attributes' ↔
      ∃ v, o.formula.eval (o.reads isPrivate constants params attributes) = .ok v ∧
        assignAll isPrivate constants params (attributes.set o.name v) os = .ok attributes' := by
  rw [assignAll, List.map_cons, foldlM_cons_eq_ok]
  constructor
  · rintro ⟨between, first, rest⟩
    obtain ⟨v, evaluated, rfl⟩ := (o.run_assignment_eq_ok formed).mp first
    exact ⟨v, evaluated, rest⟩
  · rintro ⟨v, evaluated, rest⟩
    exact ⟨_, (o.run_assignment_eq_ok formed).mpr ⟨v, evaluated, rfl⟩, rest⟩

def Process.declared (p : Process N) (supplied : List String) (args : List String) : Values N :=
  args.filterMap fun x => if supplied.contains x then none else (p.ownValue? x).map (x, ·)

def Process.standing (p : Process N) (supplied : List String) : Values N :=
  p.declared supplied p.methodArgs

theorem Process.mem_standing (p : Process N) {supplied : List String} {x : String} {v : N}
    (argument : x ∈ p.methodArgs) (absent : x ∉ supplied) (own : p.ownValue? x = some v) :
    (x, v) ∈ p.standing supplied :=
  List.mem_filterMap.mpr ⟨x, argument, by simp [absent, own]⟩

def Values.setAll (vs : Values N) (new : Values N) : Values N :=
  new.foldl (fun vs (x, v) => vs.set x v) vs

theorem Process.presets_eq (p : Process N) (supplied : List String) :
    p.presets supplied = (p.standing supplied).map fun (x, v) => .preset x v := by
  rw [presets, standing, declared, List.map_filterMap]
  apply List.filterMap_congr
  intro x _
  by_cases known : supplied.contains x
  · simp only [known, if_true, Option.map_none]
  · simp only [known, Bool.false_eq_true, if_false, Option.map_map]
    rfl

theorem foldlM_presets [Quantity N] (constants params attributes : Values N) (calls : Calls N)
    (new : Values N) :
    (new.map fun (x, v) => Statement.preset x v).foldlM (Statement.run constants params calls)
      attributes = .ok (attributes.setAll new) := by
  induction new generalizing attributes with
  | nil => rfl
  | cons entry new ih => exact ih (attributes.set entry.1 entry.2)

def isOutput (a : Arg) : Bool := a.kind = .outputs

theorem MetaProcess.opening_eq (m : MetaProcess N) (id : String) :
    m.opening id =
      ((m.demandsFor id).map (·.toOperation)).map (·.assignment MetaProcess.isPrivate) := by
  rw [opening, List.map_map]
  rfl

theorem Industry.runBlock_eq [Quantity N] (m : MetaProcess N) (constants attributes : Values N)
    (id : String) (p : Process N) :
    Industry.runBlock m constants attributes (id, p) =
      assignAll MetaProcess.isPrivate constants [] attributes ((m.demandsFor id).map (·.toOperation)) >>=
        fun started =>
          arguments (started.setAll (p.standing ((m.demandsFor id).map (·.name)))) p.methodArgs >>=
            fun args => p.method.run constants args
              (started.setAll (p.standing ((m.demandsFor id).map (·.name)))) := by
  simp only [Industry.runBlock, MetaProcess.opening_eq, Process.presets_eq, List.foldlM_append,
    foldlM_assignments, foldlM_presets, Process.call, List.foldlM_cons, List.foldlM_nil, Statement.run,
    bind_pure, bind_assoc]
  rfl

theorem Industry.runBlock_eq_ok [Quantity N] {m : MetaProcess N}
    {constants attributes attributes' : Values N} {id : String} {p : Process N} :
    Industry.runBlock m constants attributes (id, p) = .ok attributes' ↔
      ∃ started args,
        assignAll MetaProcess.isPrivate constants [] attributes
            ((m.demandsFor id).map (·.toOperation)) = .ok started ∧
          arguments (started.setAll (p.standing ((m.demandsFor id).map (·.name)))) p.methodArgs =
              .ok args ∧
            assignAll isOutput constants (p.methodArgs.zip args)
              (started.setAll (p.standing ((m.demandsFor id).map (·.name)))) p.operations =
                .ok attributes' := by
  simp only [Industry.runBlock_eq, bind_eq_ok]
  constructor
  · rintro ⟨started, demanded, args, passed, called⟩
    have length : args.length = p.method.params.length := (arguments_eq_ok passed).1
    rw [Method.run, if_pos length] at called
    exact ⟨started, args, demanded, passed, called⟩
  · rintro ⟨started, args, demanded, passed, called⟩
    have length : args.length = p.method.params.length := (arguments_eq_ok passed).1
    refine ⟨started, demanded, args, passed, ?_⟩
    rw [Method.run, if_pos length]
    exact called

theorem find?_method {methods : List (Method N)} (distinct : (methods.map (·.name)).Nodup)
    {method : Method N} (member : method ∈ methods) :
    methods.reverse.find? (·.name == method.name) = some method := by
  have reversed : (methods.reverse.map (·.name)).Nodup := by
    rw [List.map_reverse]
    exact List.nodup_reverse.mpr distinct
  exact (find?_name_eq_some_iff reversed).mpr ⟨List.mem_reverse.mpr member, rfl⟩

theorem Industry.foldlM_block [Quantity N] (m : MetaProcess N) (constants attributes : Values N)
    (id : String) (p : Process N) {calls : Calls N}
    (own : calls p.shortName = p.method.run constants) :
    (m.opening id ++ p.presets ((m.demandsFor id).map (·.name)) ++ [p.call]).foldlM
        (Statement.run constants [] calls) attributes =
      Industry.runBlock m constants attributes (id, p) := by
  rw [Industry.runBlock, MetaProcess.opening_eq, Process.presets_eq]
  simp only [List.foldlM_append, foldlM_assignments, foldlM_presets, Process.call, List.foldlM_cons,
    List.foldlM_nil, Statement.run, own]

theorem Industry.construct_eq [Quantity N] {m : MetaProcess N} {ps : List (String × Process N)}
    (distinct : (ps.map (·.2.shortName)).Nodup) (outcome : N) :
    Industry.construct m ps outcome = Industry.constructOwn m ps outcome := by
  have names : ((ps.map (·.2.method)).map (·.name)).Nodup := by
    simpa [Process.method, Function.comp_def] using distinct
  -- the methods stay those of the whole queue while the induction goes over a part of it
  have blocks (attributes : Values N) (part : List (String × Process N)) (inside : part ⊆ ps) :
      (part.flatMap fun (id, p) =>
          m.opening id ++ p.presets ((m.demandsFor id).map (·.name)) ++ [p.call]).foldlM
        (Statement.run (Industry.constants m ps) []
          (methodCalls (Industry.constants m ps) (ps.map (·.2.method)))) attributes =
        part.foldlM (Industry.runBlock m (Industry.constants m ps)) attributes := by
    induction part generalizing attributes with
    | nil => rfl
    | cons q part ih =>
      have found := find?_method names (List.mem_map.mpr ⟨q, inside (by simp), rfl⟩)
      have own : methodCalls (Industry.constants m ps) (ps.map (·.2.method)) q.2.shortName =
          q.2.method.run (Industry.constants m ps) := by
        funext args attributes
        rw [methodCalls, show q.2.shortName = q.2.method.name from rfl, found]
      rw [List.flatMap_cons, List.foldlM_append, List.foldlM_cons,
        Industry.foldlM_block m (Industry.constants m ps) attributes q.1 q.2 own]
      congr 1
      funext next
      exact ih next (List.subset_of_cons_subset inside)
  rw [Industry.construct, Industry.constructor, List.foldlM_append, blocks _ ps (List.Subset.refl ps),
    Industry.constructOwn]
  congr 1
  funext attributes
  rw [MetaProcess.ending, foldlM_assignments, foldlM_assignments]

end Flowsheet
