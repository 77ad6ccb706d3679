import Flowsheet.Proofs.Script.Reading
import Flowsheet.Proofs.Script.Rendering

set_option autoImplicit false

namespace Flowsheet.Industry

section Names

variable {N : Type}

def computedNames (m : MetaProcess N) (ps : List (String × Process N)) : List String :=
  m.outcome.name :: (m.demands.map (·.name) ++
    (ps.flatMap fun q => q.2.operations.map (·.name)) ++ m.closing.map (·.name))

def standaloneNames (m : MetaProcess N) (ps : List (String × Process N)) : List String :=
  ps.flatMap fun q => (q.2.standing ((m.demandsFor q.1).map (·.name))).map (·.1)

def allOperations (m : MetaProcess N) (ps : List (String × Process N)) : List (Operation N) :=
  m.demands.map (·.toOperation) ++ (ps.flatMap fun q => q.2.operations) ++ m.closing

structure SingleDefinition (m : MetaProcess N) (ps : List (String × Process N)) : Prop where
  names : (constantNames m ps ++ (computedNames m ps ++ standaloneNames m ps)).Nodup
  methods : (ps.map (·.2.shortName)).Nodup
  kinds : ∀ o ∈ allOperations m ps, ∀ a ∈ o.args, a.kind = .constants ↔ a.name ∈ constantNames m ps

/-- Every name that a method reads bare is a parameter or a constant. -/
def Scoped (m : MetaProcess N) (ps : List (String × Process N)) : Prop :=
  ∀ q ∈ ps, ∀ o ∈ q.2.operations, ∀ x ∈ o.bare isOutput,
    x ∈ q.2.methodArgs ∨ x ∈ constantNames m ps

variable {m : MetaProcess N} {ps before after : List (String × Process N)}
variable {id x : String} {p : Process N}

theorem mem_allOperations_of_process {q : String × Process N} (member : q ∈ ps) {o : Operation N}
    (operation : o ∈ q.2.operations) : o ∈ allOperations m ps := by
  simp only [allOperations, List.mem_append]
  exact .inl (.inr (List.mem_flatMap.mpr ⟨q, member, operation⟩))

theorem mem_computedNames_of_demandsFor (demanded : x ∈ (m.demandsFor id).map (·.name)) :
    x ∈ computedNames m ps := by
  obtain ⟨d, member, rfl⟩ := List.mem_map.mp demanded
  simp only [computedNames, List.mem_cons, List.mem_append]
  exact .inr (.inl (.inl (List.mem_map_of_mem (List.mem_filter.mp member).1)))

theorem mem_computedNames_of_output {q : String × Process N} (member : q ∈ ps)
    (output : x ∈ q.2.operations.map (·.name)) : x ∈ computedNames m ps := by
  simp only [computedNames, List.mem_cons, List.mem_append]
  exact .inr (.inl (.inr (List.mem_flatMap.mpr ⟨q, member, output⟩)))

theorem mem_computedNames_of_closing {o : Operation N} (member : o ∈ m.closing) :
    o.name ∈ computedNames m ps := by
  simp only [computedNames, List.mem_cons, List.mem_append]
  exact .inr (.inr (List.mem_map_of_mem member))

theorem mem_standaloneNames {q : String × Process N} (member : q ∈ ps) {e : String × N}
    (entry : e ∈ q.2.standing ((m.demandsFor q.1).map (·.name))) : e.1 ∈ standaloneNames m ps :=
  List.mem_flatMap.mpr ⟨q, member, List.mem_map_of_mem entry⟩

theorem SingleDefinition.constant_fresh (single : SingleDefinition m ps)
    (constant : x ∈ constantNames m ps) : x ∉ computedNames m ps ∧ x ∉ standaloneNames m ps := by
  have apart := (List.nodup_append.mp single.names).2.2
  constructor
  · exact fun member => apart x constant x (List.mem_append_left _ member) rfl
  · exact fun member => apart x constant x (List.mem_append_right _ member) rfl

theorem SingleDefinition.standalone_fresh (single : SingleDefinition m ps)
    (standalone : x ∈ standaloneNames m ps) : x ∉ computedNames m ps := fun member =>
  (List.nodup_append.mp (List.nodup_append.mp single.names).2.1).2.2 x member x standalone rfl

theorem SingleDefinition.standalone_once (single : SingleDefinition m (before ++ (id, p) :: after))
    {e : String × N} (entry : e ∈ p.standing ((m.demandsFor id).map (·.name)))
    {q : String × Process N} (member : q ∈ before) {r : String × N}
    (other : r ∈ q.2.standing ((m.demandsFor q.1).map (·.name))) : r.1 ≠ e.1 := by
  have distinct := (List.nodup_append.mp (List.nodup_append.mp single.names).2.1).2.1
  rw [standaloneNames, List.flatMap_append, List.flatMap_cons] at distinct
  have earlier : r.1 ∈ before.flatMap fun q =>
      (q.2.standing ((m.demandsFor q.1).map (·.name))).map (·.1) :=
    List.mem_flatMap.mpr ⟨q, member, List.mem_map_of_mem other⟩
  exact (List.nodup_append.mp distinct).2.2 r.1 earlier e.1
    (List.mem_append_left _ (List.mem_map_of_mem entry))

theorem SingleDefinition.output_once (single : SingleDefinition m (before ++ (id, p) :: after))
    (output : x ∈ p.operations.map (·.name)) :
    (∀ q ∈ before, x ∉ q.2.operations.map (·.name)) ∧ ∀ id', x ∉ (m.demandsFor id').map (·.name) := by
  have computed := (List.nodup_append.mp (List.nodup_append.mp single.names).2.1).1
  have inner := (List.nodup_append.mp (List.nodup_cons.mp computed).2).1
  constructor
  · intro q member twice
    have distinct := (List.nodup_append.mp inner).2.1
    rw [List.flatMap_append, List.flatMap_cons] at distinct
    exact (List.nodup_append.mp distinct).2.2 x (List.mem_flatMap.mpr ⟨q, member, twice⟩) x
      (List.mem_append_left _ output) rfl
  · intro id' demanded
    obtain ⟨d, member, named⟩ := List.mem_map.mp demanded
    have declared : x ∈ m.demands.map (·.name) :=
      List.mem_map.mpr ⟨d, (List.mem_filter.mp member).1, named⟩
    have here : x ∈ ((before ++ (id, p) :: after).flatMap fun q => q.2.operations.map (·.name)) :=
      List.mem_flatMap.mpr ⟨(id, p), by simp, output⟩
    exact (List.nodup_append.mp inner).2.2 x declared x here rfl

theorem SingleDefinition.output_not_argument (single : SingleDefinition m (before ++ (id, p) :: after))
    (supplied : Supplied m before id p) (output : x ∈ p.operations.map (·.name)) : x ∉ p.methodArgs := by
  intro argument
  have here : (id, p) ∈ before ++ (id, p) :: after := by simp
  obtain ⟨others, undemanded⟩ := single.output_once output
  rcases supplied x argument with ⟨q, inside, twice⟩ | demanded | own
  · exact others q inside twice
  · exact undemanded id demanded
  · -- its own value would make it a standalone input, which is defined elsewhere
    obtain ⟨v, value⟩ := Option.isSome_iff_exists.mp own
    have entry := p.mem_standing argument (undemanded id) value
    exact single.standalone_fresh (mem_standaloneNames here entry)
      (mem_computedNames_of_output here output)

theorem SingleDefinition.constants_apart (single : SingleDefinition m ps) {computed : List String}
    {settled : Values N} (names : ∀ x ∈ computed, x ∈ computedNames m ps)
    (stood : ∀ r ∈ settled, r.1 ∈ standaloneNames m ps) :
    ∀ x ∈ constantNames m ps, x ∉ computed ++ settled.map (·.1) := by
  intro x constant member
  rcases List.mem_append.mp member with inside | entry
  · exact (single.constant_fresh constant).1 (names x inside)
  · obtain ⟨r, inside, rfl⟩ := List.mem_map.mp entry
    exact (single.constant_fresh constant).2 (stood r inside)

theorem readsFirst_of_unwritten {isPrivate : Arg → Bool} {watched written : List String}
    {os : List (Operation N)} (apart : ∀ x ∈ watched, x ∉ written)
    (unwritten : ∀ o ∈ os, o.name ∉ watched) : ReadsFirst isPrivate watched written os := by
  induction os generalizing written with
  | nil => trivial
  | cons o os ih =>
    refine ⟨fun x _ => apart x, ih ?_ (fun o' member => unwritten o' (List.mem_cons_of_mem _ member))⟩
    intro x member
    simp only [List.mem_cons, not_or]
    exact ⟨fun same => unwritten o (by simp) (same ▸ member), apart x member⟩

theorem SingleDefinition.coherentBlock (single : SingleDefinition m ps)
    (split : ps = before ++ (id, p) :: after) (supplied : Supplied m before id p)
    {computed : List String} {settled : Values N} (names : ∀ x ∈ computed, x ∈ computedNames m ps)
    (declared : ∀ r ∈ settled, ∃ q ∈ before, r ∈ q.2.standing ((m.demandsFor q.1).map (·.name))) :
    CoherentBlock m (constantNames m ps) computed settled id p := by
  have here : (id, p) ∈ ps := by simp [split]
  have earlier : ∀ r ∈ settled, r.1 ∈ standaloneNames m ps := by
    intro r old
    obtain ⟨q, inside, entry⟩ := declared r old
    exact mem_standaloneNames (by simp [split, inside]) entry
  -- the method starts when demands are computed and declared values are written
  have started : ∀ x ∈ (m.demandsFor id).map (·.name) ++ computed, x ∈ computedNames m ps :=
    fun x member => (List.mem_append.mp member).elim mem_computedNames_of_demandsFor (names x)
  have stood : ∀ r ∈ p.standing ((m.demandsFor id).map (·.name)) ++ settled,
      r.1 ∈ standaloneNames m ps :=
    fun r member => (List.mem_append.mp member).elim (mem_standaloneNames here) (earlier r)
  constructor
  · apply readsFirst_of_unwritten (single.constants_apart names earlier)
    intro o member constant
    obtain ⟨d, inside, rfl⟩ := List.mem_map.mp member
    exact (single.constant_fresh constant).1
      (mem_computedNames_of_demandsFor (List.mem_map_of_mem inside))
  · intro q entry
    have own := mem_standaloneNames here entry
    refine ⟨fun constant => (single.constant_fresh constant).2 own,
      fun member => single.standalone_fresh own (started _ member), fun r old same => ?_⟩
    obtain ⟨q', inside, other⟩ := declared r old
    exact absurd same ((split ▸ single).standalone_once entry inside other)
  · apply readsFirst_of_unwritten
    · exact fun x member => single.constants_apart started stood x (List.mem_filter.mp member).1
    · intro o member constant
      exact (single.constant_fresh (List.mem_filter.mp constant).1).1
        (mem_computedNames_of_output here (List.mem_map_of_mem member))
  · apply readsFirst_of_unwritten (by simp)
    exact fun o member => (split ▸ single).output_not_argument supplied (List.mem_map_of_mem member)

theorem SingleDefinition.coherentFrom (single : SingleDefinition m ps)
    (supplied : ∀ {before after : List (String × Process N)} {id : String} {p : Process N},
      ps = before ++ (id, p) :: after → Supplied m before id p)
    {before rest : List (String × Process N)} (split : ps = before ++ rest)
    {computed : List String} {settled : Values N} (names : ∀ x ∈ computed, x ∈ computedNames m ps)
    (declared : ∀ r ∈ settled, ∃ q ∈ before, r ∈ q.2.standing ((m.demandsFor q.1).map (·.name))) :
    CoherentFrom m (constantNames m ps) computed settled rest := by
  induction rest generalizing before computed settled with
  | nil =>
    apply readsFirst_of_unwritten
    · apply single.constants_apart names
      intro r old
      obtain ⟨q, inside, entry⟩ := declared r old
      exact mem_standaloneNames (by simpa [split] using inside) entry
    · intro o member constant
      exact (single.constant_fresh constant).1 (mem_computedNames_of_closing member)
  | cons q rest ih =>
    obtain ⟨id, p⟩ := q
    have here : (id, p) ∈ ps := by simp [split]
    have next : ps = (before ++ [(id, p)]) ++ rest := by simp [split]
    refine ⟨single.coherentBlock split (supplied split) names declared, ih next ?_ ?_⟩
    · intro x member
      simp only [List.mem_append] at member
      rcases member with output | demanded | old
      · exact mem_computedNames_of_output here output
      · exact mem_computedNames_of_demandsFor demanded
      · exact names x old
    · intro r member
      rcases List.mem_append.mp member with own | old
      · exact ⟨(id, p), by simp, own⟩
      · obtain ⟨q, inside, entry⟩ := declared r old
        exact ⟨q, List.mem_append_left _ inside, entry⟩

theorem SingleDefinition.coherent (single : SingleDefinition m ps)
    (supplied : ∀ {before after : List (String × Process N)} {id : String} {p : Process N},
      ps = before ++ (id, p) :: after → Supplied m before id p) : Coherent m ps :=
  single.coherentFrom supplied (List.nil_append ps).symm (by simp [computedNames]) (by simp)

end Names

section Progress

variable {constants settled values values' attributes params : Values ℚ}
variable {computed written watched passed : List String} {isPrivate : Arg → Bool}

def Visible (constants : Values ℚ) (passed watched : List String) (isPrivate : Arg → Bool)
    (o : Operation ℚ) : Prop :=
  ∀ x ∈ o.formula.identifiers,
    if o.hasArg isPrivate x then constants.get? x = none else x ∈ passed ∨ x ∈ watched

theorem Tracks.reads_of_visible {o : Operation ℚ}
    (tracks : Tracks constants computed settled values attributes)
    (visible : Visible constants passed watched isPrivate o)
    (constant : ∀ x ∈ o.bare isPrivate, x ∈ watched → x ∉ computed ++ settled.map (·.1))
    (param : ∀ x ∈ o.bare isPrivate, x ∈ passed → x ∉ written)
    (passing : ∀ x, x ∈ passed ↔ (params.get? x).isSome) (intact : Intact params written attributes) :
    ∀ x ∈ o.formula.identifiers, ∀ v, values.get? x = some v →
      o.reads isPrivate constants params attributes x = some v := by
  intro x member v found
  have seen := visible x member
  rw [tracks.overlay] at found
  unfold Operation.reads
  split at seen
  next known =>
    rw [if_pos known]
    rwa [seen, Option.or_none] at found
  next plain =>
    rw [if_neg plain]
    have bare : x ∈ o.bare isPrivate := List.mem_filter.mpr ⟨member, by simpa using plain⟩
    cases given : params.get? x with
    | some w =>
      have unwritten := param x bare ((passing x).mpr (by simp [given]))
      rw [(intact x w given).resolve_left unwritten, Option.some_or] at found
      rwa [Option.some_or]
    | none =>
      have inside : x ∈ watched := seen.resolve_left (by simp [passing, given])
      have unset := tracks.unset (constant x bare inside)
      rwa [unset, Option.none_or] at found

theorem Tracks.assignable (owner : String) {os : List (Operation ℚ)} (formed : ∀ o ∈ os, o.WellFormed)
    (tracks : Tracks constants computed settled values attributes)
    (visible : ∀ o ∈ os, Visible constants passed watched isPrivate o)
    (constantsFirst : ReadsFirst isPrivate watched (computed ++ settled.map (·.1)) os)
    (paramsFirst : ReadsFirst isPrivate passed written os)
    (passing : ∀ x, x ∈ passed ↔ (params.get? x).isSome) (intact : Intact params written attributes)
    (evaluated : os.foldlM (Industry.apply owner) values = .ok values') :
    ∃ attributes', assignAll isPrivate constants params attributes os = .ok attributes' := by
  induction os generalizing values attributes computed written with
  | nil => exact ⟨attributes, rfl⟩
  | cons o os ih =>
    obtain ⟨between, first, rest⟩ := foldlM_cons_eq_ok.mp evaluated
    obtain ⟨v, value, rfl⟩ := apply_eq_ok.mp first
    have reads := tracks.reads_of_visible (visible o (by simp)) constantsFirst.1 paramsFirst.1 passing intact
    obtain ⟨attributes', others⟩ := ih (fun o' member => formed o' (List.mem_cons_of_mem _ member))
      (tracks.set o.name v) (fun o' member => visible o' (List.mem_cons_of_mem _ member))
      constantsFirst.2 paramsFirst.2 (intact.set o.name v) rest
    exact ⟨attributes', (assignAll_cons_eq_ok (formed o (by simp))).mpr
      ⟨v, Formula.eval_mono reads value, others⟩⟩

theorem Tracks.runnable {m : MetaProcess ℚ} {id : String} {p : Process ℚ} {names : List String}
    (formed : m.WellFormed) (compiled : p.WellFormed)
    (named : ∀ x, (constants.get? x).isSome → x ∈ names)
    (tracks : Tracks constants computed settled values attributes)
    (coherent : CoherentBlock m names computed settled id p)
    (supplied : ∀ x ∈ p.methodArgs,
      x ∈ (m.demandsFor id).map (·.name) ++ computed ∨ (p.ownValue? x).isSome)
    (demands : ∀ o ∈ (m.demandsFor id).map (·.toOperation),
      Visible constants [] names MetaProcess.isPrivate o)
    (operations : ∀ o ∈ p.operations, Visible constants p.methodArgs
      (names.filter fun x => !p.methodArgs.contains x) isOutput o)
    (evaluated : runProcess m values id p = .ok values') :
    ∃ attributes', runBlock m constants attributes (id, p) = .ok attributes' := by
  rw [runProcess, bind_eq_ok] at evaluated
  obtain ⟨between, demanded, finished⟩ := evaluated
  obtain ⟨started, ran⟩ := tracks.assignable m.name (formed.demandsFor id) demands coherent.demands
    (readsFirst_nil _ [] _) (by simp [Values.get?]) (intact_nil [] attributes) demanded
  -- now that the demands ran in the class, the evaluator is known to have followed them
  obtain ⟨between', demanded', tracks₁⟩ := tracks.demands formed named coherent ran
  obtain rfl : between' = between := Except.ok.inj (demanded'.symm.trans demanded)
  have tracks₂ := tracks₁.standing named coherent
  -- every argument of the call is an attribute by now
  have given : ∀ x ∈ p.methodArgs,
      ((started.setAll (p.standing ((m.demandsFor id).map (·.name)))).get? x).isSome := by
    intro x argument
    by_cases known : x ∈ (m.demandsFor id).map (·.name) ++ computed
    · exact tracks₂.done x known
    · obtain ⟨v, own⟩ := Option.isSome_iff_exists.mp ((supplied x argument).resolve_left known)
      have entry := p.mem_standing argument (fun member => known (List.mem_append_left _ member)) own
      simp [(tracks₂.kept x v (List.mem_append_left _ entry)).resolve_left known]
  obtain ⟨args, passed⟩ := exists_arguments given
  obtain ⟨-, passing, same⟩ := arguments_eq_ok passed
  obtain ⟨attributes', called⟩ := tracks₂.assignable p.name compiled.operations operations
    coherent.constants coherent.params passing (fun x v found => .inr (same x v found)) finished
  exact ⟨attributes', runBlock_eq_ok.mpr ⟨started, args, ran, passed, called⟩⟩

end Progress

section Kinds

variable {m : MetaProcess ℚ} {ps : List (String × Process ℚ)} {o : Operation ℚ}

theorem unnamed_of_notMem {x : String} (absent : x ∉ constantNames m ps) :
    (constants m ps).get? x = none := by
  rw [← Option.not_isSome_iff_eq_none]
  exact fun found => absent (mem_constantNames found)

theorem SingleDefinition.visible_meta (single : SingleDefinition m ps) (formed : o.WellFormed)
    (member : o ∈ allOperations m ps) :
    Visible (constants m ps) [] (constantNames m ps) MetaProcess.isPrivate o := by
  intro x used
  obtain ⟨a, declared, named⟩ := formed.declared x used
  split
  next known =>
    simp only [Operation.hasArg, List.any_eq_true, Bool.and_eq_true, beq_iff_eq] at known
    obtain ⟨b, inside, kind, same⟩ := known
    apply unnamed_of_notMem
    rw [← same, ← single.kinds o member b inside]
    simpa [MetaProcess.isPrivate] using kind
  next plain =>
    -- a name that the meta-process reads bare has no argument of another kind
    have kind : a.kind = .constants := by
      simp only [Operation.hasArg, List.any_eq_true, Bool.and_eq_true, beq_iff_eq] at plain
      by_contra other
      exact plain ⟨a, declared, by simpa [MetaProcess.isPrivate] using other, named⟩
    exact .inr (named ▸ (single.kinds o member a declared).mp kind)

theorem SingleDefinition.visible_process (single : SingleDefinition m ps) (scope : Scoped m ps)
    {q : String × Process ℚ} (inside : q ∈ ps) (operation : o ∈ q.2.operations) :
    Visible (constants m ps) q.2.methodArgs
      ((constantNames m ps).filter fun x => !q.2.methodArgs.contains x) isOutput o := by
  intro x used
  have member := mem_allOperations_of_process (m := m) inside operation
  split
  next known =>
    simp only [Operation.hasArg, List.any_eq_true, Bool.and_eq_true, beq_iff_eq] at known
    obtain ⟨b, declared, kind, same⟩ := known
    apply unnamed_of_notMem
    rw [← same, ← single.kinds o member b declared]
    have output : b.kind = .outputs := by simpa [isOutput] using kind
    simp [output]
  next plain =>
    by_cases argument : x ∈ q.2.methodArgs
    · exact .inl argument
    · have bare : x ∈ o.bare isOutput := List.mem_filter.mpr ⟨used, by simpa using plain⟩
      have constant := (scope q inside o operation x bare).resolve_left argument
      exact .inr (List.mem_filter.mpr ⟨constant, by simpa using argument⟩)

/-- The arguments of a process formula are inputs, outputs and constants. -/
def PlainKinds (ps : List (String × Process ℚ)) : Prop :=
  ∀ q ∈ ps, ∀ o ∈ q.2.operations, ∀ a ∈ o.args,
    a.kind = .inputs ∨ a.kind = .outputs ∨ a.kind = .constants

theorem SingleDefinition.scoped_of_plainKinds (single : SingleDefinition m ps)
    (compiled : ∀ q ∈ ps, q.2.WellFormed) (plain : PlainKinds ps) : Scoped m ps := by
  intro q inside o operation x bare
  obtain ⟨used, unmarked⟩ := List.mem_filter.mp bare
  obtain ⟨a, declared, rfl⟩ := ((compiled q inside).operations o operation).declared x used
  rcases plain q inside o operation a declared with input | output | constant
  · left
    rw [Process.methodArgs, List.mem_eraseDups]
    refine List.mem_map.mpr ⟨a, List.mem_filter.mpr ⟨List.mem_flatMap.mpr ⟨o, operation, declared⟩, ?_⟩, rfl⟩
    simpa using input
  · have marked : o.hasArg isOutput a.name = true := by
      simp only [Operation.hasArg, List.any_eq_true, Bool.and_eq_true, beq_iff_eq]
      exact ⟨a, declared, by simpa [isOutput] using output, rfl⟩
    simp [marked] at unmarked
  · right
    exact (single.kinds o (mem_allOperations_of_process inside operation) a declared).mp constant

end Kinds

section Runs

variable {m : MetaProcess ℚ} {ps : List (String × Process ℚ)}
variable {constants values values' attributes attributes' : Values ℚ}

theorem Tracks.runnableFrom {names computed : List String} {settled : Values ℚ}
    (formed : m.WellFormed) (compiled : ∀ q ∈ ps, q.2.WellFormed)
    (named : ∀ x, (constants.get? x).isSome → x ∈ names)
    (tracks : Tracks constants computed settled values attributes)
    (coherent : CoherentFrom m names computed settled ps)
    (supplied : ∀ {before after : List (String × Process ℚ)} {id : String} {p : Process ℚ},
      ps = before ++ (id, p) :: after → ∀ x ∈ p.methodArgs,
        x ∈ (m.demandsFor id).map (·.name) ++ computedBy m computed before ∨ (p.ownValue? x).isSome)
    (demands : ∀ o ∈ m.demands.map (·.toOperation), Visible constants [] names MetaProcess.isPrivate o)
    (operations : ∀ q ∈ ps, ∀ o ∈ q.2.operations, Visible constants q.2.methodArgs
      (names.filter fun x => !q.2.methodArgs.contains x) isOutput o)
    (evaluated : ps.foldlM (fun vs (id, p) => runProcess m vs id p) values = .ok values') :
    ∃ attributes', ps.foldlM (runBlock m constants) attributes = .ok attributes' := by
  induction ps generalizing values attributes computed settled with
  | nil => exact ⟨attributes, rfl⟩
  | cons q ps ih =>
    obtain ⟨id, p⟩ := q
    obtain ⟨between, first, rest⟩ := foldlM_cons_eq_ok.mp evaluated
    -- Of the demands only those of this process come before its block.
    have required : ∀ o ∈ (m.demandsFor id).map (·.toOperation),
        Visible constants [] names MetaProcess.isPrivate o := by
      intro o member
      obtain ⟨d, inside, rfl⟩ := List.mem_map.mp member
      exact demands _ (List.mem_map_of_mem (List.mem_filter.mp inside).1)
    have start := supplied (List.nil_append ((id, p) :: ps)).symm
    obtain ⟨attributes₁, ran⟩ := tracks.runnable formed (compiled (id, p) (by simp)) named coherent.1
      start required (operations (id, p) (by simp)) first
    obtain ⟨between', first', tracks₁⟩ :=
      tracks.block formed (compiled (id, p) (by simp)) named coherent.1 ran
    obtain rfl : between' = between := Except.ok.inj (first'.symm.trans first)
    have later {before after : List (String × Process ℚ)} {id' : String} {p' : Process ℚ}
        (split : ps = before ++ (id', p') :: after) :
        (id, p) :: ps = ((id, p) :: before) ++ (id', p') :: after := by
      rw [split, List.cons_append]
    obtain ⟨attributes', others⟩ := ih (fun q member => compiled q (List.mem_cons_of_mem _ member))
      tracks₁ coherent.2 (fun split => supplied (later split))
      (fun q member => operations q (List.mem_cons_of_mem _ member)) rest
    exact ⟨attributes', foldlM_cons_eq_ok.mpr ⟨attributes₁, ran, others⟩⟩

theorem bare_of_assignAll {isPrivate : Arg → Bool} {params : Values ℚ} {os : List (Operation ℚ)}
    (formed : ∀ o ∈ os, o.WellFormed)
    (ran : assignAll isPrivate constants params attributes os = .ok attributes') :
    ∀ o ∈ os, ∀ x ∈ o.bare isPrivate, (params.get? x).isSome ∨ (constants.get? x).isSome := by
  intro o member x bare
  obtain ⟨used, plain⟩ := List.mem_filter.mp bare
  obtain ⟨start, stop, step⟩ := step_of_foldlM_eq_ok ran _ (List.mem_map_of_mem member)
  obtain ⟨v, evaluated, -⟩ := (o.run_assignment_eq_ok (formed o member)).mp step
  have read := Formula.isSome_of_eval_ok evaluated x (Formula.mem_identifiers.mp used)
  simpa [Operation.reads, show o.hasArg isPrivate x = false by simpa using plain] using read

theorem scoped_of_construct {outcome : ℚ} (compiled : ∀ q ∈ ps, q.2.WellFormed)
    (ran : constructOwn m ps outcome = .ok attributes) : Scoped m ps := by
  rw [constructOwn, bind_eq_ok] at ran
  obtain ⟨between, blocks, -⟩ := ran
  intro q inside o operation x bare
  obtain ⟨start, stop, block⟩ := step_of_foldlM_eq_ok blocks q inside
  obtain ⟨started, args, -, passed, called⟩ := runBlock_eq_ok.mp block
  rcases bare_of_assignAll (compiled q inside).operations called o operation x bare with param | constant
  · exact .inl (((arguments_eq_ok passed).2.1 x).mpr param)
  · exact .inr (mem_constantNames constant)

end Runs

/-- The values of the evaluator are the attributes, and the constants of the module for the names
that are no attributes. Every value with a getter is there. -/
structure Agree (m : MetaProcess ℚ) (ps : List (String × Process ℚ)) (values attributes : Values ℚ) :
    Prop where
  constant : ∀ x ∈ constantNames m ps,
    attributes.get? x = none ∧ values.get? x = (constants m ps).get? x
  other : ∀ x, x ∉ constantNames m ps → values.get? x = attributes.get? x
  exposed : ∀ l ∈ exposed m ps, (attributes.get? l.name).isSome

section Compiled

variable {i : Industry ℚ} {m : MetaProcess ℚ} {ps : List (String × Process ℚ)} {queue : List String}

theorem SingleDefinition.agree {values attributes : Values ℚ} (single : SingleDefinition m ps)
    (used : ∀ d ∈ m.demands, ∃ q ∈ ps, q.1 = d.used)
    (tracks : Tracks (constants m ps) (m.closing.map (·.name) ++ computedBy m [m.outcome.name] ps)
      (settledBy m [] ps) values attributes) : Agree m ps values attributes := by
  have computed : ∀ x ∈ m.closing.map (·.name) ++ computedBy m [m.outcome.name] ps,
      x ∈ computedNames m ps := by
    intro x member
    rw [List.mem_append, mem_computedBy] at member
    rcases member with closing | outcome | ⟨q, inside, output | demanded⟩
    · obtain ⟨o, operation, rfl⟩ := List.mem_map.mp closing
      exact mem_computedNames_of_closing operation
    · simp only [List.mem_singleton] at outcome
      simp [computedNames, outcome]
    · exact mem_computedNames_of_output inside output
    · exact mem_computedNames_of_demandsFor demanded
  have settled : ∀ r ∈ settledBy m [] ps, r.1 ∈ standaloneNames m ps := by
    intro r member
    obtain ⟨q, inside, entry⟩ := (mem_settledBy.mp member).resolve_left (by simp)
    exact mem_standaloneNames inside entry
  constructor
  · intro x constant
    have unset : attributes.get? x = none :=
      tracks.unset (single.constants_apart computed settled x constant)
    exact ⟨unset, by rw [tracks.overlay, unset, Option.none_or]⟩
  · intro x other
    rw [tracks.overlay, unnamed_of_notMem other, Option.or_none]
  · exact fun l member => tracks.done l.name (exposed_computed used l member)

theorem SingleDefinition.constructOwn_of_evaluate {outcome : ℚ} {between values : Values ℚ}
    (single : SingleDefinition m ps) (formed : m.WellFormed) (compiled : ∀ q ∈ ps, q.2.WellFormed)
    (supplied : ∀ {before after : List (String × Process ℚ)} {id : String} {p : Process ℚ},
      ps = before ++ (id, p) :: after → Supplied m before id p) (scope : Scoped m ps)
    (evaluated : ps.foldlM (fun vs (id, p) => runProcess m vs id p) (initialValues m ps outcome) =
      .ok between)
    (closed : m.closing.foldlM (apply m.name) between = .ok values) :
    ∃ attributes, constructOwn m ps outcome = .ok attributes := by
  have coherent : Coherent m ps := single.coherent supplied
  have start := Tracks.initial (constants m ps) m.outcome.name outcome
  have demands : ∀ o ∈ m.demands.map (·.toOperation),
      Visible (constants m ps) [] (constantNames m ps) MetaProcess.isPrivate o := by
    intro o member
    obtain ⟨d, inside, rfl⟩ := List.mem_map.mp member
    exact single.visible_meta (formed.demands d inside) (by simp [allOperations, List.mem_map_of_mem inside])
  have closing : ∀ o ∈ m.closing,
      Visible (constants m ps) [] (constantNames m ps) MetaProcess.isPrivate o := fun o member =>
    single.visible_meta (formed.closing o member) (by simp [allOperations, member])
  have arguments {before after : List (String × Process ℚ)} {id : String} {p : Process ℚ}
      (split : ps = before ++ (id, p) :: after) : ∀ x ∈ p.methodArgs,
        x ∈ (m.demandsFor id).map (·.name) ++ computedBy m [m.outcome.name] before ∨
          (p.ownValue? x).isSome := by
    intro x argument
    rw [List.mem_append, mem_computedBy]
    rcases supplied split x argument with ⟨q, inside, output⟩ | demanded | own
    · exact .inl (.inr (.inr ⟨q, inside, .inl output⟩))
    · exact .inl (.inl demanded)
    · exact .inr own
  obtain ⟨attributes₁, ran⟩ := start.runnableFrom formed compiled (fun _ => mem_constantNames) coherent
    arguments demands (fun q inside o operation => single.visible_process scope inside operation) evaluated
  obtain ⟨between', evaluated', tracks⟩ :=
    start.blocks formed compiled (fun _ => mem_constantNames) coherent ran
  -- The evaluation that follows the blocks is the one that was given.
  obtain rfl : between' = between := Except.ok.inj (evaluated'.symm.trans evaluated)
  obtain ⟨attributes, last⟩ := tracks.assignable m.name formed.closing closing coherent.closing
    (readsFirst_nil _ [] _) (by simp [Values.get?]) (intact_nil [] attributes₁) closed
  exact ⟨attributes, bind_eq_ok.mpr ⟨attributes₁, ran, last⟩⟩

/-- The constructor of an industry with one definition for each name runs to its end exactly when
the outcome is evaluated and names are in scope, and it leaves the same values. Where the names it
writes are identifiers, reading the rendered class line by line and running what is read does the same. -/
theorem construct_agrees (built : Built i) (set : i.metaProcess = some m) (checked : i.check = .ok ())
    (ordered : i.executionQueue = .ok queue) (single : SingleDefinition m (i.queued queue)) (outcome : ℚ) :
    (∀ attributes, construct m (i.queued queue) outcome = .ok attributes →
      Scoped m (i.queued queue) ∧ (i.Admits outcome → ∃ values, i.evaluate outcome = .ok values ∧
        Agree m (i.queued queue) values attributes)) ∧
      (∀ values, i.evaluate outcome = .ok values → Scoped m (i.queued queue) →
        ∃ attributes, construct m (i.queued queue) outcome = .ok attributes ∧
          Agree m (i.queued queue) values attributes) ∧
        (PlainKinds (i.queued queue) → Scoped m (i.queued queue)) ∧
          (Script.Spelled m (i.queued queue) →
            Script.runText (constants m (i.queued queue)) ((i.queued queue).map (·.2.methodValues))
                (Statement.body (constructor m (i.queued queue))) [(m.outcome.name, outcome)] =
              some (construct m (i.queued queue) outcome)) ∧
            ∀ ts answers text, i.script ts answers = .ok text →
              ∃ values, Rendered ts answers m (i.queued queue) values ∧
                ts.industry.fill answers ["industry"] values = .ok text := by
  have text := fun spelled : Script.Spelled m (i.queued queue) => Script.runText_eq built set spelled outcome
  have whole := built.wellFormed
  have formed := whole.metaProcess m set
  have compiled : ∀ q ∈ i.queued queue, q.2.WellFormed := fun q member =>
    whole.processes q (mem_processes_of_process? (mem_queued.mp member).2)
  have supplied {before after : List (String × Process ℚ)} {id : String} {p : Process ℚ}
      (split : i.queued queue = before ++ (id, p) :: after) : Supplied m before id p :=
    supplied_of_check whole set checked ordered split
  have used := used_of_check set checked ordered
  have coherent : Coherent m (i.queued queue) := single.coherent supplied
  rw [construct_eq single.methods] at text ⊢
  refine ⟨fun attributes ran => ⟨scoped_of_construct compiled ran, fun admitted => ?_⟩,
    fun values evaluated scope => ?_, single.scoped_of_plainKinds compiled, text,
    fun ts answers text => script_eq_ok set ordered⟩
  · obtain ⟨between, values, first, last, tracks⟩ := Tracks.construct formed compiled coherent ran
    exact ⟨values, (evaluate_eq_ok set ordered).mpr ⟨admitted, between, first, last⟩,
      single.agree used tracks⟩
  · obtain ⟨-, between, first, last⟩ := (evaluate_eq_ok set ordered).mp evaluated
    obtain ⟨attributes, ran⟩ :=
      single.constructOwn_of_evaluate formed compiled supplied scope first last
    obtain ⟨between', values', first', last', tracks⟩ := Tracks.construct formed compiled coherent ran
    obtain rfl : between' = between := Except.ok.inj (first'.symm.trans first)
    obtain rfl : values' = values := Except.ok.inj (last'.symm.trans last)
    exact ⟨attributes, ran, single.agree used tracks⟩

end Compiled

def mill : Process ℚ where
  name := "mill"
  shortName := "mill"
  constants := [{ name := "loss", value := 4 }]
  inputs := [{ name := "ore", value := [3] }]
  outputs := [{ name := "meal", operation := "ore*rate + loss",
                args := [⟨"ore", .inputs, ""⟩, ⟨"rate", .constants, ""⟩, ⟨"loss", .constants, ""⟩] }]
  operations := [⟨{ name := "meal" },
    .binary .add (.binary .mul (.name "ore") (.name "rate")) (.name "loss"),
    [⟨"ore", .inputs, ""⟩, ⟨"rate", .constants, ""⟩, ⟨"loss", .constants, ""⟩], []⟩]

def kiln : Process ℚ where
  name := "kiln"
  shortName := "kiln"
  inputs := [{ name := "meal", origin := "mill" }, { name := "fuel" }]
  outputs := [
    { name := "heat", operation := "fuel + meal", args := [⟨"fuel", .inputs, ""⟩, ⟨"meal", .inputs, ""⟩] },
    { name := "share", operation := "heat/meal", args := [⟨"heat", .outputs, ""⟩, ⟨"meal", .inputs, ""⟩] }]
  operations := [
    ⟨{ name := "heat" }, .binary .add (.name "fuel") (.name "meal"),
      [⟨"fuel", .inputs, ""⟩, ⟨"meal", .inputs, ""⟩], []⟩,
    ⟨{ name := "share" }, .binary .div (.name "heat") (.name "meal"),
      [⟨"heat", .outputs, ""⟩, ⟨"meal", .inputs, ""⟩], []⟩]

theorem compile_mill : mill.toProcessRecord.compile = .ok mill := by cbv

theorem compile_kiln : kiln.toProcessRecord.compile = .ok kiln := by with_unfolding_all rfl

def worksRecord : IndustryRecord ℚ where
  name := "works"
  constants := [{ name := "rate", value := 2 }]
  outcome := { name := "goal" }
  demands := [{ name := "fuel", operation := "goal*rate", used := "kiln",
                args := [⟨"goal", .outcome, ""⟩, ⟨"rate", .constants, ""⟩] }]
  outputs := [{ name := "total", operation := "heat - share",
                args := [⟨"heat", .outputs, "kiln"⟩, ⟨"share", .outputs, "kiln"⟩] }]

def works : MetaProcess ℚ where
  toProcessRecord := worksRecord.toProcessRecord
  outcome := { name := "goal" }
  demands := [⟨⟨{ name := "fuel" }, .binary .mul (.name "goal") (.name "rate"),
    [⟨"goal", .outcome, ""⟩, ⟨"rate", .constants, ""⟩], []⟩, "kiln", ""⟩]
  closing := [⟨{ name := "total" }, .binary .sub (.name "heat") (.name "share"),
    [⟨"heat", .outputs, "kiln"⟩, ⟨"share", .outputs, "kiln"⟩], []⟩]

theorem compile_works : worksRecord.compile = .ok works := by with_unfolding_all rfl

def millAndKiln : Industry ℚ := ⟨some works, [("kiln", kiln), ("mill", mill)], (0, 100)⟩

theorem built_millAndKiln : Built millAndKiln := by
  have compiled : ∀ q ∈ millAndKiln.processes, q.2.toProcessRecord.compile = .ok q.2 := by
    simp [millAndKiln, compile_mill, compile_kiln]
  exact built_of_compile (by decide) compiled compile_works rfl

theorem queued_millAndKiln :
    millAndKiln.queued ["mill", "kiln"] = [("mill", mill), ("kiln", kiln)] := by
  cbv

theorem construct_agrees_works :
    let i : Industry ℚ := ⟨some works, [("kiln", kiln), ("mill", mill)], (0, 100)⟩
    SingleDefinition works (i.queued ["mill", "kiln"]) ∧
      ∃ values attributes, i.evaluate 10 = .ok values ∧
        construct works (i.queued ["mill", "kiln"]) 10 = .ok attributes ∧
          Agree works (i.queued ["mill", "kiln"]) values attributes ∧ values.get? "total" = some 27 ∧
            Script.runText (constants works (i.queued ["mill", "kiln"]))
              ((i.queued ["mill", "kiln"]).map (·.2.methodValues))
              (Statement.body (constructor works (i.queued ["mill", "kiln"]))) [("goal", 10)] =
                some (.ok attributes) := by
  intro i
  have compiled : ∀ q ∈ i.processes, q.2.toProcessRecord.compile = .ok q.2 := by
    simp [i, compile_mill, compile_kiln]
  have built : Built i := built_of_compile (by decide) compiled compile_works rfl
  have single : SingleDefinition works (i.queued ["mill", "kiln"]) :=
    ⟨by decide +kernel, by decide +kernel, by decide +kernel⟩
  have evaluated : i.evaluate 10 = .ok [("total", 27), ("share", 3), ("heat", 30), ("fuel", 20),
    ("meal", 10), ("ore", 3), ("goal", 10), ("loss", 4), ("rate", 2)] := by cbv
  have checked : i.check = .ok () := by with_unfolding_all rfl
  have ordered : i.executionQueue = .ok ["mill", "kiln"] := by with_unfolding_all rfl
  obtain ⟨-, runs, plain, text, -⟩ := construct_agrees built rfl checked ordered single 10
  have scope : Scoped works (i.queued ["mill", "kiln"]) := plain (by unfold PlainKinds; decide +kernel)
  obtain ⟨attributes, ran, agree⟩ := runs _ evaluated scope
  have spelled : Script.Spelled works (i.queued ["mill", "kiln"]) := by decide +kernel
  have read := text spelled
  rw [ran] at read
  exact ⟨single, _, attributes, evaluated, ran, agree, rfl, read⟩

end Flowsheet.Industry
