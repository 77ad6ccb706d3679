import Flowsheet.Proofs.Script.Run

set_option autoImplicit false

namespace Flowsheet

variable {N : Type}

def Operation.bare (isPrivate : Arg → Bool) (o : Operation N) : List String :=
  o.formula.identifiers.filter fun x => !o.hasArg isPrivate x

/-- No operation reads one of the watched names after it was written. -/
def ReadsFirst (isPrivate : Arg → Bool) (watched : List String) :
    List String → List (Operation N) → Prop
  | _, [] => True
  | written, o :: os =>
    (∀ x ∈ o.bare isPrivate, x ∈ watched → x ∉ written) ∧
      ReadsFirst isPrivate watched (o.name :: written) os

theorem readsFirst_nil (isPrivate : Arg → Bool) (written : List String) (os : List (Operation N)) :
    ReadsFirst isPrivate [] written os := by
  induction os generalizing written with
  | nil => trivial
  | cons o os ih => exact ⟨by simp, ih _⟩

instance decidableReadsFirst (isPrivate : Arg → Bool) (watched : List String) :
    (written : List String) → (os : List (Operation N)) →
      Decidable (ReadsFirst isPrivate watched written os)
  | _, [] => inferInstanceAs (Decidable True)
  | written, o :: os =>
    have := decidableReadsFirst isPrivate watched (o.name :: written) os
    inferInstanceAs (Decidable (_ ∧ _))

namespace Industry

def constantNames (m : MetaProcess N) (ps : List (String × Process N)) : List String :=
  m.constants.map (·.name) ++ ps.flatMap fun (_, p) => p.constants.map (·.name)

/-- A process that the evaluator and the class run alike, after `computed` names and `settled`
declared values. -/
structure CoherentBlock (m : MetaProcess N) (constants computed : List String) (settled : Values N)
    (id : String) (p : Process N) : Prop where
  -- The demands read no constant that was written over.
  demands : ReadsFirst MetaProcess.isPrivate constants (computed ++ settled.map (·.1))
    ((m.demandsFor id).map (·.toOperation))
  -- A declared value meets no other value of its name.
  standing : ∀ q ∈ p.standing ((m.demandsFor id).map (·.name)),
    q.1 ∉ constants ∧ q.1 ∉ (m.demandsFor id).map (·.name) ++ computed ∧
      ∀ r ∈ settled, r.1 = q.1 → r.2 = q.2
  -- Nor does the method read such a constant, unless a parameter hides it.
  constants : ReadsFirst isOutput (constants.filter fun x => !p.methodArgs.contains x)
    (((m.demandsFor id).map (·.name) ++ computed) ++
      (p.standing ((m.demandsFor id).map (·.name)) ++ settled).map (·.1)) p.operations
  -- The method reads a parameter before it writes an output of that name.
  params : ReadsFirst isOutput p.methodArgs [] p.operations

instance [DecidableEq N] (m : MetaProcess N) (constants computed : List String) (settled : Values N)
    (id : String) (p : Process N) : Decidable (CoherentBlock m constants computed settled id p) :=
  decidable_of_iff (_ ∧ _ ∧ _ ∧ _)
    ⟨fun ⟨demands, standing, constants, params⟩ => ⟨demands, standing, constants, params⟩,
      fun ⟨demands, standing, constants, params⟩ => ⟨demands, standing, constants, params⟩⟩

def CoherentFrom (m : MetaProcess N) (constants : List String) :
    List String → Values N → List (String × Process N) → Prop
  | computed, settled, [] =>
    ReadsFirst MetaProcess.isPrivate constants (computed ++ settled.map (·.1)) m.closing
  | computed, settled, (id, p) :: ps =>
    CoherentBlock m constants computed settled id p ∧
      CoherentFrom m constants
        (p.operations.map (·.name) ++ ((m.demandsFor id).map (·.name) ++ computed))
        (p.standing ((m.demandsFor id).map (·.name)) ++ settled) ps

instance decidableCoherentFrom [DecidableEq N] (m : MetaProcess N) (constants : List String) :
    (computed : List String) → (settled : Values N) → (ps : List (String × Process N)) →
      Decidable (CoherentFrom m constants computed settled ps)
  | computed, settled, [] => decidableReadsFirst _ _ (computed ++ settled.map (·.1)) m.closing
  | computed, settled, (id, p) :: ps =>
    have := decidableCoherentFrom m constants
      (p.operations.map (·.name) ++ ((m.demandsFor id).map (·.name) ++ computed))
      (p.standing ((m.demandsFor id).map (·.name)) ++ settled) ps
    inferInstanceAs (Decidable (_ ∧ _))

/-- No name of the industry is read in one place after it was written in another. -/
def Coherent (m : MetaProcess N) (ps : List (String × Process N)) : Prop :=
  CoherentFrom m (constantNames m ps) [m.outcome.name] [] ps

instance [DecidableEq N] (m : MetaProcess N) (ps : List (String × Process N)) :
    Decidable (Coherent m ps) := decidableCoherentFrom m (constantNames m ps) [m.outcome.name] [] ps

/-- How far the evaluator may be from the class: `computed` are the names of the outcome, of
demands and of outputs so far, `settled` the values that inputs were given by declaration. -/
structure Tracks (constants : Values N) (computed : List String) (settled values attributes : Values N) :
    Prop where
  overlay : ∀ x, values.get? x = (attributes.get? x).or (constants.get? x)
  known : ∀ x, (attributes.get? x).isSome → x ∈ computed ∨ ∃ v, (x, v) ∈ settled
  kept : ∀ x v, (x, v) ∈ settled → x ∈ computed ∨ attributes.get? x = some v
  done : ∀ x ∈ computed, (attributes.get? x).isSome

section Stores

variable {constants settled values attributes : Values N} {computed : List String}

theorem Tracks.congr {computed' : List String} {settled' : Values N}
    (tracks : Tracks constants computed settled values attributes)
    (names : ∀ x, x ∈ computed ↔ x ∈ computed') (entries : ∀ q, q ∈ settled ↔ q ∈ settled') :
    Tracks constants computed' settled' values attributes := by
  obtain ⟨overlay, known, kept, done⟩ := tracks
  simp only [names, entries] at known kept done
  exact ⟨overlay, known, kept, done⟩

theorem Tracks.value {x : String} {v : N} (tracks : Tracks constants computed settled values attributes)
    (found : attributes.get? x = some v) : values.get? x = some v := by
  rw [tracks.overlay, found, Option.some_or]

theorem Tracks.unset {x : String} (tracks : Tracks constants computed settled values attributes)
    (unwritten : x ∉ computed ++ settled.map (·.1)) : attributes.get? x = none := by
  simp only [List.mem_append, List.mem_map, not_or, not_exists, not_and] at unwritten
  rw [← Option.not_isSome_iff_eq_none]
  intro set
  rcases tracks.known x set with inside | ⟨w, entry⟩
  · exact unwritten.1 inside
  · exact unwritten.2 _ entry rfl

theorem Tracks.set (tracks : Tracks constants computed settled values attributes) (x : String) (v : N) :
    Tracks constants (x :: computed) settled (values.set x v) (attributes.set x v) := by
  constructor
  · intro y
    by_cases same : y = x
    · simp [same]
    · simp [same, tracks.overlay]
  · intro y found
    by_cases same : y = x
    · simp [same]
    · rw [Values.get?_set_of_ne _ _ same] at found
      exact (tracks.known y found).imp_left (List.mem_cons_of_mem _)
  · intro y w entry
    by_cases same : y = x
    · simp [same]
    · rw [Values.get?_set_of_ne _ _ same]
      exact (tracks.kept y w entry).imp_left (List.mem_cons_of_mem _)
  · intro y member
    by_cases same : y = x
    · simp [same]
    · rw [Values.get?_set_of_ne _ _ same]
      exact tracks.done y ((List.mem_cons.mp member).resolve_left same)

theorem Tracks.preset {x : String} {v : N} (tracks : Tracks constants computed settled values attributes)
    (unnamed : constants.get? x = none) (fresh : x ∉ computed)
    (same : ∀ w, (x, w) ∈ settled → w = v) :
    Tracks constants computed ((x, v) :: settled) (if values.has x then values else values.set x v)
      (attributes.set x v) := by
  -- the evaluator skips a name that has a value; then an earlier process declared the same one
  have present : values.has x = true → attributes.get? x = some v := by
    intro has
    rw [Values.has, tracks.overlay, unnamed, Option.or_none] at has
    obtain ⟨w, entry⟩ := (tracks.known x has).resolve_left fresh
    rw [← same w entry]
    exact (tracks.kept x w entry).resolve_left fresh
  constructor
  · intro y
    by_cases here : y = x
    · subst here
      by_cases has : values.has y = true
      · simp [has, tracks.value (present has)]
      · simp [has]
    · by_cases has : values.has x = true
      · simp [has, here, tracks.overlay]
      · simp [has, here, tracks.overlay]
  · intro y found
    by_cases here : y = x
    · exact .inr ⟨v, by simp [here]⟩
    · rw [Values.get?_set_of_ne _ _ here] at found
      exact (tracks.known y found).imp_right fun ⟨w, entry⟩ => ⟨w, List.mem_cons_of_mem _ entry⟩
  · intro y w entry
    by_cases here : y = x
    · subst here
      have value : w = v := by
        rcases List.mem_cons.mp entry with first | entry
        · exact (Prod.mk.inj first).2
        · exact same w entry
      simp [value]
    · have entry : (y, w) ∈ settled := by simpa [here] using entry
      rw [Values.get?_set_of_ne _ _ here]
      exact tracks.kept y w entry
  · intro y member
    have here : y ≠ x := fun same => fresh (same ▸ member)
    rw [Values.get?_set_of_ne _ _ here]
    exact tracks.done y member

theorem Tracks.presets {p : Process N} {supplied : List String} (args : List String)
    (tracks : Tracks constants computed settled values attributes) (given : ∀ x ∈ supplied, x ∈ computed)
    (fresh : ∀ x ∈ args, x ∉ supplied → ∀ v, p.ownValue? x = some v →
      constants.get? x = none ∧ x ∉ computed ∧ ∀ w, (x, w) ∈ settled → w = v) :
    Tracks constants computed (p.declared supplied args ++ settled)
      (args.foldl (Industry.preset p) values) (attributes.setAll (p.declared supplied args)) := by
  induction args generalizing settled values attributes with
  | nil => exact tracks
  | cons x args ih =>
    have later : ∀ y ∈ args, y ∉ supplied → ∀ v, p.ownValue? y = some v →
        constants.get? y = none ∧ y ∉ computed ∧ ∀ w, (y, w) ∈ settled → w = v :=
      fun y member => fresh y (List.mem_cons_of_mem _ member)
    rw [List.foldl_cons]
    by_cases known : x ∈ supplied
    -- a demand stands in both stores already
    · have has : values.has x = true := by
        obtain ⟨v, found⟩ := Option.isSome_iff_exists.mp (tracks.done x (given x known))
        simp [Values.has, tracks.value found]
      have skipped : p.declared supplied (x :: args) = p.declared supplied args := by
        simp [Process.declared, known]
      simpa [skipped, Industry.preset, has] using ih tracks later
    · cases own : p.ownValue? x with
      | none =>
        have skipped : p.declared supplied (x :: args) = p.declared supplied args := by
          simp [Process.declared, own]
        simpa [skipped, own, Industry.preset] using ih tracks later
      | some v =>
        have written : p.declared supplied (x :: args) = (x, v) :: p.declared supplied args := by
          simp [Process.declared, own, known]
        have settle : Industry.preset p values x = if values.has x then values else values.set x v := by
          simp [Industry.preset, own]
        obtain ⟨unnamed, new, same⟩ := fresh x (by simp) known v own
        have rest := ih (tracks.preset unnamed new same) (by
          intro y member absent w own'
          obtain ⟨unnamed', new', same'⟩ := later y member absent w own'
          refine ⟨unnamed', new', fun u entry => ?_⟩
          rcases List.mem_cons.mp entry with first | entry
          · obtain ⟨rfl, rfl⟩ := Prod.mk.inj first
            exact Option.some.inj (own.symm.trans own')
          · exact same' u entry)
        rw [settle, written]
        refine rest.congr (fun _ => .rfl) (fun q => ?_)
        simp only [List.mem_append, List.mem_cons]
        tauto

end Stores

end Industry

theorem Formula.eval_mono [Quantity N] {value other : String → Option N} {e : Formula N} {v : N}
    (extends' : ∀ x ∈ e.identifiers, ∀ w, value x = some w → other x = some w)
    (evaluated : e.eval value = .ok v) : e.eval other = .ok v := by
  rw [← evaluated]
  symm
  apply Formula.eval_congr
  intro x member
  obtain ⟨w, found⟩ := Option.isSome_iff_exists.mp (Formula.isSome_of_eval_ok evaluated x member)
  rw [found, extends' x (Formula.mem_identifiers.mpr member) w found]

namespace Industry

section Exact

variable {constants settled values attributes attributes' params : Values ℚ}
variable {computed written watched passed : List String} {isPrivate : Arg → Bool}

-- Parameters still have the values of the attributes they were copied from, unless those were written since.
def Intact (params : Values N) (written : List String) (attributes : Values N) : Prop :=
  ∀ x v, params.get? x = some v → x ∈ written ∨ attributes.get? x = some v

theorem Intact.set {params attributes : Values N} {written : List String}
    (intact : Intact params written attributes) (x : String) (v : N) :
    Intact params (x :: written) (attributes.set x v) := by
  intro y w given
  by_cases same : y = x
  · simp [same]
  · rw [Values.get?_set_of_ne _ _ same]
    exact (intact y w given).imp_left (List.mem_cons_of_mem _)

theorem intact_nil (written : List String) (attributes : Values N) : Intact [] written attributes := by
  intro x v given
  cases given

theorem Tracks.reads {o : Operation ℚ} (tracks : Tracks constants computed settled values attributes)
    (constant : ∀ x ∈ o.bare isPrivate, x ∈ watched → x ∉ computed ++ settled.map (·.1))
    (watching : ∀ x, params.get? x = none → (constants.get? x).isSome → x ∈ watched)
    (param : ∀ x ∈ o.bare isPrivate, x ∈ passed → x ∉ written)
    (passing : ∀ x, x ∈ passed ↔ (params.get? x).isSome) (intact : Intact params written attributes) :
    ∀ x ∈ o.formula.identifiers, ∀ v, o.reads isPrivate constants params attributes x = some v →
      values.get? x = some v := by
  intro x member v read
  unfold Operation.reads at read
  split at read
  · exact tracks.value read
  next plain =>
    have bare : x ∈ o.bare isPrivate := List.mem_filter.mpr ⟨member, by simpa using plain⟩
    cases given : params.get? x with
    -- a parameter is a copy of an attribute that was not written since
    | some w =>
      obtain rfl : w = v := by simpa [given] using read
      have unwritten := param x bare ((passing x).mpr (by simp [given]))
      exact tracks.value ((intact x w given).resolve_left unwritten)
    -- and a constant is read where no attribute hides it from the evaluator
    | none =>
      have found : constants.get? x = some v := by simpa [given] using read
      have unset := tracks.unset (constant x bare (watching x given (by simp [found])))
      rw [tracks.overlay, unset, found, Option.none_or]

theorem Tracks.operations (owner : String) {os : List (Operation ℚ)} (formed : ∀ o ∈ os, o.WellFormed)
    (tracks : Tracks constants computed settled values attributes)
    (constantsFirst : ReadsFirst isPrivate watched (computed ++ settled.map (·.1)) os)
    (watching : ∀ x, params.get? x = none → (constants.get? x).isSome → x ∈ watched)
    (paramsFirst : ReadsFirst isPrivate passed written os)
    (passing : ∀ x, x ∈ passed ↔ (params.get? x).isSome) (intact : Intact params written attributes)
    (ran : assignAll isPrivate constants params attributes os = .ok attributes') :
    ∃ values', os.foldlM (Industry.apply owner) values = .ok values' ∧
      Tracks constants (os.map (·.name) ++ computed) settled values' attributes' := by
  induction os generalizing values attributes computed written with
  | nil =>
    cases ran
    exact ⟨values, rfl, tracks⟩
  | cons o os ih =>
    obtain ⟨v, evaluated, rest⟩ := (assignAll_cons_eq_ok (formed o (by simp))).mp ran
    have reads := tracks.reads constantsFirst.1 watching paramsFirst.1 passing intact
    have first : Industry.apply owner values o = .ok (values.set o.name v) :=
      apply_eq_ok.mpr ⟨v, Formula.eval_mono reads evaluated, rfl⟩
    obtain ⟨values', others, final⟩ := ih (fun o' member => formed o' (List.mem_cons_of_mem _ member))
      (tracks.set o.name v) constantsFirst.2 paramsFirst.2 (intact.set o.name v) rest
    refine ⟨values', foldlM_cons_eq_ok.mpr ⟨_, first, others⟩, final.congr (fun x => ?_) (fun _ => .rfl)⟩
    simp only [List.map_cons, List.mem_append, List.mem_cons]
    tauto

section Block

variable {m : MetaProcess ℚ} {id : String} {p : Process ℚ} {names : List String}

theorem Tracks.demands (formed : m.WellFormed) (named : ∀ x, (constants.get? x).isSome → x ∈ names)
    (tracks : Tracks constants computed settled values attributes)
    (coherent : CoherentBlock m names computed settled id p)
    (ran : assignAll MetaProcess.isPrivate constants [] attributes
      ((m.demandsFor id).map (·.toOperation)) = .ok attributes') :
    ∃ values', ((m.demandsFor id).map (·.toOperation)).foldlM (apply m.name) values = .ok values' ∧
      Tracks constants ((m.demandsFor id).map (·.name) ++ computed) settled values' attributes' := by
  have step := tracks.operations m.name (formed.demandsFor id) coherent.demands
    (fun x _ found => named x found) (readsFirst_nil _ [] _) (by simp [Values.get?])
    (intact_nil [] attributes) ran
  rwa [List.map_map] at step

theorem Tracks.standing (named : ∀ x, (constants.get? x).isSome → x ∈ names)
    (coherent : CoherentBlock m names computed settled id p)
    (tracks : Tracks constants ((m.demandsFor id).map (·.name) ++ computed) settled values attributes) :
    Tracks constants ((m.demandsFor id).map (·.name) ++ computed)
      (p.standing ((m.demandsFor id).map (·.name)) ++ settled)
      (p.methodArgs.foldl (Industry.preset p) values)
      (attributes.setAll (p.standing ((m.demandsFor id).map (·.name)))) := by
  apply tracks.presets p.methodArgs (fun x member => List.mem_append_left _ member)
  intro x member absent v own
  obtain ⟨constant, new, same⟩ := coherent.standing (x, v) (p.mem_standing member absent own)
  refine ⟨?_, new, fun w other => same (x, w) other rfl⟩
  rw [← Option.not_isSome_iff_eq_none]
  exact fun found => constant (named x found)

theorem Tracks.block (formed : m.WellFormed) (compiled : p.WellFormed)
    (named : ∀ x, (constants.get? x).isSome → x ∈ names)
    (tracks : Tracks constants computed settled values attributes)
    (coherent : CoherentBlock m names computed settled id p)
    (ran : runBlock m constants attributes (id, p) = .ok attributes') :
    ∃ values', runProcess m values id p = .ok values' ∧
      Tracks constants (p.operations.map (·.name) ++ ((m.demandsFor id).map (·.name) ++ computed))
        (p.standing ((m.demandsFor id).map (·.name)) ++ settled) values' attributes' := by
  obtain ⟨started, args, demanded, passed, called⟩ := runBlock_eq_ok.mp ran
  obtain ⟨values₁, evaluated, tracks₁⟩ := tracks.demands formed named coherent demanded
  have tracks₂ := tracks₁.standing named coherent
  obtain ⟨-, passing, same⟩ := arguments_eq_ok passed
  -- a constant that is also a parameter is read as the parameter
  have watching : ∀ x, Values.get? (p.methodArgs.zip args) x = none → (constants.get? x).isSome →
      x ∈ names.filter fun x => !p.methodArgs.contains x := by
    intro x absent found
    have other : x ∉ p.methodArgs := by simp [passing, absent]
    exact List.mem_filter.mpr ⟨named x found, by simpa using other⟩
  obtain ⟨values₂, finished, tracks₃⟩ := tracks₂.operations p.name compiled.operations coherent.constants
    watching coherent.params passing (fun x v found => .inr (same x v found)) called
  refine ⟨values₂, ?_, tracks₃⟩
  rw [runProcess, bind_eq_ok]
  exact ⟨values₁, evaluated, finished⟩

end Block

def computedBy (m : MetaProcess N) : List String → List (String × Process N) → List String
  | computed, [] => computed
  | computed, (id, p) :: ps =>
    computedBy m (p.operations.map (·.name) ++ ((m.demandsFor id).map (·.name) ++ computed)) ps

def settledBy (m : MetaProcess N) : Values N → List (String × Process N) → Values N
  | settled, [] => settled
  | settled, (id, p) :: ps =>
    settledBy m (p.standing ((m.demandsFor id).map (·.name)) ++ settled) ps

theorem Tracks.blocks {m : MetaProcess ℚ} {ps : List (String × Process ℚ)} {names : List String}
    (formed : m.WellFormed) (compiled : ∀ q ∈ ps, q.2.WellFormed)
    (named : ∀ x, (constants.get? x).isSome → x ∈ names)
    (tracks : Tracks constants computed settled values attributes)
    (coherent : CoherentFrom m names computed settled ps)
    (ran : ps.foldlM (runBlock m constants) attributes = .ok attributes') :
    ∃ values', ps.foldlM (fun vs (id, p) => runProcess m vs id p) values = .ok values' ∧
      Tracks constants (computedBy m computed ps) (settledBy m settled ps) values' attributes' := by
  induction ps generalizing values attributes computed settled with
  | nil =>
    cases ran
    exact ⟨values, rfl, tracks⟩
  | cons q ps ih =>
    obtain ⟨id, p⟩ := q
    obtain ⟨between, first, rest⟩ := foldlM_cons_eq_ok.mp ran
    obtain ⟨values₁, evaluated, tracks₁⟩ :=
      tracks.block formed (compiled (id, p) (by simp)) named coherent.1 first
    obtain ⟨values₂, others, final⟩ :=
      ih (fun q member => compiled q (List.mem_cons_of_mem _ member)) tracks₁ coherent.2 rest
    exact ⟨values₂, foldlM_cons_eq_ok.mpr ⟨values₁, evaluated, others⟩, final⟩

theorem CoherentFrom.closing {m : MetaProcess N} {names computed : List String} {settled : Values N}
    {ps : List (String × Process N)} (coherent : CoherentFrom m names computed settled ps) :
    ReadsFirst MetaProcess.isPrivate names
      (computedBy m computed ps ++ (settledBy m settled ps).map (·.1)) m.closing := by
  induction ps generalizing computed settled with
  | nil => exact coherent
  | cons q ps ih => exact ih coherent.2

end Exact

theorem get?_setConstants {vs : Values N} {cs : List (Constant N)} {x : String}
    (found : ((setConstants vs cs).get? x).isSome) : (vs.get? x).isSome ∨ x ∈ cs.map (·.name) := by
  induction cs generalizing vs with
  | nil => exact .inl found
  | cons c cs ih =>
    rcases ih found with earlier | later
    · by_cases same : x = c.name
      · simp [same]
      · rw [Values.get?_set_of_ne _ _ same] at earlier
        exact .inl earlier
    · exact .inr (List.mem_cons_of_mem _ later)

theorem mem_constantNames {m : MetaProcess N} {ps : List (String × Process N)} {x : String}
    (found : ((constants m ps).get? x).isSome) : x ∈ constantNames m ps := by
  have folded (vs : Values N) (found : ((ps.foldl (fun vs (q : String × Process N) =>
      setConstants vs q.2.constants) vs).get? x).isSome) :
      (vs.get? x).isSome ∨ x ∈ ps.flatMap fun q => q.2.constants.map (·.name) := by
    clear * -found
    induction ps generalizing vs with
    | nil => exact .inl found
    | cons q ps ih =>
      rcases ih _ found with earlier | later
      · rcases get?_setConstants earlier with before | here
        · exact .inl before
        · exact .inr (List.mem_append_left _ here)
      · exact .inr (List.mem_append_right _ later)
  rcases folded _ found with meta' | process
  · rcases get?_setConstants meta' with none | here
    · simp [Values.get?] at none
    · exact List.mem_append_left _ here
  · exact List.mem_append_right _ process

end Industry

end Flowsheet
