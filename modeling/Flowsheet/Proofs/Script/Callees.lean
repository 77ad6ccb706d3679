import Flowsheet.Proofs.Evaluation.Arguments

set_option autoImplicit false

namespace Flowsheet

namespace Industry

variable {N : Type} {m : MetaProcess N} {x : String}

def prelude (m : MetaProcess N) (q : String × Process N) : List (Statement N) :=
  m.opening q.1 ++ q.2.presets ((m.demandsFor q.1).map (·.name))

def assignedBefore (m : MetaProcess N) (before : List (String × Process N)) (q : String × Process N) :
    List String :=
  m.outcome.name :: before.flatMap (writtenBy m) ++ prepared m q

/-- The process whose method a call finds. The methods named in `tail` stand behind those of the
processes. -/
def callee (ps : List (String × Process N)) (tail : List String) (attributes : Values N)
    (name : String) : Option (String × Process N) :=
  if (attributes.get? name).isSome || tail.contains name then none
  else ps.reverse.find? (·.2.shortName == name)

/-- From its call on a process has its short name to itself. -/
structure OwnsName (m : MetaProcess N) (tail : List String) (before : List (String × Process N))
    (q : String × Process N) (after : List (String × Process N)) : Prop where
  methods : ∀ r ∈ after, r.2.shortName ≠ q.2.shortName
  attributes : q.2.shortName ∉ assignedBefore m before q
  template : q.2.shortName ∉ tail

theorem ownsName_iff {tail : List String} {before after : List (String × Process N)}
    {q : String × Process N} :
    OwnsName m tail before q after ↔ (∀ r ∈ after, r.2.shortName ≠ q.2.shortName) ∧
      q.2.shortName ∉ assignedBefore m before q ∧ q.2.shortName ∉ tail :=
  ⟨fun owns => ⟨owns.methods, owns.attributes, owns.template⟩,
    fun owns => ⟨owns.1, owns.2.1, owns.2.2⟩⟩

instance (m : MetaProcess N) (tail : List String) (before : List (String × Process N))
    (q : String × Process N) (after : List (String × Process N)) :
    Decidable (OwnsName m tail before q after) :=
  decidable_of_iff _ ownsName_iff.symm

def Apart (m : MetaProcess N) (tail : List String) (before : List (String × Process N)) :
    List (String × Process N) → Prop
  | [] => True
  | q :: after => OwnsName m tail before q after ∧ Apart m tail (before ++ [q]) after

instance decidableApart (m : MetaProcess N) (tail : List String) (before : List (String × Process N)) :
    (rest : List (String × Process N)) → Decidable (Apart m tail before rest)
  | [] => inferInstanceAs (Decidable True)
  | q :: after =>
    have := decidableApart m tail (before ++ [q]) after
    inferInstanceAs (Decidable (_ ∧ _))

theorem find?_own {before after : List (String × Process N)} {q : String × Process N}
    (ids : ((before ++ q :: after).map (·.1)).Nodup) :
    (before ++ q :: after).reverse.find? (·.2.shortName == q.2.shortName) = some q ↔
      ∀ r ∈ after, r.2.shortName ≠ q.2.shortName := by
  have here : (q :: before.reverse).find? (·.2.shortName == q.2.shortName) = some q :=
    List.find?_cons_of_pos (beq_self_eq_true _)
  rw [List.reverse_append, List.reverse_cons, List.append_assoc, List.find?_append,
    List.singleton_append, here]
  cases found : after.reverse.find? (·.2.shortName == q.2.shortName) with
  | none =>
    have others := List.find?_eq_none.mp found
    refine iff_of_true rfl fun r inside same => ?_
    exact others r (List.mem_reverse.mpr inside) (beq_iff_eq.mpr same)
  | some r =>
    have inside : r ∈ after := List.mem_reverse.mp (List.mem_of_find?_eq_some found)
    have same : r.2.shortName = q.2.shortName := by simpa using List.find?_some found
    refine iff_of_false (fun own => ?_) fun others => others r inside same
    -- ids differ, so the later process is another one
    obtain rfl : r = q := Option.some.inj own
    rw [List.map_append, List.map_cons] at ids
    exact (List.nodup_cons.mp (List.nodup_append.mp ids).2.1).1 (List.mem_map_of_mem inside)

section Run

variable [Quantity N] {constants attributes attributes' : Values N} {q : String × Process N}
  {before : List (String × Process N)} {outcome : N}

theorem foldlM_prelude (m : MetaProcess N) (constants attributes : Values N) (calls : Calls N)
    (q : String × Process N) :
    (prelude m q).foldlM (Statement.run constants [] calls) attributes =
      (assignAll MetaProcess.isPrivate constants [] attributes ((m.demandsFor q.1).map (·.toOperation))).map
        (·.setAll (q.2.standing ((m.demandsFor q.1).map (·.name)))) := by
  rw [prelude, MetaProcess.opening_eq, Process.presets_eq, List.foldlM_append, foldlM_assignments]
  simp only [foldlM_presets]
  rfl

-- The attributes when the constructor comes to the call of a process, the calls before it resolved to the
-- methods of their own processes.
def atCall (m : MetaProcess N) (constants : Values N) (before : List (String × Process N))
    (q : String × Process N) (outcome : N) : Except (Exception N) (Values N) := do
  let attributes ← before.foldlM (runBlock m constants) [(m.outcome.name, outcome)]
  (prelude m q).foldlM (Statement.run constants [] Calls.none) attributes

theorem isSome_prelude (ran : (prelude m q).foldlM (Statement.run constants [] Calls.none) attributes =
    .ok attributes') : (attributes'.get? x).isSome ↔ (attributes.get? x).isSome ∨ x ∈ prepared m q := by
  rw [foldlM_prelude, map_eq_ok] at ran
  obtain ⟨started, demanded, rfl⟩ := ran
  exact isSome_prepared demanded

theorem isSome_atCall (reached : atCall m constants before q outcome = .ok attributes) :
    (attributes.get? x).isSome ↔ x ∈ assignedBefore m before q := by
  obtain ⟨started, earlier, ready⟩ := bind_eq_ok.mp reached
  rw [isSome_prelude ready, isSome_blocks earlier, assignedBefore, List.cons_append, List.mem_cons,
    List.mem_append, Values.get?_cons, or_assoc]
  refine or_congr_left ?_
  split
  next same => simp [same]
  next differ => simp [differ, Values.get?]

theorem callee_eq_some_iff {after : List (String × Process N)} {tail : List String}
    (ids : ((before ++ q :: after).map (·.1)).Nodup)
    (reached : atCall m constants before q outcome = .ok attributes) :
    callee (before ++ q :: after) tail attributes q.2.shortName = some q ↔
      OwnsName m tail before q after := by
  rw [ownsName_iff, ← find?_own ids, ← isSome_atCall reached, callee]
  by_cases shadowed : (attributes.get? q.2.shortName).isSome ∨ q.2.shortName ∈ tail
  · rw [if_pos (by simpa using shadowed)]
    simp only [reduceCtorEq, false_iff]
    rintro ⟨-, free, absent⟩
    exact shadowed.elim free absent
  · rw [if_neg (by simpa using shadowed)]
    exact (and_iff_left (not_or.mp shadowed)).symm

/-- Calls that look their method up. -/
def lookedUp (constants : Values N) (ps : List (String × Process N)) (tail : List String) : Calls N :=
  fun name args attributes =>
    match callee ps tail attributes name with
    | some q => q.2.method.run constants args attributes
    | none => .error (.noMethod name)

def constructLookedUp (m : MetaProcess N) (ps : List (String × Process N)) (tail : List String)
    (outcome : N) : Except (Exception N) (Values N) :=
  (constructor m ps).foldlM
    (Statement.run (Industry.constants m ps) [] (lookedUp (Industry.constants m ps) ps tail))
    [(m.outcome.name, outcome)]

theorem foldlM_call (m : MetaProcess N) (constants attributes : Values N) (calls : Calls N)
    (q : String × Process N) :
    (prelude m q ++ [q.2.call]).foldlM (Statement.run constants [] calls) attributes =
      (prelude m q).foldlM (Statement.run constants [] Calls.none) attributes >>= fun ready =>
        arguments ready q.2.methodArgs >>= fun args => calls q.2.shortName args ready := by
  rw [List.foldlM_append, foldlM_prelude, foldlM_prelude]
  simp only [Process.call, List.foldlM_cons, List.foldlM_nil, Statement.run, bind_pure]

theorem foldlM_lookedUp {ps rest : List (String × Process N)} {tail : List String}
    (ids : (ps.map (·.1)).Nodup) (split : ps = before ++ rest) (apart : Apart m tail before rest)
    (ran : before.foldlM (runBlock m constants) [(m.outcome.name, outcome)] = .ok attributes) :
    (rest.flatMap fun q => prelude m q ++ [q.2.call]).foldlM
        (Statement.run constants [] (lookedUp constants ps tail)) attributes =
      rest.foldlM (runBlock m constants) attributes := by
  induction rest generalizing before attributes with
  | nil => rfl
  | cons q rest ih =>
    have here : (prelude m q ++ [q.2.call]).foldlM
        (Statement.run constants [] (lookedUp constants ps tail)) attributes =
          runBlock m constants attributes q := by
      have own : runBlock m constants attributes q = (prelude m q ++ [q.2.call]).foldlM
        (Statement.run constants [] fun _ => q.2.method.run constants) attributes := rfl
      rw [own, foldlM_call, foldlM_call]
      cases ready : (prelude m q).foldlM (Statement.run constants [] Calls.none) attributes with
      | error e => rfl
      | ok next =>
        -- The attributes are those that the calls before have left, with what is written for this one.
        have reached : atCall m constants before q outcome = .ok next := by
          rw [atCall, ran]
          exact ready
        have found : callee ps tail next q.2.shortName = some q := by
          subst split
          exact (callee_eq_some_iff ids reached).mpr apart.1
        change (arguments next q.2.methodArgs >>= fun args =>
          lookedUp constants ps tail q.2.shortName args next) = _
        simp only [lookedUp, found]
        rfl
    rw [List.flatMap_cons, List.foldlM_append, List.foldlM_cons, here]
    cases done : runBlock m constants attributes q with
    | error e => rfl
    | ok next =>
      have longer : (before ++ [q]).foldlM (runBlock m constants) [(m.outcome.name, outcome)] =
          .ok next := by
        refine foldlM_append_eq_ok.mpr ⟨attributes, ran, ?_⟩
        rw [List.foldlM_cons, done]
        rfl
      exact ih (by simp [split]) apart.2 longer

end Run

/-- A call finds the method of its own process exactly where no later process has its short name and
no attribute has been assigned under it; where all names are apart, the calls that the constructor
makes are those of the own methods. -/
theorem calls_find_own_methods [Quantity N] {i : Industry N} {queue : List String} (built : Built i)
    (ordered : i.executionQueue = .ok queue) (tail : List String) (outcome : N) :
    (∀ before q after attributes, i.queued queue = before ++ q :: after →
      atCall m (constants m (i.queued queue)) before q outcome = .ok attributes →
        (callee (i.queued queue) tail attributes q.2.shortName = some q ↔ OwnsName m tail before q after)) ∧
      (Apart m tail [] (i.queued queue) →
        constructLookedUp m (i.queued queue) tail outcome = constructOwn m (i.queued queue) outcome) := by
  have ids := built.nodup_queued ordered
  refine ⟨fun before q after attributes split reached => ?_, fun apart => ?_⟩
  · rw [split] at ids reached ⊢
    exact callee_eq_some_iff ids reached
  · rw [constructLookedUp, constructor, List.foldlM_append, constructOwn]
    refine congrArg₂ _ (foldlM_lookedUp ids (List.nil_append _).symm apart rfl) ?_
    funext attributes
    rw [MetaProcess.ending, foldlM_assignments, foldlM_assignments]

theorem calls_find_own_methods_relay :
    let i := plant [("p", relay "first" "y" 3), ("q", relay "second" "z" 3)]
    (∃ attributes, atCall driver (constants driver (i.queued ["p", "q"])) [("p", relay "first" "y" 3)]
        ("q", relay "second" "z" 3) 10 = .ok attributes ∧
          callee (i.queued ["p", "q"]) ["values"] attributes "second" = some ("q", relay "second" "z" 3)) ∧
      constructLookedUp driver (i.queued ["p", "q"]) ["values"] 10 =
        constructOwn driver (i.queued ["p", "q"]) 10 := by
  intro i
  have built : Built i := built_plant (by decide) (by simp [compile_relay])
  have queued : i.queued ["p", "q"] = [("p", relay "first" "y" 3), ("q", relay "second" "z" 3)] := by cbv
  have ordered : i.executionQueue = .ok ["p", "q"] := by cbv
  obtain ⟨found, same⟩ := calls_find_own_methods (m := driver) built ordered ["values"] 10
  refine ⟨?_, same ?_⟩
  · have reached : atCall driver (constants driver (i.queued ["p", "q"])) [("p", relay "first" "y" 3)]
        ("q", relay "second" "z" 3) 10 = .ok [("x", 3), ("y", 3), ("goal", 10)] := by cbv
    exact ⟨_, reached, (found _ _ [] _ queued reached).mpr (by decide +kernel)⟩
  · rw [queued]
    decide +kernel

def Misses (i : Industry ℚ) (outcome : ℚ) : Prop :=
  Built i ∧ i.check = .ok () ∧ ∃ m queue before q after attributes, i.metaProcess = some m ∧
    i.executionQueue = .ok queue ∧ i.queued queue = before ++ q :: after ∧
      atCall m (constants m (i.queued queue)) before q outcome = .ok attributes ∧
        (callee (i.queued queue) [] attributes q.2.shortName).map (·.1) ≠ some q.1

theorem calls_miss_own_methods :
    Misses (plant [("p", relay "unit" "y" 1), ("q", relay "unit" "z" 2)]) 10 ∧
      (∃ attributes, constructLookedUp driver [("p", relay "unit" "y" 1), ("q", relay "unit" "z" 2)] [] 10 =
        .ok attributes ∧ attributes.get? "y" = none) ∧
      Misses (plant [("p", relay "goal" "y" 1)]) 10 := by
  have twice : Built (plant [("p", relay "unit" "y" 1), ("q", relay "unit" "z" 2)]) :=
    built_plant (by decide) (by simp [compile_relay])
  have alone : Built (plant [("p", relay "goal" "y" 1)]) :=
    built_plant (by decide) (by simp [compile_relay])
  refine ⟨⟨twice, by cbv, driver, ["p", "q"], [], ("p", relay "unit" "y" 1),
    [("q", relay "unit" "z" 2)], [("x", 1), ("goal", 10)], rfl, ?queue, ?queued, ?reached, ?misses⟩,
    ⟨[("z", 2), ("x", 2), ("goal", 10)], ?ran, ?unassigned⟩,
    ⟨alone, by cbv, driver, ["p"], [], ("p", relay "goal" "y" 1), [], [("x", 1), ("goal", 10)], rfl,
      ?queue', ?queued', ?reached', ?misses'⟩⟩
  case misses | misses' => decide +kernel
  all_goals cbv

end Industry

end Flowsheet
