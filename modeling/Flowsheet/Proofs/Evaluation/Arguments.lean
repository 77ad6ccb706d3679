import Flowsheet.Proofs.Evaluation.Steps
import Flowsheet.Proofs.Industry.Queue
import Flowsheet.Proofs.Script.SingleDefinition

set_option autoImplicit false

namespace Flowsheet

theorem Formula.unbound_of_substitute {N : Type} [Quantity N] {value : String → Option N} {e : Formula N}
    {names : List String} (failed : e.substitute value = .error (.unbound names)) :
    ∀ x ∈ names, value x = none := by
  unfold Formula.substitute at failed
  split at failed
  next complete =>
    obtain ⟨quotient, impossible⟩ := divisionByZero_of_eval_error (missing_eq_nil.mp complete) failed
    cases impossible
  next =>
    cases failed
    intro x member
    simpa using (List.mem_filter.mp member).2

section Attributes

variable {N : Type} {constants params attributes attributes' : Values N} {x : String}

theorem Values.isSome_setAll {vs new : Values N} :
    ((vs.setAll new).get? x).isSome ↔ (vs.get? x).isSome ∨ x ∈ new.map (·.1) := by
  induction new generalizing vs with
  | nil => simp [Values.setAll]
  | cons entry new ih =>
    have next : vs.setAll (entry :: new) = (vs.set entry.1 entry.2).setAll new := rfl
    rw [next, ih, Values.isSome_set, List.map_cons, List.mem_cons, or_assoc]

variable [Quantity N]

theorem Operation.assigned (o : Operation N) {isPrivate : Arg → Bool} {calls : Calls N}
    (ran : (o.assignment isPrivate).run constants params calls attributes = .ok attributes') :
    ∃ v, attributes' = attributes.set o.name v := by
  simp only [Operation.assignment, Statement.run] at ran
  split at ran
  next v _ => exact ⟨v, (Except.ok.inj ran).symm⟩
  next => cases ran

theorem isSome_assignAll {isPrivate : Arg → Bool} {os : List (Operation N)}
    (ran : assignAll isPrivate constants params attributes os = .ok attributes') :
    (attributes'.get? x).isSome ↔ (attributes.get? x).isSome ∨ x ∈ os.map (·.name) := by
  induction os generalizing attributes with
  | nil =>
    cases ran
    simp
  | cons o os ih =>
    rw [assignAll, List.map_cons, foldlM_cons_eq_ok] at ran
    obtain ⟨between, first, rest⟩ := ran
    obtain ⟨v, rfl⟩ := o.assigned first
    rw [ih rest, Values.isSome_set, List.map_cons, List.mem_cons, or_assoc]

theorem assignAll_ne_unset {isPrivate : Arg → Bool} (os : List (Operation N)) :
    assignAll isPrivate constants params attributes os ≠ .error (.unset x) := by
  intro failed
  obtain ⟨_, statement, _, values, split, -, last⟩ := foldlM_eq_error.mp failed
  have member : statement ∈ os.map (·.assignment isPrivate) := by simp [split]
  obtain ⟨o, -, rfl⟩ := List.mem_map.mp member
  simp only [Operation.assignment, Statement.run] at last
  split at last
  all_goals cases last

end Attributes

namespace Industry

def prepared {N : Type} (m : MetaProcess N) (q : String × Process N) : List String :=
  (m.demandsFor q.1).map (·.name) ++ (q.2.standing ((m.demandsFor q.1).map (·.name))).map (·.1)

def writtenBy {N : Type} (m : MetaProcess N) (q : String × Process N) : List String :=
  prepared m q ++ q.2.operations.map (·.name)

variable {N : Type} [Quantity N] {m : MetaProcess N} {x : String}

section Class

variable {constants attributes attributes' started : Values N} {id : String} {p : Process N}

theorem isSome_prepared {q : String × Process N} (demanded : assignAll MetaProcess.isPrivate constants []
      attributes ((m.demandsFor q.1).map (·.toOperation)) = .ok started) :
    ((started.setAll (q.2.standing ((m.demandsFor q.1).map (·.name)))).get? x).isSome ↔
      (attributes.get? x).isSome ∨ x ∈ prepared m q := by
  have names : ((m.demandsFor q.1).map (·.toOperation)).map (·.name) = (m.demandsFor q.1).map (·.name) := by
    rw [List.map_map]; rfl
  rw [Values.isSome_setAll, isSome_assignAll demanded, names, prepared, List.mem_append, or_assoc]

theorem isSome_runBlock {q : String × Process N} (ran : runBlock m constants attributes q = .ok attributes') :
    (attributes'.get? x).isSome ↔ (attributes.get? x).isSome ∨ x ∈ writtenBy m q := by
  obtain ⟨started, args, demanded, -, called⟩ := runBlock_eq_ok.mp ran
  rw [isSome_assignAll called, isSome_prepared demanded, writtenBy, List.mem_append, or_assoc]

theorem isSome_blocks {ps : List (String × Process N)}
    (ran : ps.foldlM (runBlock m constants) attributes = .ok attributes') :
    (attributes'.get? x).isSome ↔ (attributes.get? x).isSome ∨ x ∈ ps.flatMap (writtenBy m) := by
  induction ps generalizing attributes with
  | nil =>
    cases ran
    simp
  | cons q ps ih =>
    obtain ⟨between, first, rest⟩ := foldlM_cons_eq_ok.mp ran
    rw [ih rest, isSome_runBlock first, List.flatMap_cons, List.mem_append, or_assoc]

theorem runBlock_ne_unset (given : ∀ y ∈ p.methodArgs, (attributes.get? y).isSome ∨
      y ∈ (m.demandsFor id).map (·.name) ∨ (p.ownValue? y).isSome) :
    runBlock m constants attributes (id, p) ≠ .error (.unset x) := by
  intro failed
  rw [runBlock_eq, bind_eq_error] at failed
  rcases failed with failed | ⟨started, demanded, failed⟩
  · exact assignAll_ne_unset _ failed
  have stored : ∀ y ∈ p.methodArgs,
      ((started.setAll (p.standing ((m.demandsFor id).map (·.name)))).get? y).isSome := by
    intro y argument
    refine (isSome_prepared (q := (id, p)) demanded).mpr ?_
    by_cases demand : y ∈ (m.demandsFor id).map (·.name)
    · exact .inr (List.mem_append_left _ demand)
    · rcases given y argument with known | demanded' | own
      · exact .inl known
      · exact absurd demanded' demand
      · obtain ⟨v, value⟩ := Option.isSome_iff_exists.mp own
        have standing := p.mem_standing argument demand value
        exact .inr (List.mem_append_right _ (List.mem_map.mpr ⟨_, standing, rfl⟩))
  obtain ⟨args, passed⟩ := exists_arguments stored
  rw [bind_eq_error, passed] at failed
  rcases failed with failed | ⟨_, ⟨rfl⟩, failed⟩
  · cases failed
  · have length : args.length = p.method.params.length := (arguments_eq_ok passed).1
    rw [Method.run, if_pos length] at failed
    exact assignAll_ne_unset _ failed

theorem constructOwn_ne_unset {ps : List (String × Process N)} {outcome : N}
    (supplied : ∀ {before after : List (String × Process N)} {id : String} {p : Process N},
      ps = before ++ (id, p) :: after → Supplied m before id p) :
    constructOwn m ps outcome ≠ .error (.unset x) := by
  intro failed
  rw [constructOwn, bind_eq_error] at failed
  rcases failed with failed | ⟨_, -, failed⟩
  · obtain ⟨before, ⟨id, p⟩, after, attributes, split, ran, last⟩ := foldlM_eq_error.mp failed
    refine runBlock_ne_unset (fun y argument => ?_) last
    rcases supplied split y argument with ⟨q, inside, output⟩ | demanded | own
    · have written : y ∈ before.flatMap (writtenBy m) :=
        List.mem_flatMap.mpr ⟨q, inside, List.mem_append_right _ output⟩
      exact .inl ((isSome_blocks ran).mpr (.inr written))
    · exact .inr (.inl demanded)
    · exact .inr (.inr own)
  · exact assignAll_ne_unset _ failed

end Class

theorem Reaches.isSome_argument {ps : List (String × Process N)} {outcome : N} {before : List (Step N)}
    {id : String} {p : Process N} {o : Operation N} {values : Values N}
    (reaches : Reaches m ps outcome before (.output id p o) values)
    (supplied : ∀ {before after : List (String × Process N)} {id : String} {p : Process N},
      ps = before ++ (id, p) :: after → Supplied m before id p) (argument : x ∈ p.methodArgs) :
    (values.get? x).isSome := by
  obtain ⟨after, split⟩ := reaches.split
  obtain ⟨earlier, later, first, last, here, -, place⟩ := split_output split
  -- each way to supply an argument is a step that comes before
  have defined : ∃ s ∈ before, s.Defines x := by
    rcases supplied here x argument with ⟨q, inside, output⟩ | demanded | own
    · obtain ⟨o', operation, named⟩ := List.mem_map.mp output
      refine ⟨.output q.1 q.2 o', ?_, named⟩
      rw [place]
      exact List.mem_append_right _ (List.mem_append_left _ (output_mem_blocks inside operation))
    · obtain ⟨d, inside, named⟩ := List.mem_map.mp demanded
      exact ⟨.demand d, by simp [place, inside], named⟩
    · exact ⟨.preset p x, by simp [place, argument], rfl, own⟩
  obtain ⟨s, member, defines⟩ := defined
  exact defines.isSome_foldlM member reaches.ran

theorem arguments_have_values {i : Industry N} {queue : List String} (built : Built i)
    (set : i.metaProcess = some m) (checked : i.check = .ok ()) (ordered : i.executionQueue = .ok queue)
    (outcome : N) :
    (∀ before id p o values, Reaches m (i.queued queue) outcome before (.output id p o) values →
      ∀ x ∈ p.methodArgs, (values.get? x).isSome) ∧
      (∀ name owner names, i.evaluate outcome = .error (.formula name owner (.unbound names)) →
        ∃ before s values, Reaches m (i.queued queue) outcome before s values ∧
          s.run m values = .error (.formula name owner (.unbound names)) ∧
            ∀ id p o, s = .output id p o → ∀ x ∈ p.methodArgs, x ∉ names) ∧
        (∀ x, constructOwn m (i.queued queue) outcome ≠ .error (.unset x)) ∧
          (((i.queued queue).map (·.2.shortName)).Nodup →
            ∀ x, construct m (i.queued queue) outcome ≠ .error (.unset x)) := by
  have names := built.forall_process Process.names_of_compile
  have supplied {before after : List (String × Process N)} {id : String} {p : Process N}
      (split : i.queued queue = before ++ (id, p) :: after) : Supplied m before id p :=
    supplied_of_names names set checked ordered split
  refine ⟨fun before id p o values reaches x => reaches.isSome_argument supplied,
    fun name owner names failed => ?_, fun x => constructOwn_ne_unset supplied, fun distinct x => ?_⟩
  · obtain ⟨before, s, values, reaches, last⟩ := reaches_of_evaluate_eq_formula set ordered failed
    refine ⟨before, s, values, reaches, last, ?_⟩
    rintro id p o rfl x argument absent
    obtain ⟨reason, failed, same⟩ := apply_eq_error.mp last
    cases same
    have known := reaches.isSome_argument supplied argument
    simp [Formula.unbound_of_substitute failed x absent] at known
  · rw [construct_eq distinct]
    exact constructOwn_ne_unset supplied

theorem arguments_have_values_works :
    ∃ before o values,
      Reaches works (millAndKiln.queued ["mill", "kiln"]) 10 before (.output "kiln" kiln o) values ∧
        o.name = "share" ∧ kiln.methodArgs = ["fuel", "meal"] ∧
          (∀ x ∈ kiln.methodArgs, (values.get? x).isSome) ∧
            ∀ x, construct works (millAndKiln.queued ["mill", "kiln"]) 10 ≠ .error (.unset x) := by
  have checked : millAndKiln.check = .ok () := by cbv
  have ordered : millAndKiln.executionQueue = .ok ["mill", "kiln"] := by with_unfolding_all rfl
  obtain ⟨valued, -, -, unset⟩ := arguments_have_values built_millAndKiln rfl checked ordered 10
  rw [queued_millAndKiln] at valued unset ⊢
  have ran : ((steps works [("mill", mill), ("kiln", kiln)] 10).take 9).foldlM (Step.run works) [] =
      .ok [("heat", 30), ("fuel", 20), ("meal", 10), ("ore", 3), ("goal", 10), ("loss", 4), ("rate", 2)] := by
    cbv
  have reaches : Reaches works [("mill", mill), ("kiln", kiln)] 10
      ((steps works [("mill", mill), ("kiln", kiln)] 10).take 9) (.output "kiln" kiln kiln.operations[1]) _ :=
    ⟨⟨works.closing.map .closing, by cbv⟩, ran⟩
  exact ⟨_, _, _, reaches, by cbv, by cbv, valued _ _ _ _ _ reaches, unset (by decide)⟩

def taker : Process ℚ where
  name := "taker"
  shortName := "taker"
  inputs := [{ name := "a", origin := "p" }]
  outputs := [{ name := "c", args := [⟨"a", .inputs, ""⟩], operation := "a" }]
  operations := [⟨{ name := "c" }, .name "a", [⟨"a", .inputs, ""⟩], []⟩]

theorem compile_taker : taker.toProcessRecord.compile = .ok taker := by with_unfolding_all rfl

theorem argument_left_unset :
    let i := plant [("p", relay "m" "a" 1), ("q", relay "m" "b" 2), ("r", taker)]
    Built i ∧ i.check = .ok () ∧ i.executionQueue = .ok ["p", "q", "r"] ∧
      (∃ values, i.evaluate 10 = .ok values ∧ values.get? "c" = some 1) ∧
        construct driver (i.queued ["p", "q", "r"]) 10 = .error (.unset "a") := by
  intro i
  refine ⟨built_plant (by decide) (by simp [compile_relay, compile_taker]), by cbv, by cbv, ?_, by cbv⟩
  exact ⟨[("c", 1), ("b", 1), ("a", 1), ("x", 1), ("goal", 10)], by cbv, by cbv⟩

end Industry

end Flowsheet
