import Flowsheet.Proofs.Compiler.Stages
import Flowsheet.Proofs.Document.Identified
import Flowsheet.Proofs.Evaluation.Golden
import Flowsheet.Task.Handler

set_option autoImplicit false

namespace Flowsheet

/-- A failure that lasts: every cause is permanent, but for an unknown process in an input that
does not fit. -/
structure Lasting (f : Failure) : Prop where
  caused : f.causes ≠ []
  lasts : ∀ c ∈ f.causes, c ∈ Task.permanentCauses ∨ c = .unknownProcess ∧ .unitMismatch ∈ f.causes

namespace Lasting

variable {f : Failure}

theorem of {cause : Cause} {message : String} (permanent : cause ∈ Task.permanentCauses) :
    Lasting (.of cause message) :=
  ⟨by simp [Failure.of], by simpa [Failure.of] using .inl permanent⟩

theorem within (lasting : Lasting f) (context : String) : Lasting (f.within context) :=
  ⟨lasting.caused, lasting.lasts⟩

theorem because (lasting : Lasting f) {cause : Cause} (permanent : cause ∈ Task.permanentCauses)
    (context : String) : Lasting (f.because cause context) := by
  refine ⟨by simp [Failure.because], fun c inside => ?_⟩
  rcases List.mem_cons.mp inside with rfl | inside
  · exact .inl permanent
  · exact (lasting.lasts c inside).imp_right fun ⟨same, other⟩ => ⟨same, List.mem_cons_of_mem _ other⟩

theorem collect {fs : List Failure} (all : ∀ g ∈ fs, Lasting g) (collected : Failure.collect fs = some f) :
    Lasting f := by
  match fs, collected with
  | [g], collected =>
    cases collected
    exact all f (by simp)
  | g :: g' :: fs, collected =>
    cases collected
    refine ⟨by simp [(all g (by simp)).caused], fun c inside => ?_⟩
    obtain ⟨h, member, inside⟩ := List.mem_flatMap.mp inside
    exact ((all h member).lasts c inside).imp_right
      fun ⟨same, other⟩ => ⟨same, List.mem_flatMap.mpr ⟨h, member, other⟩⟩

theorem isPermanent (lasting : Lasting f) : Task.isPermanent f = true := by
  obtain ⟨c, inside⟩ := List.exists_mem_of_ne_nil _ lasting.caused
  refine List.any_eq_true.mpr ?_
  rcases lasting.lasts c inside with permanent | ⟨-, mismatch⟩
  · exact ⟨c, inside, List.contains_iff_mem.mpr permanent⟩
  · exact ⟨.unitMismatch, mismatch, by decide⟩

theorem notMem (lasting : Lasting f) {c : Cause} (foreign : c ∉ Task.permanentCauses)
    (other : c ≠ .unknownProcess) : c ∉ f.causes := by
  intro inside
  rcases lasting.lasts c inside with permanent | ⟨same, -⟩
  · exact foreign permanent
  · exact other same

end Lasting

structure FailsForGood {α : Type} (r : Except Failure α) : Prop where
  lasting : ∀ f, r = .error f → Lasting f

namespace FailsForGood

variable {α β : Type}

theorem ok (a : α) : FailsForGood (.ok a : Except Failure α) := ⟨nofun⟩

theorem error {f : Failure} (lasting : Lasting f) : FailsForGood (.error f : Except Failure α) := by
  refine ⟨?_⟩
  rintro g ⟨rfl⟩
  exact lasting

theorem bind {r : Except Failure α} {next : α → Except Failure β} (first : FailsForGood r)
    (rest : ∀ a, r = .ok a → FailsForGood (next a)) : FailsForGood (r >>= next) := by
  refine ⟨fun f failed => ?_⟩
  rcases bind_eq_error.mp failed with here | ⟨a, done, there⟩
  · exact first.lasting f here
  · exact (rest a done).lasting f there

theorem mapError {ε : Type} {r : Except ε α} {g : ε → Failure} (lasting : ∀ e, r = .error e → Lasting (g e)) :
    FailsForGood (r.mapError g) := by
  cases r with
  | ok a => exact ok a
  | error e => exact error (lasting e rfl)

theorem within {r : Except Failure α} (fails : FailsForGood r) (context : String) :
    FailsForGood (r.mapError (·.within context)) :=
  mapError fun f failed => (fails.lasting f failed).within context

theorem forM {f : α → Except Failure Unit} {xs : List α} (each : ∀ x ∈ xs, FailsForGood (f x)) :
    FailsForGood (xs.forM f) := by
  induction xs with
  | nil => exact ok ()
  | cons x xs ih =>
    rw [List.forM_eq_forM, List.forM_cons]
    obtain ⟨here, later⟩ := List.forall_mem_cons.mp each
    exact here.bind fun _ _ => ih later

theorem mapM {f : α → Except Failure β} {xs : List α} (each : ∀ x ∈ xs, FailsForGood (f x)) :
    FailsForGood (xs.mapM f) := by
  refine ⟨fun e failed => ?_⟩
  obtain ⟨before, x, after, ys, rfl, -, here⟩ := mapM_eq_error.mp failed
  exact (each x (by simp)).lasting e here

theorem foldlM {f : β → α → Except Failure β} {xs : List α} {s : β}
    (each : ∀ x ∈ xs, ∀ s, FailsForGood (f s x)) : FailsForGood (xs.foldlM f s) := by
  refine ⟨fun e failed => ?_⟩
  obtain ⟨before, x, after, t, rfl, -, here⟩ := foldlM_eq_error.mp failed
  exact (each x (by simp) t).lasting e here

end FailsForGood

section Records

variable {N : Type} [Quantity N]

theorem Range.validate_fails (r : Range N) : FailsForGood r.validate := by
  unfold Range.validate
  split
  · split
    · exact .error (.of (by decide))
    · exact .ok ()
  · exact .error (.of (by decide))

theorem checkRange_fails (what name owner : String) (range : Option (Range N)) (shown : String) (declared : List N) :
    FailsForGood (checkRange what name owner range shown declared) := by
  cases range with
  | none => exact .ok ()
  | some r =>
    refine ((Range.validate_fails r).within _).bind fun _ _ => ?_
    split
    · exact .ok ()
    · exact .error (.of (by decide))

theorem ProcessRecord.validate_fails (p : ProcessRecord N) : FailsForGood p.validate :=
  (FailsForGood.forM fun _ _ => checkRange_fails ..).bind fun _ _ =>
    (FailsForGood.forM fun _ _ => checkRange_fails ..).bind fun _ _ => .forM fun _ _ => checkRange_fails ..

theorem IndustryRecord.validate_fails (r : IndustryRecord N) : FailsForGood r.validate := by
  refine r.toProcessRecord.validate_fails.bind fun _ _ => ?_
  split
  · exact .error (.of (by decide))
  · split
    · exact .ok ()
    next range _ => exact (Range.validate_fails range).within _

theorem checkDistinct_fails (what owner : String) (names : List String) :
    FailsForGood (checkDistinct what owner names) := by
  unfold checkDistinct
  split
  · exact .ok ()
  · exact .error (.of (by decide))

theorem ProcessRecord.checkNames_fails {N : Type} (p : ProcessRecord N) : FailsForGood p.checkNames :=
  (checkDistinct_fails ..).bind fun _ _ => checkDistinct_fails ..

theorem Operation.compile_fails (owner : String) (item : Item N) : FailsForGood (Operation.compile owner item) := by
  unfold Operation.compile
  split
  · exact .error ((Lasting.of (by decide)).within _)
  · split
    · exact .ok _
    · exact .error (.of (by decide))

theorem Process.checkArgs_fails {N : Type} (p : ProcessRecord N) (o : Operation N) : FailsForGood (checkArgs p o) := by
  unfold checkArgs
  split
  · exact .ok ()
  · exact .error (.of (by decide))

theorem ProcessRecord.compile_fails (p : ProcessRecord N) : FailsForGood p.compile := by
  refine p.validate_fails.bind fun _ _ => p.checkNames_fails.bind fun _ _ => ?_
  refine (FailsForGood.mapM fun o _ => ?_).bind fun _ _ => .ok _
  exact (Operation.compile_fails ..).bind fun o _ => (Process.checkArgs_fails p o).bind fun _ _ => .ok _

theorem MetaProcess.compileDemands_fails (owner : String) (seen : List String) (ds : List (Demand N)) :
    FailsForGood (compileDemands owner seen ds) := by
  induction ds generalizing seen with
  | nil => exact .ok []
  | cons d ds ih =>
    unfold compileDemands
    split
    · exact .error (.of (by decide))
    · exact (Operation.compile_fails ..).bind fun _ _ => (ih _).bind fun _ _ => .ok _

theorem MetaProcess.compileClosing_fails (owner : String) (seen : List String) (items : List (Item N)) :
    FailsForGood (compileClosing owner seen items) := by
  induction items generalizing seen with
  | nil => exact .ok []
  | cons item items ih =>
    refine (Operation.compile_fails ..).bind fun o _ => ?_
    split
    · exact .error (.of (by decide))
    · exact (ih _).bind fun _ _ => .ok _

theorem IndustryRecord.compile_fails (r : IndustryRecord N) : FailsForGood r.compile :=
  r.validate_fails.bind fun _ _ => r.checkNames_fails.bind fun _ _ =>
    (MetaProcess.compileDemands_fails ..).bind fun _ _ =>
      (MetaProcess.compileClosing_fails ..).bind fun _ _ => .ok _

end Records

namespace Document

theorem undecodable_lasting (path : String) (e : Yaml.DecodeError) : Lasting (undecodable path e) := by
  cases e with
  | malformed => exact .of (by decide)
  | refused reason => exact (Lasting.of (by decide)).because (by decide) _

theorem decode_fails (path : String) (data : List UInt8) : FailsForGood (decode path data) := by
  have empty : Lasting (Document.empty path) := .of (by decide)
  refine (FailsForGood.mapError fun e _ => undecodable_lasting path e).bind fun parsed _ => ?_
  cases parsed with
  | none => exact .error empty
  | some tree =>
    refine (FailsForGood.mapError fun e _ => undecodable_lasting path e).bind fun top _ => ?_
    cases top with
    | none => exact .error empty
    | some raw => exact .ok _

theorem kind_fails (d : Document) : FailsForGood d.kind := by
  unfold kind
  split
  · exact .error (.of (by decide))
  · split
    · exact .ok _
    · exact .ok _
    · exact .error (.of (by decide))

theorem process_fails (d : Document) : FailsForGood d.process :=
  (FailsForGood.mapError fun e _ => undecodable_lasting d.path e).bind fun r _ =>
    r.validate_fails.bind fun _ _ => .ok r

theorem industry_fails (d : Document) : FailsForGood d.industry :=
  (FailsForGood.mapError fun e _ => undecodable_lasting d.path e).bind fun r _ =>
    r.validate_fails.bind fun _ _ => .ok r

theorem checkSchema_fails (d : Document) : FailsForGood d.checkSchema := by
  refine d.kind_fails.bind fun kind _ => ?_
  split
  · exact .error (.of (by decide))
  · split
    · exact .ok ()
    · exact .error ⟨by simp, by simp [Task.permanentCauses]⟩

end Document

section Texts

variable (answers : Template.Answers)

theorem Template.fill_fails (t : Template) (moment : Template.Moment) (values : List (String × List UInt8)) :
    FailsForGood (t.fill answers moment values) := by
  unfold fill execute
  split
  · exact .ok _
  · exact .error (.of (by decide))

theorem gettersText_fails (getter : Template) (items : List Labels) :
    FailsForGood (gettersText getter answers items) :=
  (FailsForGood.mapM fun _ _ => getter.fill_fails answers _ _).bind fun _ _ => .ok _

variable {N : Type} [Quantity N]

theorem Industry.processTexts_fails (ts : Templates) (id : String) (p : Process N) (new : List Labels) :
    FailsForGood (processTexts ts answers id p new) := by
  refine ((ts.process.fill_fails answers _ _).within _).bind fun _ _ => ?_
  split
  · exact .ok _
  · exact ((gettersText_fails ..).within _).bind fun _ _ => .ok _

end Texts

namespace Industry

variable {N : Type} {i : Industry N} {m : MetaProcess N}

theorem noProcess_lasting (text : String) : Lasting (noProcess text) :=
  ⟨by simp [noProcess], by simp [noProcess, Task.permanentCauses]⟩

theorem checkInput_fails (owner : String) (input : Input N) : FailsForGood (i.checkInput owner input) := by
  unfold checkInput
  split
  · exact .ok ()
  · split
    · exact .error (noProcess_lasting _)
    · split
      · exact .error (.of (by decide))
      · split
        · exact .error (.of (by decide))
        · exact .ok ()

theorem checkDemand_fails (owner : String) (d : Requirement N) : FailsForGood (i.checkDemand owner d) := by
  unfold checkDemand
  split
  · exact .error (noProcess_lasting _)
  · split
    · exact .error (.of (by decide))
    · split
      · exact .error (.of (by decide))
      · exact .ok ()

theorem checkSupplied_fails (m : MetaProcess N) (id : String) (p : Process N) :
    FailsForGood (checkSupplied m id p) := by
  unfold checkSupplied
  split
  · exact .ok ()
  · exact .error (.of (by decide))

theorem requireMeta_eq (set : i.metaProcess = some m) : i.requireMeta = .ok m := by
  rw [requireMeta, set]

theorem check_fails (set : i.metaProcess = some m) : FailsForGood i.check := by
  unfold check
  rw [requireMeta_eq set]
  exact (FailsForGood.forM fun _ _ => checkInput_fails ..).bind fun _ _ =>
    (FailsForGood.forM fun _ _ => .forM fun _ _ => checkInput_fails ..).bind fun _ _ =>
      (FailsForGood.forM fun _ _ => checkDemand_fails ..).bind fun _ _ =>
        .forM fun _ _ => checkSupplied_fails ..

theorem isSome_source {e : Edge} (set : i.metaProcess = some m) (checked : i.check = .ok ())
    (edge : e ∈ i.wishedEdges) : (i.process? e.source).isSome := by
  simp only [wishedEdges, List.mem_flatMap, List.mem_map, Process.dependencies, List.mem_eraseDups,
    List.mem_filter] at edge
  obtain ⟨⟨id, p⟩, inside, d, ⟨input, ⟨member, external⟩, rfl⟩, rfl⟩ := edge
  obtain ⟨q, found, -⟩ := output_of_checkInput ((check_eq_ok set checked).1 _ inside input member) external
  exact Option.isSome_iff_exists.mpr ⟨q, found⟩

theorem addEdge_fault {edges : List Edge} {e : Edge} {fault : GraphFault} (known : (i.process? e.source).isSome)
    (failed : i.addEdge edges e = .error fault) : Lasting fault.failure := by
  unfold addEdge at failed
  split at failed
  · cases failed
    exact .of (by decide)
  · rw [if_neg (by simpa [Option.isSome_iff_ne_none] using known)] at failed
    split at failed
    · cases failed
      exact .of (by decide)
    · split at failed
      · cases failed
        exact .of (by decide)
      · cases failed

theorem executionQueue_fault {fault : GraphFault} (set : i.metaProcess = some m) (checked : i.check = .ok ())
    (named : "" ∉ i.ids) (failed : i.executionQueue = .error fault) : Lasting fault.failure := by
  rcases bind_eq_error.mp failed with unsorted | ⟨edges, -, failed⟩
  · obtain ⟨before, e, after, edges, wished, -, refused⟩ := foldlM_eq_error.mp unsorted
    exact addEdge_fault (isSome_source set checked (by simp [wished])) refused
  · rw [if_neg (by simpa using named)] at failed
    dsimp only at failed
    split at failed
    · cases failed
      exact .of (by decide)
    · cases failed

theorem executionQueue_fails (set : i.metaProcess = some m) (checked : i.check = .ok ()) (named : "" ∉ i.ids) :
    FailsForGood (i.executionQueue.mapError (·.failure)) :=
  .mapError fun _ failed => executionQueue_fault set checked named failed

variable [Quantity N] {queue : List String}

theorem step_fault {s : Step N} {vs : Values N} {fault : EvaluateError N} (failed : s.run m vs = .error fault) :
    Lasting fault.failure := by
  have applied {owner : String} {o : Operation N} (failed : apply owner vs o = .error fault) :
      Lasting fault.failure := by
    obtain ⟨reason, -, rfl⟩ := apply_eq_error.mp failed
    cases reason with
    | unbound | divisionByZero => exact (Lasting.of (by decide)).within _
  cases s with
  | demand | output | closing => exact applied failed
  | constant | outcome | preset => cases failed

theorem evaluate_fault {outcome : N} {fault : EvaluateError N} (set : i.metaProcess = some m)
    (ordered : i.executionQueue = .ok queue) (failed : i.evaluate outcome = .error fault) :
    Lasting fault.failure := by
  rw [evaluate_eq_foldlM set ordered] at failed
  split at failed
  · cases failed
    exact .of (by decide)
  · obtain ⟨_, s, _, vs, -, -, refused⟩ := foldlM_eq_error.mp failed
    exact step_fault refused

theorem mismatches_lasting (set : i.metaProcess = some m) (ordered : i.executionQueue = .ok queue) (outcome : N)
    (n : Nat) : ∀ f ∈ i.mismatches m outcome n, Lasting f := by
  unfold mismatches
  cases evaluated : i.evaluate outcome with
  | error fault => simpa using evaluate_fault set ordered evaluated
  | ok vs =>
    intro f inside
    obtain ⟨⟨owner, os⟩, -, inside⟩ := List.mem_flatMap.mp inside
    obtain ⟨o, -, found⟩ := List.mem_filterMap.mp inside
    unfold mismatch? at found
    split at found
    · cases found
    · dsimp only at found
      split at found
      · cases found
        exact .of (by decide)
      · cases found

theorem verify_fails (set : i.metaProcess = some m) (ordered : i.executionQueue = .ok queue) :
    FailsForGood i.verify := by
  refine ⟨fun f failed => ?_⟩
  simp only [verify, requireMeta_eq set, Bind.bind, Except.bind] at failed
  split at failed
  · cases failed
  next g gathered =>
    obtain rfl := Except.error.inj failed
    refine Lasting.collect (fun h inside => ?_) gathered
    obtain ⟨⟨x, n⟩, -, inside⟩ := List.mem_flatMap.mp inside
    exact mismatches_lasting set ordered x n h inside

theorem script_fails (set : i.metaProcess = some m) (ordered : i.executionQueue = .ok queue) (ts : Templates)
    (answers : Template.Answers) : FailsForGood (i.script ts answers) := by
  unfold script
  rw [requireMeta_eq set, ordered]
  refine ((gettersText_fails ..).within _).bind fun _ _ => ?_
  refine (FailsForGood.mapM fun _ _ => processTexts_fails ..).bind fun _ _ => ?_
  exact (ts.industry.fill_fails answers _ _).within _

end Industry

namespace Compiler

variable {c : Compiler} {answers : Template.Answers}

theorem finish_fails {i : Industry Float} {m : MetaProcess Float} (set : i.metaProcess = some m)
    (checked : i.check = .ok ()) (named : "" ∉ i.ids) : FailsForGood (c.finish answers i) := by
  refine (Industry.executionQueue_fails set checked named).bind fun queue done => ?_
  have ordered := mapError_eq_ok.mp done
  have written := (Industry.script_fails set ordered c.templates answers).bind fun script _ =>
    .ok ((i.metaProcess.map (·.shortName)).getD "", script, queue)
  dsimp only
  split
  · exact (Industry.verify_fails set ordered).bind fun _ _ => written
  · exact written

theorem gather_fails {g : Gathered} {d : Document} : FailsForGood (gather .schema g d) := by
  refine d.checkSchema_fails.bind fun _ _ => d.kind_fails.bind fun kind _ => ?_
  cases kind with
  | process => exact d.process_fails.bind fun _ _ => .ok _
  | industry =>
    dsimp only
    split
    · exact .error (.of (by decide))
    · exact d.industry_fails.bind fun _ _ => .ok _

theorem gatherAll_fails {g : Gathered} {docs : List Document} : FailsForGood (gatherAll .schema g docs).2 := by
  induction docs generalizing g with
  | nil => exact .ok g
  | cons d docs ih =>
    unfold gatherAll
    split
    next f failed => exact .error (gather_fails.lasting f failed)
    next g' _ => exact ih

theorem register_fails (i : Industry Float) (r : ProcessRecord Float) : FailsForGood (register i r) := by
  refine r.compile_fails.bind fun p _ => ?_
  unfold Industry.addProcess
  split
  · exact .error (.of (by decide))
  · exact .ok _

theorem foldlM_register {rs : List (ProcessRecord Float)} {i j : Industry Float}
    (done : rs.foldlM register i = .ok j) :
    j.metaProcess = i.metaProcess ∧ j.ids = i.ids ++ rs.map (·.id) := by
  induction rs generalizing i with
  | nil =>
    cases done
    simp
  | cons r rs ih =>
    obtain ⟨i', first, rest⟩ := foldlM_cons_eq_ok.mp done
    obtain ⟨p, -, added⟩ := bind_eq_ok.mp first
    obtain ⟨-, rfl⟩ := Industry.addProcess_eq_ok.mp added
    obtain ⟨set, ids⟩ := ih rest
    exact ⟨set, by rw [ids]; simp [Industry.ids]⟩

theorem assemble_fails (dir : String) (g : Gathered) : FailsForGood (c.assemble dir g) := by
  unfold assemble
  split
  · exact .error (.of (by decide))
  next path r _ =>
    refine r.compile_fails.bind fun m _ => ?_
    refine (FailsForGood.foldlM fun r _ i => register_fails i r).bind fun i done => ?_
    exact (Industry.check_fails (foldlM_register done).1).bind fun _ _ => .ok i

theorem assemble_eq_ok {dir : String} {g : Gathered} {i : Industry Float} (done : c.assemble dir g = .ok i) :
    (∃ m, i.metaProcess = some m) ∧ i.check = .ok () ∧ i.ids = g.processes.map (·.id) := by
  unfold assemble at done
  split at done
  · cases done
  · obtain ⟨m, -, done⟩ := bind_eq_ok.mp done
    obtain ⟨i', registered, done⟩ := bind_eq_ok.mp done
    obtain ⟨_, checked, done⟩ := bind_eq_ok.mp done
    cases done
    obtain ⟨set, ids⟩ := foldlM_register registered
    exact ⟨⟨m, set⟩, checked, by simpa [Industry.ids] using ids⟩

theorem gather_named {g g' : Gathered} {d : Document} (top : d.tree.topMap = .ok (some d.raw))
    (named : ∀ r ∈ g.processes, r.id ≠ "") (done : gather .schema g d = .ok g') :
    ∀ r ∈ g'.processes, r.id ≠ "" := by
  obtain ⟨_, sound, done⟩ := bind_eq_ok.mp done
  obtain ⟨kind, known, done⟩ := bind_eq_ok.mp done
  cases kind with
  | process =>
    obtain ⟨r, read, done⟩ := bind_eq_ok.mp done
    cases done
    intro r' inside
    rcases List.mem_append.mp inside with earlier | last
    · exact named r' earlier
    · obtain rfl : r' = r := by simpa using last
      exact Document.id_ne_empty top sound known read
  | industry =>
    dsimp only at done
    split at done
    · cases done
    · obtain ⟨r, -, done⟩ := bind_eq_ok.mp done
      cases done
      exact named

theorem gatherAll_named {docs : List Document} {g g' : Gathered}
    (tops : ∀ d ∈ docs, d.tree.topMap = .ok (some d.raw)) (named : ∀ r ∈ g.processes, r.id ≠ "")
    (done : (gatherAll .schema g docs).2 = .ok g') : ∀ r ∈ g'.processes, r.id ≠ "" := by
  induction docs generalizing g with
  | nil =>
    cases done
    exact named
  | cons d docs ih =>
    obtain ⟨here, later⟩ := List.forall_mem_cons.mp tops
    unfold gatherAll at done
    split at done
    · cases done
    next next gathered => exact ih later (gather_named here named gathered) done

theorem product_fails {dir : String} {docs : List Document} (schema : c.validator = .schema)
    (tops : ∀ d ∈ docs, d.tree.topMap = .ok (some d.raw)) : FailsForGood (c.product answers dir docs) := by
  have built : (c.build dir docs).2 = (gatherAll .schema {} docs).2.bind (c.assemble dir) := by
    unfold build
    rw [schema]
  unfold product
  rw [built]
  refine (gatherAll_fails.bind fun g gathered => assemble_fails dir g).bind fun i done => ?_
  obtain ⟨g, gathered, assembled⟩ := bind_eq_ok.mp done
  obtain ⟨⟨m, set⟩, checked, ids⟩ := assemble_eq_ok assembled
  refine finish_fails set checked ?_
  rw [ids]
  intro blank
  obtain ⟨r, inside, unnamed⟩ := List.mem_map.mp blank
  exact gatherAll_named tops (by simp) gathered r inside unnamed

end Compiler

end Flowsheet
