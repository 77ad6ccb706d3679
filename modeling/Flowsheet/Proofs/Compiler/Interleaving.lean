import Flowsheet.Proofs.Compiler.Batch
import Mathlib.Algebra.Order.BigOperators.Group.Finset

set_option autoImplicit false

namespace Flowsheet

theorem Compiled.filename_essence (r : Compiled) : r.essence.filename = r.filename := rfl

theorem Compiled.script_essence (r : Compiled) : r.essence.script = r.script := rfl

theorem Compiled.map_filename (rs : List Compiled) :
    rs.map Compiled.filename = (rs.map Compiled.essence).map Compiled.filename := by
  rw [List.map_map]
  rfl

namespace Compiler

open Artifact Relation

namespace Plan

/-- The plan with no store to ask, and with one job at a time. -/
def sequential (p : Plan) : Plan := { p with compiler := { p.compiler with cache := none }, limit := 1 }

/-- What the job of a directory returns if there is nothing but it. -/
def alone (p : Plan) (s : Site) (dir : String) : Except Failure Compiled :=
  (p.sequential.compiler.jobBy p.env dir s).2

variable {p : Plan} {s : Site} {b b' : Batch} {dir : String} {i : Nat} {r : Compiled}
  {made : Files} {place : List String}

theorem Foreseen.alone {x : Stage} {y : Except Failure Compiled} (foreseen : p.Foreseen s dir x)
    (ended : x.outcome = some y) : (p.alone s dir).map Compiled.essence =
      (y.mapError (·.within s!"industry {Path.base dir}")).map Compiled.essence := by
  have files := @Call.files_run s (p.call dir).withoutCache
  cases compiled : (p.call dir).withoutCache.run s with
  | mk s' result =>
    have compiles : p.sequential.compiler.compile dir (p.env.ctx dir) s = (s', result) := compiled
    rw [compiled] at files
    cases x with
    | waiting | started => cases ended
    | failed f =>
      cases ended
      obtain rfl : result = .error f := by rw [← foreseen, compiled]
      rw [Plan.alone, jobBy_of_error compiles]
      rfl
    | writing r w =>
      obtain ⟨made, verdict⟩ := foreseen
      rw [compiled] at made
      obtain ⟨r', rfl, same⟩ := map_eq_ok.mp made
      have name : r'.filename = r.filename := by rw [← r'.filename_essence, same, r.filename_essence]
      have script : r'.script = r.script := by rw [← r'.script_essence, same, r.script_essence]
      -- Alone it writes the same script under the same name, over the same files.
      have writes : (trace (p.env.fails dir) s'.files p.sequential.compiler.settings.outputPath r'.filename
          (r'.script)).2 = (p.replacement dir r).verdict s.files w := by
        rw [verdict, Replacement.verdict_begun, files, name, script]
        rfl
      rw [Plan.alone, jobBy_of_ok compiles]
      dsimp only
      rw [writes]
      cases w with
      | begun | placed | opened | filled | closed | published => cases ended
      | ended last =>
        cases last with
        | error f =>
          cases ended
          rfl
        | ok path =>
          cases ended
          exact congrArg Except.ok same

theorem Orderly.pick {α : Type} {pick : Except Failure Compiled → Option α} (orderly : p.Orderly s b)
    (complete : p.Complete b) (unmarked : ∀ x y : Except Failure Compiled,
      x.map Compiled.essence = y.map Compiled.essence → pick x = pick y) :
    (p.dirs.zipIdx.filterMap fun x => (p.returned b x).bind pick) =
      p.dirs.filterMap fun dir => pick (p.alone s dir) := by
  have apart : p.dirs = p.dirs.zipIdx.map Prod.fst := (List.zipIdx_map_fst 0 p.dirs).symm
  conv_rhs => rw [apart, List.filterMap_map]
  refine List.filterMap_congr fun ⟨dir, i⟩ inside => ?_
  have here : p.dirs[i]? = some dir := List.mem_zipIdx_iff_getElem?.mp inside
  have small : i < p.dirs.length := (List.getElem?_eq_some_iff.mp here).1
  obtain ⟨y, ended⟩ := Option.ne_none_iff_exists'.mp (complete i small)
  have same := (orderly.foreseen i dir here).alone ended
  rw [returned, ended]
  exact (unmarked _ _ same).symm

theorem Orderly.results_eq (orderly : p.Orderly s b) (complete : p.Complete b) :
    (p.results b).map Compiled.essence = p.dirs.filterMap fun dir => (p.alone s dir).toOption.map Compiled.essence := by
  rw [results, List.map_filterMap]
  have picked := @Orderly.pick p s b _ (fun x => x.toOption.map Compiled.essence) orderly complete ?_
  · rw [← picked]
    refine List.filterMap_congr fun x _ => ?_
    cases p.returned b x with
    | none => rfl
    | some y => rfl
  · rintro (f | r) (f' | r') same
    · rfl
    · cases same
    · cases same
    · exact congrArg Option.some (Except.ok.inj same)

theorem Orderly.failures_eq (orderly : p.Orderly s b) (complete : p.Complete b) :
    p.failures b = p.dirs.filterMap fun dir => fault (p.alone s dir) := by
  refine orderly.pick complete ?_
  rintro (f | r) (f' | r') same
  · exact congrArg Option.some (Except.error.inj same)
  · cases same
  · cases same
  · rfl

theorem mem_results : r ∈ p.results b ↔
    ∃ (i : Nat) (dir : String), p.dirs[i]? = some dir ∧ (b.stage i).outcome = some (.ok r) := by
  rw [results, List.mem_filterMap]
  constructor
  · rintro ⟨⟨dir, i⟩, inside, picked⟩
    refine ⟨i, dir, List.mem_zipIdx_iff_getElem?.mp inside, ?_⟩
    rw [returned] at picked
    generalize (b.stage i).outcome = ended at picked
    obtain _ | f | r' := ended
    · cases picked
    · cases picked
    · cases picked
      rfl
  · rintro ⟨i, dir, here, ended⟩
    refine ⟨(dir, i), List.mem_zipIdx_iff_getElem?.mpr here, ?_⟩
    rw [returned, ended]
    rfl

theorem Orderly.held (orderly : p.Orderly s b) (complete : p.Complete b) (i : Nat) : (b.stage i).held = none := by
  cases here : p.dirs[i]? with
  | none =>
    rw [orderly.outside i here]
    rfl
  | some dir => exact (Stage.outcome_cases (complete i (List.getElem?_eq_some_iff.mp here).1)).1

theorem Orderly.kept (orderly : p.Orderly s b) (complete : p.Complete b) {n : String} {d : List UInt8} :
    (∃ i, (b.stage i).kept = some (n, d)) ↔ ∃ r ∈ p.results b, n = r.filename ∧ d = r.script := by
  constructor
  · rintro ⟨i, found⟩
    cases here : p.dirs[i]? with
    | none =>
      rw [orderly.outside i here] at found
      cases found
    | some dir =>
      obtain ⟨r, ended, same⟩ :=
        ((Stage.outcome_cases (complete i (List.getElem?_eq_some_iff.mp here).1)).2 n d).mp found
      exact ⟨r, mem_results.mpr ⟨i, dir, here, ended⟩, same⟩
  · rintro ⟨r, inside, same⟩
    obtain ⟨i, dir, here, ended⟩ := mem_results.mp inside
    have finished : (b.stage i).outcome ≠ none := by simp [ended]
    exact ⟨i, ((Stage.outcome_cases finished).2 n d).mpr ⟨r, ended, same⟩⟩

/-- What the files come to over a ground: each result has its file, and all else is as it was. -/
structure Delivered (ground : Files) (place : List String) (rs : List Compiled) (fs : Files) : Prop where
  artifact : ∀ r ∈ rs, IsArtifact r.filename
  here : ∀ r ∈ rs, fs.get? (place ++ [r.filename]) = some (.file { data := r.script })
  elsewhere : ∀ q, (∀ r ∈ rs, q ≠ place ++ [r.filename]) → fs.get? q = ground.get? q

theorem Delivered.agree {ground fs fs' : Files} {rs rs' : List Compiled} (own : Delivered ground place rs fs)
    (other : Delivered ground place rs' fs') (same : rs.map Compiled.essence = rs'.map Compiled.essence)
    (q : List String) :
    fs.get? q = fs'.get? q := by
  have others {rs rs' : List Compiled} (same : rs.map Compiled.essence = rs'.map Compiled.essence) :
      ∀ r ∈ rs, ∃ r' ∈ rs', r'.filename = r.filename ∧ r'.script = r.script := by
    intro r inside
    have there : r.essence ∈ rs'.map Compiled.essence := same ▸ List.mem_map_of_mem inside
    obtain ⟨r', inside', equal⟩ := List.mem_map.mp there
    exact ⟨r', inside', by rw [← r'.filename_essence, equal, r.filename_essence],
      by rw [← r'.script_essence, equal, r.script_essence]⟩
  by_cases artifact : ∃ r ∈ rs, q = place ++ [r.filename]
  next =>
    obtain ⟨r, inside, rfl⟩ := artifact
    obtain ⟨r', inside', name, script⟩ := others same r inside
    rw [own.here r inside, ← name, other.here r' inside', script]
  next =>
    push Not at artifact
    rw [own.elsewhere q artifact, other.elsewhere q fun r' inside' => ?_]
    obtain ⟨r, inside, name, -⟩ := others same.symm r' inside'
    rw [← name]
    exact artifact r inside

theorem Touched.delivered (touched : p.Touched s made place b) (orderly : p.Orderly s b) (complete : p.Complete b)
    (distinct : ((p.results b).map Compiled.filename).Nodup) : Delivered made place (p.results b) b.site.files where
  artifact r inside := by
    obtain ⟨i, found⟩ := (orderly.kept complete).mpr ⟨r, inside, rfl, rfl⟩
    exact (touched.layers.artifact i _ _ found).1
  here r inside := by
    obtain ⟨i, found⟩ := (orderly.kept complete).mpr ⟨r, inside, rfl, rfl⟩
    obtain ⟨-, -, j, d', last, there⟩ := touched.layers.artifact i _ _ found
    obtain ⟨r', inside', name, rfl⟩ := (orderly.kept complete).mp ⟨j, last⟩
    obtain rfl := List.inj_on_of_nodup_map distinct inside inside' name
    exact there
  elsewhere q other := by
    refine touched.layers.rest q (fun i t f found => ?_) fun i n d found => ?_
    · simp [orderly.held complete i] at found
    · obtain ⟨r, inside, rfl, -⟩ := (orderly.kept complete).mp ⟨i, found⟩
      exact other r inside

theorem Untouched.results_eq (untouched : p.Untouched s b) : p.results b = [] := by
  rw [List.eq_nil_iff_forall_not_mem]
  intro r inside
  obtain ⟨i, dir, here, ended⟩ := mem_results.mp inside
  cases stage : b.stage i with
  | waiting | started | failed => simp [stage, Stage.outcome] at ended
  | writing r' w =>
    rcases untouched.early i r' w stage with rfl | ⟨⟨f, rfl⟩, -⟩
    · simp [stage, Stage.outcome] at ended
    · simp [stage, Stage.outcome] at ended

theorem Untouched.not_touched (untouched : p.Untouched s b) (orderly : p.Orderly s b) (complete : p.Complete b)
    (orderly' : p.Orderly s b') (touched : p.Touched s made place b') : False := by
  obtain ⟨i, dir, r, w, here, writes, goes⟩ := touched.someone
  have foreseen' := orderly'.foreseen i dir here
  rw [writes] at foreseen'
  have foreseen := orderly.foreseen i dir here
  have ended := complete i (List.getElem?_eq_some_iff.mp here).1
  cases stage : b.stage i with
  | waiting | started => simp [stage, Stage.outcome] at ended
  | failed f =>
    rw [stage] at foreseen
    have made := foreseen'.1
    rw [foreseen] at made
    cases made
  | writing r' w' =>
    rcases untouched.early i r' w' stage with rfl | ⟨-, dir', here', fails | ⟨e, refused⟩⟩
    · simp [stage, Stage.outcome] at ended
    · obtain rfl := Option.some.inj (here.symm.trans here')
      simp [goes] at fails
    · simp [touched.makes] at refused

theorem Orderly.agree (orderly : p.Orderly s b) (complete : p.Complete b) (orderly' : p.Orderly s b')
    (complete' : p.Complete b') (distinct : ((p.results b).map Compiled.filename).Nodup) (q : List String) :
    b.site.files.get? q = b'.site.files.get? q := by
  have same : (p.results b).map Compiled.essence = (p.results b').map Compiled.essence := by
    rw [orderly.results_eq complete, orderly'.results_eq complete']
  have distinct' : ((p.results b').map Compiled.filename).Nodup := by
    rwa [Compiled.map_filename, ← same, ← Compiled.map_filename]
  -- Whether a directory is made does not depend on the order, nor does what it is made over.
  rcases orderly.files with untouched | ⟨made, place, touched⟩
  · rcases orderly'.files with untouched' | ⟨made, place, touched⟩
    · rw [untouched.files, untouched'.files]
    · exact (untouched.not_touched orderly complete orderly' touched).elim
  · rcases orderly'.files with untouched | ⟨made', place', touched'⟩
    · exact (untouched.not_touched orderly' complete' orderly touched).elim
    · obtain ⟨rfl, rfl⟩ := Prod.mk.inj (Except.ok.inj (touched.makes.symm.trans touched'.makes))
      exact (touched.delivered orderly complete distinct).agree (touched'.delivered orderly' complete' distinct') same q

theorem Orderly.read (orderly : p.Orderly s b) (sound : s.files.Sound) (complete : p.Complete b)
    (distinct : ((p.results b).map Compiled.filename).Nodup) (inside : r ∈ p.results b) :
    b.site.files.read (Path.join [p.compiler.settings.outputPath, r.filename]) = .ok r.script := by
  rcases orderly.files with untouched | ⟨made, place, touched⟩
  · rw [untouched.results_eq] at inside
    cases inside
  · have delivered := touched.delivered orderly complete distinct
    have found := (Files.made_of_makeDirectories touched.makes sound).found _ touched.layers.extends_ground
    rw [Files.read_join found (delivered.artifact r inside).proper (delivered.here r inside)]
    exact if_pos (by decide : Nat.testBit 0o644 8 = true)

theorem steps_write {b : Batch} {t : Site} {w w' : Writing} {fs : Files} (here : p.dirs[i]? = some dir)
    (advances : ReflTransGen (p.replacement dir r).Advances (t.files, w) (fs, w')) :
    ReflTransGen p.Step (b.put t i (.writing r w)) (b.put { t with files := fs } i (.writing r w')) := by
  let at' (x : Files × Writing) : Batch := b.put { t with files := x.1 } i (.writing r x.2)
  change ReflTransGen p.Step (at' (t.files, w)) (at' (fs, w'))
  refine advances.lift at' ?_
  rintro ⟨gs, v⟩ ⟨gs', v'⟩ advances
  have step : p.Step (at' (gs, v)) _ := .write here Batch.stage_put_self advances
  rwa [Batch.put_put] at step

theorem steps_job (fresh : p.compiler.cache = none) (here : p.dirs[i]? = some dir) (started : b.stage i = .started) :
    ∃ x, ReflTransGen p.Step b (b.put (p.compiler.jobBy p.env dir b.site).1 i x) ∧ x.outcome ≠ none ∧
      x.outcome.map (·.mapError (·.within s!"industry {Path.base dir}")) =
        some (p.compiler.jobBy p.env dir b.site).2 := by
  have compiles : p.Step b _ := .compile here started (Call.honest_of_none fresh)
  have run : (p.call dir).run b.site = p.compiler.compile dir (p.env.ctx dir) b.site := rfl
  rw [run] at compiles
  rcases compiled : p.compiler.compile dir (p.env.ctx dir) b.site with ⟨s', f | r⟩
  · rw [compiled] at compiles
    rw [jobBy_of_error compiled]
    exact ⟨.failed f, .single compiles, nofun, rfl⟩
  · rw [compiled] at compiles
    rw [jobBy_of_ok compiled]
    have writes := (p.replacement dir r).advances_trace s'.files
    refine ⟨_, (ReflTransGen.single compiles).trans (steps_write here writes), ?_⟩
    dsimp only [replacement]
    cases (trace (p.env.fails dir) s'.files p.compiler.settings.outputPath r.filename r.script).2 with
    | error f => exact ⟨nofun, rfl⟩
    | ok path => exact ⟨nofun, rfl⟩

theorem steps_jobs (fresh : p.compiler.cache = none) (room : 0 < p.limit) (past rest : List String) (b : Batch)
    (whole : p.dirs = past ++ rest) (ended : ∀ j < past.length, (b.stage j).outcome ≠ none)
    (waits : ∀ j, past.length ≤ j → b.stage j = .waiting) :
    ∃ b', ReflTransGen p.Step b b' ∧ p.Complete b' ∧ (∀ j < past.length, b'.stage j = b.stage j) ∧
      b'.site = (p.compiler.jobsBy p.env rest b.site).1 ∧
      ((rest.zipIdx past.length).filterMap fun x => (p.returned b' x).bind Except.toOption) =
        (p.compiler.jobsBy p.env rest b.site).2.1 ∧
      ((rest.zipIdx past.length).filterMap fun x => (p.returned b' x).bind fault) =
        (p.compiler.jobsBy p.env rest b.site).2.2 := by
  -- What has ended stays as it is, so the rest may be done as if it were all there is.
  induction rest generalizing past b with
  | nil =>
    refine ⟨b, .refl, fun j small => ended j ?_, fun _ _ => rfl, rfl, rfl, rfl⟩
    simpa [whole] using small
  | cons dir rest ih =>
    have here : p.dirs[past.length]? = some dir := by simp [whole]
    have idle : p.active b = 0 := by
      rw [active, List.countP_eq_zero]
      intro j _
      by_cases small : j < past.length
      next => simp [Stage.idle_of_outcome (ended j small)]
      next => simp [waits j (by omega), Stage.isActive]
    have starts : p.Step b (b.put b.site past.length .started) :=
      .start here (waits _ (le_refl _)) (fun j small => (Stage.idle_of_outcome (ended j small)).2) (by omega)
    obtain ⟨x, runs, finished, outcome⟩ :=
      steps_job fresh here (@Batch.stage_put_self b b.site past.length .started)
    rw [Batch.put_put, Batch.site_put] at runs
    rw [Batch.site_put] at outcome
    let next : Batch := b.put (p.compiler.jobBy p.env dir b.site).1 past.length x
    have count : (past ++ [dir]).length = past.length + 1 := by simp
    have ended' : ∀ j < (past ++ [dir]).length, (next.stage j).outcome ≠ none := by
      intro j small
      by_cases same : j = past.length
      next => rwa [same, Batch.stage_put_self]
      next =>
        rw [Batch.stage_put_of_ne same]
        exact ended j (by omega)
    have waits' : ∀ j, (past ++ [dir]).length ≤ j → next.stage j = .waiting := by
      intro j large
      rw [Batch.stage_put_of_ne (by omega)]
      exact waits j (by omega)
    obtain ⟨b', steps, complete, untouched, site, results, failures⟩ :=
      ih (past ++ [dir]) next (by simp [whole]) ended' waits'
    rw [count] at untouched results failures
    have mine : p.returned b' (dir, past.length) = some (p.compiler.jobBy p.env dir b.site).2 := by
      rw [returned, untouched _ (Nat.lt_succ_self _), Batch.stage_put_self]
      exact outcome
    refine ⟨b', (ReflTransGen.single starts).trans (runs.trans steps), complete, fun j small => ?_, ?_⟩
    · rw [untouched j (by omega), Batch.stage_put_of_ne (by omega)]
    · rw [Batch.site_put] at site results failures
      rw [List.zipIdx_cons, List.filterMap_cons, List.filterMap_cons, mine, results, failures, site, jobsBy_cons]
      obtain ⟨s', f | r⟩ := p.compiler.jobBy p.env dir b.site
      · exact ⟨rfl, rfl, rfl⟩
      · exact ⟨rfl, rfl, rfl⟩

theorem steps_sequential (s : Site) : ∃ b, ReflTransGen p.sequential.Step (.start s) b ∧ p.Complete b ∧
    b.site = (p.sequential.compiler.jobsBy p.env p.dirs s).1 ∧
    p.results b = (p.sequential.compiler.jobsBy p.env p.dirs s).2.1 ∧
    p.failures b = (p.sequential.compiler.jobsBy p.env p.dirs s).2.2 := by
  have room : 0 < p.sequential.limit := Nat.one_pos
  obtain ⟨b, steps, complete, -, rest⟩ :=
    @steps_jobs p.sequential rfl room [] p.dirs (.start s) rfl nofun fun _ _ => rfl
  exact ⟨b, steps, complete, rest⟩

theorem Orderly.of_sequential (orderly : p.sequential.Orderly s b) : p.Orderly s b where
  outside := orderly.outside
  foreseen i dir here := by
    have foreseen := orderly.foreseen i dir here
    generalize b.stage i = x at foreseen
    cases x with
    | waiting | started => trivial
    | failed f => exact foreseen
    | writing r w => exact foreseen
  files := orderly.files.imp (fun untouched => ⟨untouched.files, untouched.early⟩)
    fun ⟨made, place, touched⟩ => ⟨made, place, touched.makes, touched.someone, touched.layers, touched.sits⟩

def left (p : Plan) (b : Batch) : Nat := ∑ i ∈ Finset.range p.dirs.length, (b.stage i).left

theorem left_put {t : Site} {x : Stage} (here : p.dirs[i]? = some dir) (less : x.left < (b.stage i).left) :
    p.left (b.put t i x) < p.left b := by
  refine Finset.sum_lt_sum (fun j _ => ?_) ⟨i, Finset.mem_range.mpr (List.getElem?_eq_some_iff.mp here).1, ?_⟩
  · by_cases same : j = i
    next =>
      subst same
      rw [Batch.stage_put_self]
      exact less.le
    next => rw [Batch.stage_put_of_ne same]
  · rwa [Batch.stage_put_self]

theorem left_step (step : p.Step b b') : p.left b' < p.left b ∨ b'.stage = b.stage := by
  cases step with
  | start here waits _ _ => exact .inl (left_put here (by rw [waits]; decide))
  | @compile i dir here started _ =>
    refine .inl (left_put here ?_)
    rw [started]
    cases ((p.call dir).run b.site).2 with
    | error f => exact Nat.succ_pos _
    | ok r => exact Nat.lt_succ_self _
  | write here writes advances =>
    refine .inl (left_put here ?_)
    rw [writes]
    exact advances.left_lt
  | drift => exact .inr rfl

theorem exists_step (room : 0 < p.limit) (honest : ∀ dir ∈ p.dirs, (p.call dir).Honest b.site)
    (incomplete : ¬ p.Complete b) : ∃ b', p.Step b b' ∧ p.left b' < p.left b := by
  have proceeds {b' : Batch} (step : p.Step b b') (moved : b'.stage ≠ b.stage) :
      ∃ b', p.Step b b' ∧ p.left b' < p.left b :=
    ⟨b', step, (left_step step).resolve_right moved⟩
  have moves {t : Site} {i : Nat} {x : Stage} (new : x ≠ b.stage i) : (b.put t i x).stage ≠ b.stage := by
    intro same
    rw [← same, Batch.stage_put_self] at new
    exact new rfl
  -- A job at work can go on. If there is none, there is room for the first of those that wait.
  by_cases busy : ∃ i < p.dirs.length, (b.stage i).isActive = true
  next =>
    obtain ⟨i, small, active⟩ := busy
    have here := List.getElem?_eq_getElem small
    cases stage : b.stage i with
    | waiting | failed => simp [stage, Stage.isActive] at active
    | started =>
      refine proceeds (.compile here stage (honest _ (List.getElem_mem small))) (moves ?_)
      rw [stage]
      cases ((p.call p.dirs[i]).run b.site).2 with
      | error f => nofun
      | ok r => nofun
    | writing r w =>
      have unfinished : ∀ last, w ≠ .ended last := by
        rintro last rfl
        simp [stage, Stage.isActive] at active
      obtain ⟨⟨fs, w'⟩, advances⟩ := (p.replacement p.dirs[i] r).exists_advances b.site.files unfinished
      refine proceeds (.write here stage advances) (moves fun same => ?_)
      rw [stage] at same
      cases same
      exact absurd advances.left_lt (lt_irrefl _)
  next =>
    have idle : p.active b = 0 := by
      rw [active, List.countP_eq_zero]
      intro j small active
      exact busy ⟨j, List.mem_range.mp small, active⟩
    have waiting : ∃ i, i < p.dirs.length ∧ b.stage i = .waiting := by
      rw [Complete] at incomplete
      push Not at incomplete
      obtain ⟨i, small, unended⟩ := incomplete
      refine ⟨i, small, ?_⟩
      by_contra other
      exact busy ⟨i, small, Stage.active_of_unended unended other⟩
    classical
    obtain ⟨small, waits⟩ := Nat.find_spec waiting
    refine proceeds (.start (List.getElem?_eq_getElem small) waits (fun j before again => ?_) (by omega)) (moves ?_)
    · exact Nat.find_min waiting before ⟨before.trans small, again⟩
    · rw [waits]
      nofun

theorem exists_complete (room : 0 < p.limit) (b : Batch)
    (honest : ∀ b', ReflTransGen p.Step b b' → ∀ dir ∈ p.dirs, (p.call dir).Honest b'.site) :
    ∃ b', ReflTransGen p.Step b b' ∧ p.Complete b' := by
  by_cases complete : p.Complete b
  next => exact ⟨b, .refl, complete⟩
  next =>
    obtain ⟨b₁, step, less⟩ := exists_step room (honest b .refl) complete
    obtain ⟨b', steps, complete'⟩ := exists_complete room b₁ fun b' steps => honest b' (.head step steps)
    exact ⟨b', .head step steps, complete'⟩
  termination_by p.left b

theorem steps_start (room : p.dirs.length ≤ p.limit) (n : Nat) (fits : n ≤ p.dirs.length) :
    ReflTransGen p.Step (.start s) ⟨s, fun i => if i < n then .started else .waiting⟩ := by
  induction n with
  | zero => exact .refl
  | succ n ih =>
    have small : n < p.dirs.length := fits
    refine (ih small.le).tail ?_
    have next : (⟨s, fun i => if i < n + 1 then .started else .waiting⟩ : Batch) =
        Batch.put ⟨s, fun i => if i < n then .started else .waiting⟩ s n .started := by
      rw [Batch.put, Batch.mk.injEq]
      refine ⟨rfl, funext fun i => ?_⟩
      by_cases same : i = n
      next => simp [same]
      next =>
        have either : i < n + 1 ↔ i < n := by omega
        simp [same, either]
    rw [next]
    refine .start (List.getElem?_eq_getElem small) (if_neg (lt_irrefl n)) (fun j before => by simp [before]) ?_
    have fewer : p.active ⟨s, fun i => if i < n then .started else .waiting⟩ < (List.range p.dirs.length).length :=
      List.countP_lt_length_iff.mpr ⟨n, List.mem_range.mpr small, by simp [Stage.isActive]⟩
    rw [List.length_range] at fewer
    exact fewer.trans_le room

theorem steps_started (fresh : p.compiler.cache = none) (order : List Nat) (distinct : order.Nodup)
    (started : ∀ i ∈ order, i < p.dirs.length ∧ b.stage i = .started) :
    ∃ b', ReflTransGen p.Step b b' ∧ (∀ i ∈ order, (b'.stage i).outcome ≠ none) ∧
      ∀ j ∉ order, b'.stage j = b.stage j := by
  induction order generalizing b with
  | nil => exact ⟨b, .refl, nofun, fun _ _ => rfl⟩
  | cons i order ih =>
    obtain ⟨other, distinct⟩ := List.nodup_cons.mp distinct
    obtain ⟨small, starts⟩ := started i List.mem_cons_self
    obtain ⟨x, first, finished, -⟩ := steps_job fresh (List.getElem?_eq_getElem small) starts
    obtain ⟨b', steps, ended, untouched⟩ :=
      @ih (b.put (p.compiler.jobBy p.env p.dirs[i] b.site).1 i x) distinct fun j inside => by
        have apart : j ≠ i := fun same => other (same ▸ inside)
        rw [Batch.stage_put_of_ne apart]
        exact started j (List.mem_cons_of_mem _ inside)
    refine ⟨b', first.trans steps, fun j inside => ?_, fun j outside => ?_⟩
    · rcases List.mem_cons.mp inside with rfl | inside
      · rwa [untouched j other, Batch.stage_put_self]
      · exact ended j inside
    · rw [List.mem_cons, not_or] at outside
      rw [untouched j outside.2, Batch.stage_put_of_ne outside.1]

theorem steps_last (fresh : p.compiler.cache = none) (room : p.dirs.length ≤ p.limit) (s : Site)
    (here : p.dirs[i]? = some dir) : ∃ b b', ReflTransGen p.Step (.start s) b ∧
      ReflTransGen p.Step (.start s) b' ∧ p.Complete b' ∧ b'.site = (p.compiler.jobBy p.env dir b.site).1 ∧
      p.returned b' (dir, i) = some (p.compiler.jobBy p.env dir b.site).2 := by
  let order := (List.range p.dirs.length).filter (· ≠ i)
  have starts := @steps_start p s room p.dirs.length (le_refl _)
  have small : i < p.dirs.length := (List.getElem?_eq_some_iff.mp here).1
  have in_order (j : Nat) : j ∈ order ↔ j < p.dirs.length ∧ j ≠ i := by simp [order]
  have all (j : Nat) (fits : j < p.dirs.length) :
      (if j < p.dirs.length then Stage.started else .waiting) = .started := if_pos fits
  obtain ⟨b, steps, ended, untouched⟩ :=
    @steps_started p ⟨s, fun j => if j < p.dirs.length then .started else .waiting⟩ fresh order
      (List.nodup_range.filter _) fun j inside => ⟨((in_order j).mp inside).1, all j ((in_order j).mp inside).1⟩
  have mine : b.stage i = .started := by
    rw [untouched i (by simp [in_order])]
    exact all i small
  obtain ⟨x, last, finished, outcome⟩ := steps_job fresh here mine
  have before := starts.trans steps
  refine ⟨b, _, before, before.trans last, fun j fits => ?_, rfl, ?_⟩
  · by_cases same : j = i
    next => rwa [same, Batch.stage_put_self]
    next =>
      rw [Batch.stage_put_of_ne same]
      exact ended j ((in_order j).mpr ⟨fits, same⟩)
  · rw [returned, Batch.stage_put_self]
    exact outcome

theorem Orderly.sound (orderly : p.Orderly s b) (sound : s.files.Sound) : b.site.files.Sound := by
  rcases orderly.files with untouched | ⟨made, place, touched⟩
  · rwa [untouched.files]
  · exact touched.layers.sound

theorem Orderly.located (orderly : p.Orderly s b) (sound : s.files.Sound) {q : List String}
    (found : s.files.locate dir = .ok (q, .directory)) : b.site.files.locate dir = .ok (q, .directory) := by
  rcases orderly.files with untouched | ⟨made, place, touched⟩
  · rwa [untouched.files]
  · exact (touched.extends_site sound).locate found

theorem read_of_job {t : Site} (fresh : p.compiler.cache = none) (sound : t.files.Sound)
    (located : ∃ q, t.files.locate dir = .ok (q, .directory)) (done : (p.compiler.jobBy p.env dir t).2 = .ok r) :
    (p.compiler.jobBy p.env dir t).1.files.read (Path.join [p.compiler.settings.outputPath, r.filename]) =
      .ok r.script := by
  let only : Plan := { p with dirs := [dir], limit := 1 }
  have here : only.dirs[0]? = some dir := rfl
  have starts : only.Step (.start t) ((Batch.start t).put t 0 .started) := .start here rfl nofun Nat.one_pos
  obtain ⟨x, steps, -, outcome⟩ :=
    @steps_job only ((Batch.start t).put t 0 .started) dir 0 fresh here Batch.stage_put_self
  rw [Batch.put_put] at steps
  have orderly : only.Orderly t ((Batch.start t).put (p.compiler.jobBy p.env dir t).1 0 x) :=
    .run sound (by simpa [only] using located) (.head starts steps)
  have returned : x.outcome = some (.ok r) := by
    change Option.map _ x.outcome = some (p.compiler.jobBy p.env dir t).2 at outcome
    rw [done] at outcome
    obtain ⟨y, ended, same⟩ := Option.map_eq_some_iff.mp outcome
    rw [ended, mapError_eq_ok.mp same]
  have complete : only.Complete ((Batch.start t).put (p.compiler.jobBy p.env dir t).1 0 x) := by
    intro j small
    obtain rfl : j = 0 := Nat.lt_one_iff.mp small
    rw [Batch.stage_put_self, returned]
    nofun
  have results : only.results ((Batch.start t).put (p.compiler.jobBy p.env dir t).1 0 x) = [r] := by
    simp [Plan.results, Plan.returned, only, returned, Except.mapError, Except.toOption]
  exact orderly.read sound complete (by simp [results]) (by simp [results])

theorem read_of_last {root : String} (fresh : p.compiler.cache = none) (room : p.dirs.length ≤ p.limit)
    (sound : s.files.Sound) (listed : s.files.industries root = .ok p.dirs) (member : dir ∈ p.dirs)
    (ends : p.alone s dir = .ok r) : ∃ b, ReflTransGen p.Step (.start s) b ∧ p.Complete b ∧
      b.site.files.read (Path.join [p.compiler.settings.outputPath, r.filename]) = .ok r.script := by
  have located := Files.locate_of_mem_industries sound listed
  obtain ⟨i, here⟩ := List.mem_iff_getElem?.mp member
  obtain ⟨b, b', before, steps, complete, site, returned⟩ := steps_last fresh room s here
  have orderly := Orderly.run sound located steps
  obtain ⟨y, ended, same⟩ := Option.map_eq_some_iff.mp returned
  have alone := (orderly.foreseen i dir here).alone ended
  rw [ends, same] at alone
  obtain ⟨r', done, equal⟩ := map_eq_ok.mp alone.symm
  obtain ⟨q, found⟩ := located dir member
  have earlier := Orderly.run sound located before
  have read := read_of_job fresh (earlier.sound sound) ⟨q, earlier.located sound found⟩ done
  rw [← site, ← r'.filename_essence, ← r'.script_essence, equal, r.filename_essence, r.script_essence] at read
  exact ⟨b', steps, complete, read⟩

theorem files_of_namesakes {root dir' : String} {r' : Compiled} (fresh : p.compiler.cache = none)
    (room : p.dirs.length ≤ p.limit) (sound : s.files.Sound) (listed : s.files.industries root = .ok p.dirs)
    (member : dir ∈ p.dirs) (member' : dir' ∈ p.dirs) (ends : p.alone s dir = .ok r)
    (ends' : p.alone s dir' = .ok r')
    (name : r.filename = r'.filename) (differs : r.script ≠ r'.script) :
    ∃ b b' path, ReflTransGen p.Step (.start s) b ∧ p.Complete b ∧ ReflTransGen p.Step (.start s) b' ∧
      p.Complete b' ∧
      (∃ r ∈ p.results b, path = Path.join [p.compiler.settings.outputPath, r.filename] ∧
        b.site.files.read path ≠ .ok r.script) ∧
      b.site.files.read path ≠ b'.site.files.read path := by
  obtain ⟨b, steps, complete, read⟩ := read_of_last fresh room sound listed member ends
  obtain ⟨b', steps', complete', read'⟩ := read_of_last fresh room sound listed member' ends'
  have orderly := Orderly.run sound (Files.locate_of_mem_industries sound listed) steps
  refine ⟨b, b', Path.join [p.compiler.settings.outputPath, r.filename], steps, complete, steps', complete', ?_, ?_⟩
  · have picked : r'.essence ∈ (p.results b).map Compiled.essence := by
      rw [orderly.results_eq complete]
      exact List.mem_filterMap.mpr ⟨dir', member', by rw [ends']; rfl⟩
    obtain ⟨r'', inside, equal⟩ := List.mem_map.mp picked
    have again : r''.filename = r.filename := by rw [← r''.filename_essence, equal, r'.filename_essence, name]
    have script : r''.script = r'.script := by rw [← r''.script_essence, equal, r'.script_essence]
    refine ⟨r'', inside, by rw [again], ?_⟩
    rw [read, script]
    exact fun same => differs (Except.ok.inj same)
  · rw [read, name, read']
    exact fun same => differs (Except.ok.inj same)

theorem alone_of_compile (compiles : (p.sequential.compiler.compile dir (p.env.ctx dir) s).2 = .ok r)
    (goes : ∀ step, p.env.fails dir step = false) (plain : '/' ∉ r.filename.toList)
    (makes : s.files.makeDirectories p.compiler.settings.outputPath = .ok (made, place))
    (free : made.get? (place ++ [r.filename]) ≠ some .directory) : p.alone s dir = .ok r := by
  have files := @Call.files_run s (p.call dir).withoutCache
  have run : (p.call dir).withoutCache.run s = p.sequential.compiler.compile dir (p.env.ctx dir) s := rfl
  rw [run] at files
  cases compiled : p.sequential.compiler.compile dir (p.env.ctx dir) s with
  | mk s' result =>
    rw [compiled] at compiles files
    obtain rfl : result = .ok r := compiles
    have ends : (trace (p.env.fails dir) s'.files p.sequential.compiler.settings.outputPath r.filename
        r.script).2 = .ok (p.replacement dir r).path := by
      have verdict := @Replacement.verdict_of_free (p.replacement dir r) s.files made place goes plain makes free
      rw [← verdict, Replacement.verdict_begun, files]
      rfl
    rw [alone, jobBy_of_ok compiled]
    dsimp only
    rw [ends]
    rfl

def ofPlants (ts : Templates) (limit : Nat) (dirs : List String) : Plan where
  compiler := plant ts
  env := calm false
  limit := limit
  dirs := dirs

theorem alone_of_listed {fs : Files} {ts : Templates} {limit : Nat} {dirs : List String}
    {texts : List (String × String)} {data : List (String × List UInt8)} {short name : String} {script : List UInt8}
    {queue : List String}
    (parsed : plantTemplates = .ok ts) (found : fs.documents dir = .ok (listed dir texts))
    (tried : (trial plantTemplates .plain dir texts).toOption = some (data, short, script, queue)) (named : Text.lower short ++ ".py" = name)
    (plain : '/' ∉ name.toList)
    (free : (fs.makeDirectories "industries").toOption.map (fun x => x.1.get? (x.2 ++ [name])) = some none) :
    ∃ r, (ofPlants ts limit dirs).alone { files := fs } dir = .ok r ∧ r.filename = name ∧ r.script = script := by
  obtain ⟨docs, -, -, compiles⟩ := compile_of_listed parsed found tried
  obtain ⟨⟨made, place⟩, makes, absent⟩ := Option.map_eq_some_iff.mp free
  cases makes' : fs.makeDirectories "industries" with
  | error e => simp [makes', Except.toOption] at makes
  | ok x =>
    obtain rfl : x = (made, place) := by simpa [makes', Except.toOption] using makes
    subst named
    have clear : made.get? (place ++ [Text.lower short ++ ".py"]) ≠ some .directory := by simp [absent]
    exact ⟨_, alone_of_compile compiles (fun _ => rfl) plain makes' clear, rfl, rfl⟩

theorem filename_plant : Text.lower "a" ++ ".py" = "a.py" := by
  rw [← String.toList_inj, toList_py, Text.lower, String.toList_map]
  decide

theorem industries_yard : yard.industries "." = .ok ["copy", "one", "two"] := by
  have located : yard.locate "." = .ok ([], .directory) := by decide +kernel
  simp only [Files.industries, located, below_yard]
  decide +kernel

def millText : String :=
  "\x7bname: c, short_name: c, id: c, type: industry, outcome: [\x7bname: g, units: t\x7d]\x7d"

def street : Files where
  entries := [(["one"], .directory), (["one", "a.yaml"], .file { data := Text.bytes plantText }),
    (["one", "b.yaml"], .file { data := Text.bytes shopText }), (["west"], .directory),
    (["west", "c.yaml"], .file { data := Text.bytes millText })]

theorem filename_mill : Text.lower "c" ++ ".py" = "c.py" := by
  rw [← String.toList_inj, toList_py, Text.lower, String.toList_map]
  decide

theorem documents_street :
    street.documents "one" = .ok (listed "one" [("a.yaml", plantText), ("b.yaml", shopText)]) ∧
      street.documents "west" = .ok (listed "west" [("c.yaml", millText)]) ∧
      street.industries "." = .ok ["one", "west"] := by
  have sorted : street.entries.Pairwise fun a b => Text.namesLe a.1 b.1 := by decide +kernel
  have below (place : List String) : street.below place = street.entries.filter fun p => place.isPrefixOf p.1 :=
    Files.below_of_sorted (sorted.filter _)
  have one : street.locate "one" = .ok (["one"], .directory) := by decide +kernel
  have west : street.locate "west" = .ok (["west"], .directory) := by decide +kernel
  have here : street.locate "." = .ok ([], .directory) := by decide +kernel
  simp only [Files.documents, Files.walk, Files.industries, one, west, here, below]
  decide +kernel

/-- However the jobs of a batch take turns, each directory gives the result or the failure that it
gives by itself, as if all had been compiled one after the other without a store. If no two results
go by one name, each is found in its file, and the files do not depend on the order either. -/
theorem compileAll_in_any_order {root : String} (sound : s.files.Sound)
    (listed : s.files.industries root = .ok p.dirs) (steps : ReflTransGen p.Step (.start s) b)
    (complete : p.Complete b) :
    let once := p.sequential.compiler.compileAllBy p.env root s
    (p.results b).map Compiled.essence = once.2.1.map Compiled.essence ∧
      Failure.collect (p.failures b) = once.2.2 ∧
      (p.results b).map Compiled.essence =
        (p.dirs.filterMap fun dir => (p.alone s dir).toOption.map Compiled.essence) ∧
      p.failures b = (p.dirs.filterMap fun dir => fault (p.alone s dir)) ∧
      (((p.results b).map Compiled.filename).Nodup →
        (∀ r ∈ p.results b, b.site.files.read (Path.join [p.compiler.settings.outputPath, r.filename]) =
          .ok r.script) ∧
        ∀ q, b.site.files.get? q = once.1.files.get? q) := by
  have located := Files.locate_of_mem_industries sound listed
  have orderly := Orderly.run sound located steps
  obtain ⟨b₀, steps₀, complete₀, site, results, failures⟩ := @steps_sequential p s
  have orderly₀ : p.Orderly s b₀ := (@Orderly.run p.sequential s b₀ sound located steps₀).of_sequential
  have once : p.sequential.compiler.compileAllBy p.env root s =
      (b₀.site, p.results b₀, Failure.collect (p.failures b₀)) := by
    rw [compileAllBy, listed, site, results, failures]
  rw [once]
  refine ⟨?_, ?_, orderly.results_eq complete, orderly.failures_eq complete,
    fun distinct => ⟨fun r inside => ?_, ?_⟩⟩
  · rw [orderly.results_eq complete, orderly₀.results_eq complete₀]
  · rw [orderly.failures_eq complete, orderly₀.failures_eq complete₀]
  · exact orderly.read sound complete distinct inside
  · exact orderly.agree complete orderly₀ complete₀ distinct

theorem in_any_order_of_street : ∃ (p : Plan) (s : Site) (root : String) (b : Batch),
    s.files.Sound ∧ s.files.industries root = .ok p.dirs ∧ ReflTransGen p.Step (.start s) b ∧ p.Complete b ∧
      (p.results b).map Compiled.filename = ["a.py", "c.py"] ∧ ((p.results b).map Compiled.filename).Nodup ∧
      let once := p.sequential.compiler.compileAllBy p.env root s
      (p.results b).map Compiled.essence = once.2.1.map Compiled.essence ∧
        Failure.collect (p.failures b) = once.2.2 ∧
        (p.results b).map Compiled.essence =
          (p.dirs.filterMap fun dir => (p.alone s dir).toOption.map Compiled.essence) ∧
        p.failures b = (p.dirs.filterMap fun dir => fault (p.alone s dir)) ∧
        (((p.results b).map Compiled.filename).Nodup →
          (∀ r ∈ p.results b, b.site.files.read (Path.join [p.compiler.settings.outputPath, r.filename]) =
            .ok r.script) ∧
          ∀ q, b.site.files.get? q = once.1.files.get? q) := by
  obtain ⟨ts, parses⟩ := plantTemplates_sound
  obtain ⟨one, west, listed⟩ := documents_street
  have millTried : (trial plantTemplates .plain "west" [("c.yaml", millText)]).toOption =
      some ([("c.yaml", Text.bytes millText)], "c", Text.bytes "c\x7b\n    \"g\": \"t\"\n\x7d", []) := by decide +kernel
  have sound : street.Sound := by decide +kernel
  have free : ∀ name ∈ ["a.py", "c.py"],
      (street.makeDirectories "industries").toOption.map (fun x => x.1.get? (x.2 ++ [name])) = some none := by
    decide +kernel
  let p : Plan := ofPlants ts 2 ["one", "west"]
  obtain ⟨r, ends, name, -⟩ : ∃ r, p.alone { files := street } "one" = .ok r ∧
      r.filename = "a.py" ∧ r.script = _ :=
    alone_of_listed parses one trial_plots.1 filename_plant (by decide) (free _ (.head _))
  obtain ⟨r', ends', name', -⟩ : ∃ r, p.alone { files := street } "west" = .ok r ∧
      r.filename = "c.py" ∧ r.script = _ :=
    alone_of_listed parses west millTried filename_mill (by decide) (free _ (.tail _ (.head _)))
  -- The job that starts first ends last.
  obtain ⟨-, b, -, steps, complete, -⟩ := @steps_last p "one" 0 rfl (le_refl 2) { files := street } rfl
  have orderly := Orderly.run sound (Files.locate_of_mem_industries sound listed) steps
  have names : (p.results b).map Compiled.filename = ["a.py", "c.py"] := by
    have dirs : p.dirs = ["one", "west"] := rfl
    rw [Compiled.map_filename, orderly.results_eq complete, dirs]
    simp [ends, ends', Except.toOption, Compiled.filename_essence, name, name']
  have distinct : ((p.results b).map Compiled.filename).Nodup := by
    rw [names]
    decide
  exact ⟨p, { files := street }, ".", b, sound, listed, steps, complete, names, distinct,
    compileAll_in_any_order sound listed steps complete⟩

theorem files_of_last_written : ∃ (p : Plan) (s : Site) (root : String) (b b' : Batch) (path : String),
    p.compiler.cache = none ∧ p.env = calm false ∧ 0 < p.limit ∧ s.files.Sound ∧
      s.files.industries root = .ok p.dirs ∧ ReflTransGen p.Step (.start s) b ∧ p.Complete b ∧
      ReflTransGen p.Step (.start s) b' ∧ p.Complete b' ∧
      (∃ r ∈ p.results b, path = Path.join [p.compiler.settings.outputPath, r.filename] ∧
        b.site.files.read path ≠ .ok r.script) ∧
      b.site.files.read path ≠ b'.site.files.read path := by
  obtain ⟨ts, parses⟩ := plantTemplates_sound
  have sound : yard.Sound := by decide +kernel
  have free : (yard.makeDirectories "industries").toOption.map (fun x => x.1.get? (x.2 ++ ["a.py"])) = some none := by
    decide +kernel
  let p : Plan := ofPlants ts 3 ["copy", "one", "two"]
  obtain ⟨r, ends, name, script⟩ : ∃ r, p.alone { files := yard } "copy" = .ok r ∧
      r.filename = "a.py" ∧ r.script = _ :=
    alone_of_listed parses (documents_yard ("copy", _) (.head _)) trial_plots.2.1 filename_plant (by decide) free
  obtain ⟨r', ends', name', script'⟩ : ∃ r, p.alone { files := yard } "two" = .ok r ∧
      r.filename = "a.py" ∧ r.script = _ :=
    alone_of_listed parses (documents_yard ("two", _) (.tail _ (.tail _ (.head _)))) trial_plots.2.2 filename_plant
      (by decide) free
  have differs : r.script ≠ r'.script := by
    rw [script, script']
    decide +kernel
  obtain ⟨b, b', path, steps, complete, steps', complete', lost, other⟩ :=
    @files_of_namesakes p { files := yard } "copy" r "." "two" r' rfl (le_refl 3) sound industries_yard
      (.head _) (.tail _ (.tail _ (.head _))) ends ends' (name.trans name'.symm) differs
  exact ⟨p, { files := yard }, ".", b, b', path, rfl, rfl, Nat.succ_pos 2, sound, industries_yard, steps, complete,
    steps', complete', lost, other⟩

end Plan

end Compiler

end Flowsheet
