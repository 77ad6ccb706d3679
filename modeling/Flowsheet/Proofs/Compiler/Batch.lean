import Flowsheet.Proofs.Compiler.Shared
import Flowsheet.Proofs.Compiler.Writing

set_option autoImplicit false

namespace Flowsheet

namespace Compiler

open Artifact Relation

def fault {α : Type} : Except Failure α → Option Failure
  | .error f => some f
  | .ok _ => none

-- What is at work besides the jobs: how far each may go on, and which steps of writing go wrong by
-- themselves.
structure Surroundings where
  ctx : String → Context
  fails : String → WriteStep → Bool

def calm (isCancelled : Bool) : Surroundings := ⟨fun _ => isCancelled, fun _ _ => false⟩

def jobBy (c : Compiler) (env : Surroundings) (dir : String) (s : Site) : Site × Except Failure Compiled :=
  match c.compile dir (env.ctx dir) s with
  | (s, .error f) => (s, .error (f.within s!"industry {Path.base dir}"))
  | (s, .ok r) =>
    let (states, written) := trace (env.fails dir) s.files c.settings.outputPath r.filename r.script
    let s := { s with files := states.headD s.files }
    match written with
    | .error f => (s, .error (f.within s!"industry {Path.base dir}"))
    | .ok _ => (s, .ok r)

def jobsBy (c : Compiler) (env : Surroundings) : List String → Site → Site × List Compiled × List Failure
  | [], s => (s, [], [])
  | dir :: rest, s =>
    match c.jobBy env dir s with
    | (s, .ok r) =>
      let (s, rs, fs) := jobsBy c env rest s
      (s, r :: rs, fs)
    | (s, .error f) =>
      let (s, rs, fs) := jobsBy c env rest s
      (s, rs, f :: fs)

def compileAllBy (c : Compiler) (env : Surroundings) (root : String) (s : Site) :
    Site × List Compiled × Option Failure :=
  match s.files.industries root with
  | .error f => (s, [], some (f.within s!"failed to list industries in {root}"))
  | .ok dirs =>
    let (s, rs, fs) := c.jobsBy env dirs s
    (s, rs, Failure.collect fs)

variable {c : Compiler} {env : Surroundings} {isCancelled : Bool}

theorem jobBy_of_error {dir : String} {s s' : Site} {f : Failure}
    (failed : c.compile dir (env.ctx dir) s = (s', .error f)) :
    c.jobBy env dir s = (s', .error (f.within s!"industry {Path.base dir}")) := by
  unfold jobBy
  rw [failed]

theorem jobBy_of_ok {dir : String} {s s' : Site} {r : Compiled} (made : c.compile dir (env.ctx dir) s = (s', .ok r)) :
    let written := trace (env.fails dir) s'.files c.settings.outputPath r.filename r.script
    c.jobBy env dir s = ({ s' with files := written.1.headD s'.files },
      (written.2.map fun _ => r).mapError (·.within s!"industry {Path.base dir}")) := by
  unfold jobBy
  rw [made]
  dsimp only
  rcases trace (env.fails dir) s'.files c.settings.outputPath r.filename r.script with
    ⟨states, f | path⟩
  · rfl
  · rfl

theorem jobsBy_cons (dir : String) (rest : List String) (s : Site) : c.jobsBy env (dir :: rest) s =
    let done := c.jobBy env dir s
    let others := c.jobsBy env rest done.1
    (others.1, done.2.toOption.toList ++ others.2.1, (fault done.2).toList ++ others.2.2) := by
  change (match c.jobBy env dir s with | (s, .ok r) => _ | (s, .error f) => _) = _
  rcases c.jobBy env dir s with ⟨s', f | r⟩
  · rfl
  · rfl

theorem jobs_cons (dir : String) (rest : List String) (s : Site) : c.jobs isCancelled (dir :: rest) s =
    let done := c.job dir isCancelled s
    let others := c.jobs isCancelled rest done.1
    (others.1, done.2.toOption.toList ++ others.2.1, (fault done.2).toList ++ others.2.2) := by
  change (match c.job dir isCancelled s with | (s, .ok r) => _ | (s, .error f) => _) = _
  rcases c.job dir isCancelled s with ⟨s', f | r⟩
  · rfl
  · rfl

theorem jobBy_calm (dir : String) (s : Site) : c.jobBy (calm isCancelled) dir s = c.job dir isCancelled s := by
  unfold jobBy job
  rcases compiled : c.compile dir ((calm isCancelled).ctx dir) s with ⟨s', f | r⟩
  · have again : c.compile dir (Context.ofCancelled isCancelled) s = (s', .error f) := compiled
    rw [again]
  · have again : c.compile dir (Context.ofCancelled isCancelled) s = (s', .ok r) := compiled
    rw [again]
    dsimp only [calm, write, writeTo, Artifact.write]
    rcases trace (fun _ => false) s'.files c.settings.outputPath r.filename r.script with
      ⟨states, f | path⟩
    · rfl
    · rfl

theorem jobsBy_calm (dirs : List String) (s : Site) :
    c.jobsBy (calm isCancelled) dirs s = c.jobs isCancelled dirs s := by
  induction dirs generalizing s with
  | nil => rfl
  | cons dir rest ih =>
    rw [jobsBy_cons, jobs_cons, jobBy_calm]
    dsimp only
    rw [ih]

theorem compileAllBy_calm (root : String) (s : Site) :
    c.compileAllBy (calm isCancelled) root s = c.compileAll root isCancelled s := by
  unfold compileAllBy compileAll
  cases s.files.industries root with
  | error f => rfl
  | ok dirs =>
    dsimp only
    rw [jobsBy_calm]

/-- Where a job stands. -/
inductive Stage where
  | waiting
  | started
  | failed (f : Failure)
  | writing (r : Compiled) (w : Writing)

namespace Stage

def ofResult : Except Failure Compiled → Stage
  | .ok r => .writing r .begun
  | .error f => .failed f

def outcome : Stage → Option (Except Failure Compiled)
  | .failed f | .writing _ (.ended (.error f)) => some (.error f)
  | .writing r (.ended (.ok _)) => some (.ok r)
  | _ => none

def left : Stage → Nat
  | .waiting => 9
  | .started => 8
  | .failed _ => 0
  | .writing _ w => w.left

def isActive : Stage → Bool
  | .started => true
  | .writing _ (.ended _) => false
  | .writing _ _ => true
  | _ => false

def held : Stage → Option (String × File)
  | .writing r w => w.held r.script
  | _ => none

def kept : Stage → Option (String × List UInt8)
  | .writing r w => w.kept r.filename r.script
  | _ => none

theorem idle_of_outcome {x : Stage} (ended : x.outcome ≠ none) : x.isActive = false ∧ x ≠ .waiting := by
  cases x with
  | waiting | started => exact absurd rfl ended
  | failed f => exact ⟨rfl, nofun⟩
  | writing r w =>
    cases w with
    | ended last => exact ⟨rfl, nofun⟩
    | begun | placed | opened | filled | closed | published => exact absurd rfl ended

theorem active_of_unended {x : Stage} (unended : x.outcome = none) (moved : x ≠ .waiting) : x.isActive = true := by
  cases x with
  | waiting => exact absurd rfl moved
  | started => rfl
  | failed f => cases unended
  | writing r w =>
    cases w with
    | ended last =>
      cases last with
      | error f => cases unended
      | ok path => cases unended
    | begun | placed | opened | filled | closed | published => rfl

theorem outcome_cases {x : Stage} (ended : x.outcome ≠ none) : x.held = none ∧
    ∀ n d, x.kept = some (n, d) ↔
      ∃ r, x.outcome = some (.ok r) ∧ n = r.filename ∧ d = r.script := by
  cases x with
  | waiting | started => exact absurd rfl ended
  | failed f => exact ⟨rfl, by simp [Stage.kept, Stage.outcome]⟩
  | writing r w =>
    cases w with
    | ended last =>
      refine ⟨rfl, fun n d => ?_⟩
      cases last with
      | error f => simp [Stage.kept, Writing.kept, Stage.outcome]
      | ok path => simp [Stage.kept, Writing.kept, Stage.outcome, eq_comm]
    | begun | placed | opened | filled | closed | published => exact absurd rfl ended

end Stage

/-- What a batch is to do, with as many jobs at a time as the limit allows. -/
structure Plan where
  compiler : Compiler
  env : Surroundings
  limit : Nat
  dirs : List String

structure Batch where
  site : Site
  stage : Nat → Stage

namespace Batch

def start (s : Site) : Batch := ⟨s, fun _ => .waiting⟩

def put (b : Batch) (s : Site) (i : Nat) (x : Stage) : Batch := ⟨s, Function.update b.stage i x⟩

variable {b : Batch} {s : Site} {i j : Nat} {x y : Stage}

@[simp] theorem site_put : (b.put s i x).site = s := rfl

@[simp] theorem stage_put_self : (b.put s i x).stage i = x := Function.update_self ..

theorem stage_put_of_ne (other : j ≠ i) : (b.put s i x).stage j = b.stage j := Function.update_of_ne other ..

@[simp] theorem put_put {t : Site} : (b.put s i x).put t i y = b.put t i y := by
  simp [put]

theorem stage_put_eq : (b.put s i x).stage j = y ↔ j = i ∧ x = y ∨ j ≠ i ∧ b.stage j = y := by
  by_cases same : j = i
  next => simp [same]
  next => simp [same, stage_put_of_ne]

end Batch

namespace Plan

def call (p : Plan) (dir : String) : Call := ⟨p.compiler, dir, p.env.ctx dir⟩

def replacement (p : Plan) (dir : String) (r : Compiled) : Replacement where
  dir := p.compiler.settings.outputPath
  name := r.filename
  content := r.script
  fails := p.env.fails dir

def active (p : Plan) (b : Batch) : Nat := (List.range p.dirs.length).countP fun i => (b.stage i).isActive

/-- One step of one job, or something that happens to all of the site but its files. Jobs start in the
order of the directories. To compile is one step, because it reads nothing but documents and no job
changes those. -/
inductive Step (p : Plan) : Batch → Batch → Prop
  | start {b : Batch} {i : Nat} {dir : String} (here : p.dirs[i]? = some dir) (waits : b.stage i = .waiting)
    (turn : ∀ j < i, b.stage j ≠ .waiting) (room : p.active b < p.limit) :
    Step p b (b.put b.site i .started)
  | compile {b : Batch} {i : Nat} {dir : String} (here : p.dirs[i]? = some dir) (started : b.stage i = .started)
    (honest : (p.call dir).Honest b.site) :
    Step p b (b.put ((p.call dir).run b.site).1 i (.ofResult ((p.call dir).run b.site).2))
  | write {b : Batch} {i : Nat} {dir : String} {r : Compiled} {w w' : Writing} {fs : Files}
    (here : p.dirs[i]? = some dir) (writes : b.stage i = .writing r w)
    (advances : (p.replacement dir r).Advances (b.site.files, w) (fs, w')) :
    Step p b (b.put { b.site with files := fs } i (.writing r w'))
  | drift {b : Batch} (s : Site) (files : s.files = b.site.files) : Step p b { b with site := s }

def Complete (p : Plan) (b : Batch) : Prop := ∀ i < p.dirs.length, (b.stage i).outcome ≠ none

def returned (_ : Plan) (b : Batch) (x : String × Nat) : Option (Except Failure Compiled) :=
  (b.stage x.2).outcome.map (·.mapError (·.within s!"industry {Path.base x.1}"))

def results (p : Plan) (b : Batch) : List Compiled :=
  p.dirs.zipIdx.filterMap fun x => (p.returned b x).bind Except.toOption

def failures (p : Plan) (b : Batch) : List Failure :=
  p.dirs.zipIdx.filterMap fun x => (p.returned b x).bind fault

def Foreseen (p : Plan) (s : Site) (dir : String) : Stage → Prop
  | .waiting | .started => True
  | .failed f => ((p.call dir).withoutCache.run s).2 = .error f
  | .writing r w => ((p.call dir).withoutCache.run s).2.map Compiled.essence = .ok r.essence ∧
    (p.replacement dir r).verdict s.files w = (p.replacement dir r).verdict s.files .begun

structure Untouched (p : Plan) (s : Site) (b : Batch) : Prop where
  files : b.site.files = s.files
  early : ∀ i r w, b.stage i = .writing r w → w = .begun ∨ (∃ f, w = .ended (.error f)) ∧
    ∃ dir, p.dirs[i]? = some dir ∧ (p.env.fails dir .makeDirectory = true ∨
      ∃ e, s.files.makeDirectories p.compiler.settings.outputPath = .error e)

structure Touched (p : Plan) (s : Site) (made : Files) (place : List String) (b : Batch) : Prop where
  makes : s.files.makeDirectories p.compiler.settings.outputPath = .ok (made, place)
  someone : ∃ i dir r w, p.dirs[i]? = some dir ∧ b.stage i = .writing r w ∧ p.env.fails dir .makeDirectory = false
  layers : Layered made place (fun i => (b.stage i).held) (fun i => (b.stage i).kept) b.site.files
  sits : ∀ i r w, b.stage i = .writing r w → w.Sits place r.filename

structure Orderly (p : Plan) (s : Site) (b : Batch) : Prop where
  outside : ∀ i, p.dirs[i]? = none → b.stage i = .waiting
  foreseen : ∀ i dir, p.dirs[i]? = some dir → p.Foreseen s dir (b.stage i)
  files : p.Untouched s b ∨ ∃ made place, p.Touched s made place b

variable {p : Plan} {s : Site} {b b' : Batch} {dir : String} {made : Files} {place : List String}

theorem Touched.extends_site (touched : p.Touched s made place b) (sound : s.files.Sound) :
    s.files.Extends b.site.files := by
  have grown := (Files.made_of_makeDirectories touched.makes sound).grown
  exact grown.extends.trans touched.layers.extends_ground

theorem Orderly.documents (orderly : p.Orderly s b) (sound : s.files.Sound) {q : List String}
    (found : s.files.locate dir = .ok (q, .directory)) :
    (p.call dir).withoutCache.documents s = (p.call dir).documents b.site := by
  have same : b.site.files.documents dir = s.files.documents dir := by
    rcases orderly.files with untouched | ⟨made, place, touched⟩
    · rw [untouched.files]
    · have grown := (Files.made_of_makeDirectories touched.makes sound).grown
      refine Files.documents_congr touched.layers.sound sound ((touched.extends_site sound).locate found) found ?_
      intro x document
      rw [touched.layers.document_iff x document]
      rcases grown.entries x.1 with same | ⟨absent, made⟩
      · rw [same]
      · have other : x.2 ≠ .directory := by
          rintro directory
          simp [Files.holdsDocument, directory] at document
        simp [absent, made, Ne.symm other]
  rw [Call.documents, Call.documents, Compiler.documents, Compiler.documents]
  change (s.files.documents dir).mapError _ >>= _ = (b.site.files.documents dir).mapError _ >>= _
  rw [same]
  rfl

theorem held_put {t : Site} {i : Nat} {x : Stage} : (fun j => ((b.put t i x).stage j).held) =
    Function.update (fun j => (b.stage j).held) i x.held := by
  funext j
  by_cases same : j = i
  next => simp [same]
  next => simp [same, Batch.stage_put_of_ne]

theorem kept_put {t : Site} {i : Nat} {x : Stage} : (fun j => ((b.put t i x).stage j).kept) =
    Function.update (fun j => (b.stage j).kept) i x.kept := by
  funext j
  by_cases same : j = i
  next => simp [same]
  next => simp [same, Batch.stage_put_of_ne]

theorem Orderly.outside_put {t : Site} {i : Nat} {x : Stage} (orderly : p.Orderly s b)
    (here : p.dirs[i]? = some dir) (j : Nat) (beyond : p.dirs[j]? = none) : (b.put t i x).stage j = .waiting := by
  have other : j ≠ i := by
    rintro rfl
    rw [here] at beyond
    cases beyond
  rw [Batch.stage_put_of_ne other]
  exact orderly.outside j beyond

theorem Orderly.foreseen_put {t : Site} {i : Nat} {x : Stage} (orderly : p.Orderly s b)
    (new : ∀ dir, p.dirs[i]? = some dir → p.Foreseen s dir x) (j : Nat) (dir : String)
    (here : p.dirs[j]? = some dir) : p.Foreseen s dir ((b.put t i x).stage j) := by
  by_cases same : j = i
  next =>
    subst same
    rw [Batch.stage_put_self]
    exact new dir here
  next =>
    rw [Batch.stage_put_of_ne same]
    exact orderly.foreseen j dir here

theorem Orderly.files_put (orderly : p.Orderly s b) {i : Nat} {x : Stage} {t : Site}
    (files : t.files = b.site.files) (before : ∀ r w, b.stage i ≠ .writing r w)
    (after : ∀ r w, x = .writing r w → w = .begun) :
    p.Untouched s (b.put t i x) ∨ ∃ made place, p.Touched s made place (b.put t i x) := by
  have idle : (b.stage i).held = none ∧ (b.stage i).kept = none := by
    cases stage : b.stage i with
    | writing r w => exact absurd stage (before r w)
    | waiting | started | failed => exact ⟨rfl, rfl⟩
  have idle' : x.held = none ∧ x.kept = none := by
    cases x with
    | writing r w =>
      rw [after r w rfl]
      exact ⟨rfl, rfl⟩
    | waiting | started | failed => exact ⟨rfl, rfl⟩
  rcases orderly.files with untouched | ⟨made, place, touched⟩
  · refine .inl ⟨files.trans untouched.files, fun j r w writes => ?_⟩
    rcases Batch.stage_put_eq.mp writes with ⟨-, new⟩ | ⟨-, old⟩
    · exact .inl (after r w new)
    · exact untouched.early j r w old
  · refine .inr ⟨made, place, touched.makes, ?_, ?_, fun j r w writes => ?_⟩
    · obtain ⟨j, dir, r, w, here, writes, goes⟩ := touched.someone
      have other : j ≠ i := fun same => before r w (same ▸ writes)
      exact ⟨j, dir, r, w, here, Batch.stage_put_eq.mpr (.inr ⟨other, writes⟩), goes⟩
    · rw [held_put, kept_put, idle'.1, idle'.2, Batch.site_put, files]
      exact (touched.layers.idle idle.1).unkept idle.2
    · rcases Batch.stage_put_eq.mp writes with ⟨-, new⟩ | ⟨-, old⟩
      · rw [after r w new]
        trivial
      · exact touched.sits j r w old

theorem Orderly.verdict_write {i : Nat} {r : Compiled} {w w' : Writing} {fs : Files} (orderly : p.Orderly s b)
    (sound : s.files.Sound) (writes : b.stage i = .writing r w)
    (advances : (p.replacement dir r).Advances (b.site.files, w) (fs, w')) :
    (p.replacement dir r).verdict s.files w' = (p.replacement dir r).verdict s.files w := by
  generalize before : (b.site.files, w) = x, after : (fs, w') = y at advances
  obtain @⟨gs, v, t, unfinished, -⟩ := advances
  cases before
  have reached : ((p.replacement dir r).advance t b.site.files w).2 = w' := by rw [← after]
  rw [← reached]
  -- Only the first step and the last one ask the files: for the directory, and for what is in the way.
  rcases orderly.files with untouched | ⟨made, place, touched⟩
  · refine Replacement.verdict_advance (fun _ => by rw [untouched.files]) fun q u published => ?_
    rcases untouched.early i r w writes with begun | ⟨⟨f, ended⟩, -⟩
    · simp [begun] at published
    · exact absurd ended (unfinished _)
  · have makes : s.files.makeDirectories (p.replacement dir r).dir = .ok (made, place) := touched.makes
    have again : b.site.files.makeDirectories (p.replacement dir r).dir = .ok (b.site.files, place) :=
      (Files.made_of_makeDirectories touched.makes sound).again _ touched.layers.extends_ground
    refine Replacement.verdict_advance (fun _ => by rw [again, makes]; rfl) fun q u published => ?_
    have sits := touched.sits i r w writes
    rw [published] at sits
    obtain ⟨rfl, plain⟩ := sits
    have artifact : IsArtifact (p.replacement dir r).name := ⟨plain, Text.lower r.industry, rfl⟩
    simp [Replacement.blocked, makes, touched.layers.directory_iff artifact]

theorem Untouched.idle (untouched : p.Untouched s b) (i : Nat) :
    (b.stage i).held = none ∧ (b.stage i).kept = none := by
  cases stage : b.stage i with
  | waiting | started | failed => exact ⟨rfl, rfl⟩
  | writing r w =>
    rcases untouched.early i r w stage with rfl | ⟨⟨f, rfl⟩, -⟩
    · exact ⟨rfl, rfl⟩
    · exact ⟨rfl, rfl⟩

theorem Untouched.write {i : Nat} {r : Compiled} {w w' : Writing} {fs : Files} (untouched : p.Untouched s b)
    (sound : s.files.Sound) (here : p.dirs[i]? = some dir) (writes : b.stage i = .writing r w)
    (advances : (p.replacement dir r).Advances (b.site.files, w) (fs, w')) :
    p.Untouched s (b.put { b.site with files := fs } i (.writing r w')) ∨
      ∃ made place, p.Touched s made place (b.put { b.site with files := fs } i (.writing r w')) := by
  generalize before : (b.site.files, w) = x, after : (fs, w') = y at advances
  obtain @⟨gs, v, t, unfinished, -⟩ := advances
  cases before
  -- Where no directory is made yet, this is the first step of the job.
  obtain rfl : w = .begun :=
    (untouched.early i r w writes).resolve_right fun ⟨⟨f, ended⟩, _⟩ => unfinished _ ended
  have refused {f : Failure} (why : p.env.fails dir .makeDirectory = true ∨
      ∃ e, s.files.makeDirectories p.compiler.settings.outputPath = .error e) :
      p.Untouched s (b.put { b.site with files := b.site.files } i (.writing r (.ended (.error f)))) := by
    refine ⟨untouched.files, fun j r' v writes' => ?_⟩
    rcases Batch.stage_put_eq.mp writes' with ⟨rfl, new⟩ | ⟨-, old⟩
    · cases new
      exact .inr ⟨⟨f, rfl⟩, dir, here, why⟩
    · exact untouched.early j r' v old
  rw [Replacement.advance] at after
  split at after
  next fails =>
    cases after
    exact .inl (refused (.inl fails))
  next goes =>
    have makes : b.site.files.makeDirectories (p.replacement dir r).dir =
        s.files.makeDirectories p.compiler.settings.outputPath := by
      rw [untouched.files]
      rfl
    rw [makes] at after
    cases made : s.files.makeDirectories p.compiler.settings.outputPath with
    | error e =>
      rw [made] at after
      cases after
      exact .inl (refused (.inr ⟨e, made⟩))
    | ok q =>
      obtain ⟨ground, place⟩ := q
      rw [made] at after
      obtain ⟨rfl, rfl⟩ := Prod.mk.inj after
      have bare : Layered fs place (fun j => (b.stage j).held) (fun j => (b.stage j).kept) fs :=
        .bare (Files.made_of_makeDirectories made sound).sound (fun j => (untouched.idle j).1)
          fun j => (untouched.idle j).2
      refine .inr ⟨fs, place, made, ?_, ?_, fun j r' v writes' => ?_⟩
      · exact ⟨i, dir, r, .placed place, here, Batch.stage_put_self, Bool.eq_false_of_not_eq_true goes⟩
      · rw [held_put, kept_put]
        exact (bare.idle (untouched.idle i).1).unkept (untouched.idle i).2
      · rcases Batch.stage_put_eq.mp writes' with ⟨-, new⟩ | ⟨-, old⟩
        · cases new
          rfl
        · rcases untouched.early j r' v old with rfl | ⟨⟨f, rfl⟩, -⟩
          · trivial
          · trivial

theorem Orderly.write {i : Nat} {r : Compiled} {w w' : Writing} {fs : Files} (orderly : p.Orderly s b)
    (sound : s.files.Sound) (here : p.dirs[i]? = some dir) (writes : b.stage i = .writing r w)
    (advances : (p.replacement dir r).Advances (b.site.files, w) (fs, w')) :
    p.Orderly s (b.put { b.site with files := fs } i (.writing r w')) := by
  have foreseen := orderly.foreseen i dir here
  rw [writes] at foreseen
  refine ⟨orderly.outside_put here, orderly.foreseen_put fun dir' here' => ?_, ?_⟩
  · obtain rfl := Option.some.inj (here.symm.trans here')
    exact ⟨foreseen.1, (orderly.verdict_write sound writes advances).trans foreseen.2⟩
  -- The job may be the first to come to the directory; otherwise it is there and stays.
  · rcases orderly.files with untouched | ⟨made, place, touched⟩
    · exact untouched.write sound here writes advances
    · have made' := Files.made_of_makeDirectories touched.makes sound
      have again : b.site.files.makeDirectories (p.replacement dir r).dir = .ok (b.site.files, place) :=
        made'.again _ touched.layers.extends_ground
      have named : ∃ stem, (p.replacement dir r).name = stem ++ ".py" := ⟨Text.lower r.industry, rfl⟩
      have inside : w.Sits place (p.replacement dir r).name := touched.sits i r w writes
      have mine : (b.stage i).held = w.held (p.replacement dir r).content := by
        rw [writes]
        rfl
      have own : (b.stage i).kept = w.kept (p.replacement dir r).name (p.replacement dir r).content := by
        rw [writes]
        rfl
      obtain ⟨layers, sits⟩ := touched.layers.advance made'.proper again named inside mine own advances
      refine .inr ⟨made, place, touched.makes, ?_, ?_, fun j r' v writes' => ?_⟩
      · obtain ⟨j, dir', r', v, here', writes', goes⟩ := touched.someone
        by_cases same : j = i
        next =>
          subst same
          rw [here] at here'
          cases here'
          exact ⟨j, dir, r, w', here, Batch.stage_put_self, goes⟩
        next => exact ⟨j, dir', r', v, here', Batch.stage_put_eq.mpr (.inr ⟨same, writes'⟩), goes⟩
      · rw [held_put, kept_put]
        exact layers
      · rcases Batch.stage_put_eq.mp writes' with ⟨-, new⟩ | ⟨-, old⟩
        · cases new
          exact sits
        · exact touched.sits j r' v old

theorem Orderly.step (orderly : p.Orderly s b) (sound : s.files.Sound)
    (located : ∀ dir ∈ p.dirs, ∃ q, s.files.locate dir = .ok (q, .directory)) (step : p.Step b b') :
    p.Orderly s b' := by
  cases step with
  | @start i dir here waits turn room =>
    exact ⟨orderly.outside_put here, orderly.foreseen_put fun _ _ => trivial,
      orderly.files_put rfl (by simp [waits]) nofun⟩
  | @compile i dir here started honest =>
    obtain ⟨q, found⟩ := located dir (List.mem_of_getElem? here)
    have same := Call.run_of_honest honest (orderly.documents sound found)
    refine ⟨orderly.outside_put here, orderly.foreseen_put fun dir' here' => ?_,
      orderly.files_put Call.files_run (by simp [started]) fun r w made => ?_⟩
    · obtain rfl := Option.some.inj (here.symm.trans here')
      -- Compiled now or at the start, the job fails alike or has a result of the same essence.
      generalize ((p.call dir).run b.site).2 = result at same ⊢
      cases result with
      | error f =>
        generalize alone : ((p.call dir).withoutCache.run s).2 = result' at same
        cases result' with
        | error f' =>
          cases same
          exact alone
        | ok r' => cases same
      | ok r => exact ⟨same.symm, rfl⟩
    · generalize ((p.call dir).run b.site).2 = result at made
      cases result with
      | error f => cases made
      | ok r' =>
        cases made
        rfl
  | @write i dir r w w' fs here writes advances => exact orderly.write sound here writes advances
  | drift t files =>
    refine ⟨orderly.outside, orderly.foreseen, ?_⟩
    rcases orderly.files with untouched | ⟨made, place, touched⟩
    · exact .inl ⟨files.trans untouched.files, untouched.early⟩
    · refine .inr ⟨made, place, touched.makes, touched.someone, ?_, touched.sits⟩
      rw [files]
      exact touched.layers

theorem Orderly.start : p.Orderly s (.start s) where
  outside _ _ := rfl
  foreseen _ _ _ := trivial
  files := .inl ⟨rfl, nofun⟩

theorem Orderly.run (sound : s.files.Sound)
    (located : ∀ dir ∈ p.dirs, ∃ q, s.files.locate dir = .ok (q, .directory))
    (steps : ReflTransGen p.Step (.start s) b) : p.Orderly s b := by
  induction steps with
  | refl => exact .start
  | tail _ step ih => exact ih.step sound located step

end Plan

end Compiler

end Flowsheet
