import Flowsheet.Proofs.Compiler.Writing

set_option autoImplicit false

namespace Flowsheet

namespace Files

variable {fs fs' : Files} {p q : List String}

def file? (fs : Files) (p : List String) : Option File :=
  match fs.get? p with
  | some (.file f) => some f
  | _ => none

theorem file?_eq_some {f : File} : fs.file? p = some f ↔ fs.get? p = some (.file f) := by
  unfold file?
  split
  next g held => simp [held]
  next other => exact ⟨nofun, fun held => absurd held (other f)⟩

theorem Grown.file? (grown : fs.Grown fs') : fs'.file? = fs.file? := by
  funext p
  rcases grown.entries p with same | ⟨absent, made⟩
  · simp [Files.file?, same]
  · simp [Files.file?, absent, made]

theorem file?_set_file {f : File} (below : p ≠ []) :
    (fs.set p (.file f)).file? = Function.update fs.file? p (some f) := by
  funext q
  by_cases same : q = p
  next => simp [file?, get?_set below, same]
  next => simp [file?, get?_set below, same]

theorem file?_erase (below : p ≠ []) : (fs.erase p).file? = Function.update fs.file? p none := by
  funext q
  by_cases same : q = p
  next => simp [file?, get?_erase below, same]
  next => simp [file?, get?_erase below, same]

theorem extends_of_clear (working : fs'.working = fs.working) (clear : fs.get? p ≠ some .directory)
    (others : ∀ q, q ≠ p → fs'.get? q = fs.get? q) : fs.Extends fs' := by
  refine ⟨working, fun q here => ?_⟩
  have other : q ≠ p := by
    rintro rfl
    exact clear here
  rw [others q other, here]

theorem extends_set_file {f : File} (below : p ≠ []) (clear : fs.get? p ≠ some .directory) :
    fs.Extends (fs.set p (.file f)) :=
  extends_of_clear rfl clear fun q other => by rw [get?_set below, if_neg other]

theorem extends_erase (below : p ≠ []) (clear : fs.get? p ≠ some .directory) : fs.Extends (fs.erase p) :=
  extends_of_clear rfl clear fun q other => by rw [get?_erase below, if_neg other]

end Files

namespace Artifact

namespace Replacement

open Relation

def target (a : Replacement) (ground : Files) : List String :=
  (Path.components a.dir).foldl Files.step (ground.start a.dir) ++ [a.name]

/-- The steps with what goes on inside them. -/
inductive Moves (a : Replacement) : Files × Writing → Files × Writing → Prop
  | whole {x y : Files × Writing} (advances : a.Advances x y) : Moves a x y
  | directories {fs made : Files} {place : List String} (count : Nat)
      (starts : fs.get? (fs.start a.dir) = some .directory)
      (makes : ((Path.components a.dir).take count).foldlM (fun (fs, place) c => fs.enter place c)
        (fs, fs.start a.dir) = .ok (made, place)) : Moves a (fs, .begun) (made, .begun)
  | piece {fs : Files} {place : List String} {t : String} (part : List UInt8) (inside : part <+: a.content) :
      Moves a (fs, .opened place t)
        (fs.set (place ++ [t]) (.file { data := part, permissions := 0o600 }), .opened place t)

structure Holds (a : Replacement) (ground fs : Files) (place : List String) (t : String) (f : File) : Prop where
  working : fs.working = ground.working
  located : fs.locate a.dir = .ok (place, .directory)
  plain : '/' ∉ a.name.toList
  named : t ≠ a.name
  free : ground.file? (place ++ [t]) = none
  files : fs.file? = Function.update ground.file? (place ++ [t]) (some f)

def Stands (a : Replacement) (ground : Files) : Files × Writing → Prop
  | (fs, .begun) => ground.Grown fs ∧ fs.Sound
  | (fs, .placed place) => fs.working = ground.working ∧ fs.file? = ground.file? ∧
      fs.locate a.dir = .ok (place, .directory)
  | (fs, .opened place t) => ∃ part, a.Holds ground fs place t { data := part, permissions := 0o600 }
  | (fs, .filled place t) | (fs, .closed place t) =>
    a.Holds ground fs place t { data := a.content, permissions := 0o600 }
  | (fs, .published place t) => a.Holds ground fs place t { data := a.content }
  | (fs, .ended (.error _)) => fs.file? = ground.file?
  | (fs, .ended (.ok path)) =>
    path = a.path ∧ fs.working = ground.working ∧
      fs.file? = Function.update ground.file? (a.target ground) (some { data := a.content }) ∧
      ∃ place, fs.locate a.dir = .ok (place, .directory) ∧ '/' ∉ a.name.toList

variable {a : Replacement} {ground fs : Files} {place : List String} {t : String} {f : File}
  {x y : Files × Writing}

theorem target_eq (working : fs.working = ground.working) (located : fs.locate a.dir = .ok (place, .directory)) :
    a.target ground = place ++ [a.name] := by
  obtain ⟨leads, -⟩ := Files.locate_eq_ok.mp located
  rw [target, Files.start, ← working, Files.follow_eq_foldl (Files.place_eq_ok.mp leads).2, Files.start]

namespace Holds

theorem create (working : fs.working = ground.working) (files : fs.file? = ground.file?)
    (located : fs.locate a.dir = .ok (place, .directory)) (plain : '/' ∉ a.name.toList) (named : t ≠ a.name)
    (new : fs.get? (place ++ [t]) = none) : a.Holds ground (fs.set (place ++ [t]) (.file f)) place t f where
  working := working
  located := (Files.extends_set_file (by simp) (by simp [new])).locate located
  plain := plain
  named := named
  free := by rw [← files, Files.file?, new]
  files := by rw [Files.file?_set_file (by simp), files]

theorem get?_temporary (h : a.Holds ground fs place t f) : fs.get? (place ++ [t]) = some (.file f) := by
  rw [← Files.file?_eq_some, h.files, Function.update_self]

theorem clear (h : a.Holds ground fs place t f) : fs.get? (place ++ [t]) ≠ some .directory := by
  simp [h.get?_temporary]

theorem refill {g : File} (h : a.Holds ground fs place t f) :
    a.Holds ground (fs.set (place ++ [t]) (.file g)) place t g where
  working := h.working
  located := (Files.extends_set_file (by simp) h.clear).locate h.located
  plain := h.plain
  named := h.named
  free := h.free
  files := by rw [Files.file?_set_file (by simp), h.files, Function.update_idem]

theorem file?_erase (h : a.Holds ground fs place t f) : (fs.erase (place ++ [t])).file? = ground.file? := by
  rw [Files.file?_erase (by simp), h.files, Function.update_idem, ← h.free, Function.update_eq_self]

theorem publish (h : a.Holds ground fs place t { data := a.content })
    (goes : fs.get? (place ++ [a.name]) ≠ some .directory) :
    a.Stands ground ((fs.erase (place ++ [t])).set (place ++ [a.name]) (.file { data := a.content }),
      .ended (.ok a.path)) := by
  -- The temporary file goes and the target is set; a directory in its place would have stopped this.
  have clear : (fs.erase (place ++ [t])).get? (place ++ [a.name]) ≠ some .directory := by
    rw [Files.get?_erase (by simp), if_neg (by simpa using h.named.symm)]
    exact goes
  refine ⟨rfl, h.working, ?_, place, ?_, h.plain⟩
  · rw [Files.file?_set_file (by simp), h.file?_erase, target_eq h.working h.located]
  · exact (Files.extends_set_file (by simp) clear).locate ((Files.extends_erase (by simp) h.clear).locate h.located)

end Holds

theorem Stands.move (stands : a.Stands ground x) (moves : a.Moves x y) : a.Stands ground y := by
  cases moves with
  | directories count starts makes =>
    obtain ⟨grown, sound⟩ := stands
    have entered := Files.entered_of_foldlM makes sound
      (fun c inside => Path.plain_of_mem_components (List.mem_of_mem_take inside)) starts
    exact ⟨grown.trans entered.grown, entered.sound⟩
  | piece part inside =>
    obtain ⟨part', holds⟩ := stands
    exact ⟨part, holds.refill⟩
  | whole advances =>
    obtain @⟨fs, w, t, unfinished, free⟩ := advances
    -- Before the temporary file is there the files are those of the ground, then it is all that differs.
    cases w with
    | begun =>
      obtain ⟨grown, sound⟩ := stands
      rw [advance]
      split
      · exact grown.file?
      · split
        · exact grown.file?
        next made place makes =>
          have made := Files.made_of_makeDirectories makes sound
          have reached := grown.trans made.grown
          exact ⟨reached.working, reached.file?, made.found _ (.refl _)⟩
    | placed place =>
      obtain ⟨working, files, located⟩ := stands
      rw [advance]
      split
      · exact files
      next fits =>
        split
        · exact files
        · obtain ⟨⟨n, named⟩, new⟩ := free place rfl
          have other : t ≠ a.name := named ▸ temporaryName_ne a.name n
          exact ⟨[], .create working files located (by simpa using fits) other new⟩
    | opened place u =>
      obtain ⟨part, holds⟩ := stands
      rw [advance]
      split
      · exact holds.file?_erase
      · exact holds.refill
    | filled place u =>
      rw [advance]
      split
      · exact Holds.file?_erase stands
      · exact stands
    | closed place u =>
      rw [advance]
      split
      · exact Holds.file?_erase stands
      · exact Holds.refill stands
    | published place u =>
      have holds : a.Holds ground fs place u { data := a.content } := stands
      rw [advance]
      split
      · exact holds.file?_erase
      next goes =>
        exact holds.publish fun there => goes (by simp [there])
    | ended r => exact absurd rfl (unfinished r)

theorem stands_of_moves (sound : ground.Sound) (moves : ReflTransGen a.Moves (ground, .begun) x) :
    a.Stands ground x := by
  induction moves with
  | refl => exact ⟨.refl _, sound⟩
  | tail _ last ih => exact ih.move last

theorem Stands.files (stands : a.Stands ground x) : x.1.file? = ground.file? ∨
    (∃ place t f, a.Holds ground x.1 place t f) ∨
      x.1.file? = Function.update ground.file? (a.target ground) (some { data := a.content }) := by
  obtain ⟨fs, w⟩ := x
  cases w with
  | begun => exact .inl stands.1.file?
  | placed place => exact .inl stands.2.1
  | opened place t =>
    obtain ⟨part, holds⟩ := stands
    exact .inr (.inl ⟨_, _, _, holds⟩)
  | filled place t | closed place t | published place t => exact .inr (.inl ⟨_, _, _, stands⟩)
  | ended r =>
    cases r with
    | error failure => exact .inl stands
    | ok path => exact .inr (.inr stands.2.2.1)

theorem Stands.target (stands : a.Stands ground x) : x.1.file? (a.target ground) = ground.file? (a.target ground) ∨
    x.1.file? (a.target ground) = some { data := a.content } := by
  rcases stands.files with same | ⟨place, t, f, h⟩ | new
  · exact .inl (congrFun same _)
  · rw [h.files, target_eq h.working h.located, Function.update_of_ne (by simpa using h.named.symm)]
    exact .inl rfl
  · exact .inr (by rw [new, Function.update_self])

theorem Stands.others {p : List String} {g : File} (stands : a.Stands ground x) (other : p ≠ a.target ground)
    (there : ground.file? p = some g) : x.1.file? p = some g := by
  rcases stands.files with same | ⟨place, t, f, h⟩ | new
  · rw [same, there]
  · have apart : p ≠ place ++ [t] := by
      rintro rfl
      rw [h.free] at there
      cases there
    rw [h.files, Function.update_of_ne apart, there]
  · rw [new, Function.update_of_ne other, there]

theorem Stands.read {path : String} (stands : a.Stands ground (fs, .ended (.ok path)))
    (named : ∃ stem, a.name = stem ++ ".py") : fs.read path = .ok a.content := by
  obtain ⟨rfl, working, files, place, located, plain⟩ := stands
  have proper : Path.Proper a.name := IsArtifact.proper ⟨plain, named⟩
  have held : fs.get? (place ++ [a.name]) = some (.file { data := a.content }) := by
    rw [← Files.file?_eq_some, files, ← target_eq working located, Function.update_self]
  rw [path, Files.read_join located proper held]
  exact if_pos (by decide : Nat.testBit 0o644 8 = true)

theorem trace_ok_iff : (∃ path, (trace a.fails fs a.dir a.name a.content).2 = .ok path) ↔
    (∀ step, a.fails step = false) ∧ '/' ∉ a.name.toList ∧ ∃ made place,
      fs.makeDirectories a.dir = .ok (made, place) ∧ made.get? (place ++ [a.name]) ≠ some .directory := by
  -- It ends well when none of the hurdles is in the way.
  rw [← verdict_begun]
  constructor
  · rintro ⟨path, ends⟩
    rw [verdict] at ends
    split at ends
    next => cases ends
    next noDirectory =>
      split at ends
      next => cases ends
      next made place makes =>
        have known : a.blocked fs place = decide (made.get? (place ++ [a.name]) = some .directory) := by
          simp [blocked, makes]
        rw [take] at ends
        split at ends
        next => cases ends
        next clear =>
          simp only [hurdles, known, List.find?_eq_none, List.forall_mem_cons, Bool.not_eq_true,
            Bool.or_eq_false_iff, decide_eq_false_iff_not] at clear
          obtain ⟨slash, temporary, fill, close, publish, ⟨move, free⟩, -⟩ := clear
          refine ⟨fun step => ?_, by simpa using slash, made, place, makes, free⟩
          cases step with
          | makeDirectory => simpa using noDirectory
          | createTemporary => exact temporary
          | fill => exact fill
          | close => exact close
          | publish => exact publish
          | move => exact move
  · rintro ⟨goes, plain, made, place, makes, free⟩
    exact ⟨a.path, verdict_of_free goes plain makes free⟩

end Replacement

open Relation in
/-- Writing a result replaces its file as a whole or leaves every file as it was, wherever it fails,
and shows nobody anything else. -/
theorem written_whole_or_not_at_all {fs : Files} (sound : fs.Sound) (r : Compiled) (dir : String)
    (fails : WriteStep → Bool) :
    let a : Replacement := { dir, name := r.filename, content := r.script, fails }
    let run := trace fails fs dir r.filename r.script
    (∀ now w, ReflTransGen a.Moves (fs, .begun) (now, w) →
      (now.file? (a.target fs) = fs.file? (a.target fs) ∨ now.file? (a.target fs) = some { data := r.script }) ∧
      (∀ p f, p ≠ a.target fs → fs.file? p = some f → now.file? p = some f) ∧
      (∀ failure, w = .ended (.error failure) → now.file? = fs.file?) ∧
      ∀ path, w = .ended (.ok path) → path = Path.join [dir, r.filename] ∧
        now.read path = .ok r.script ∧
        now.file? = Function.update fs.file? (a.target fs) (some { data := r.script })) ∧
    (∀ now ∈ run.1, ∃ w, ReflTransGen a.Moves (fs, .begun) (now, w)) ∧
    ReflTransGen a.Moves (fs, .begun) (run.1.headD fs, .ended run.2) ∧
    ((∃ path, run.2 = .ok path) ↔ (∀ step, fails step = false) ∧ '/' ∉ r.filename.toList ∧ ∃ made place,
      fs.makeDirectories dir = .ok (made, place) ∧ made.get? (place ++ [r.filename]) ≠ some .directory) := by
  intro a run
  have closely {x : Files × Writing} (advances : ReflTransGen a.Advances (fs, .begun) x) :
      ReflTransGen a.Moves (fs, .begun) x := ReflTransGen.mono (fun _ _ => .whole) _ _ advances
  refine ⟨fun now w moves => ?_, fun now passed => ?_, ?_, Replacement.trace_ok_iff (a := a)⟩
  · have stands := Replacement.stands_of_moves sound moves
    refine ⟨stands.target, fun p f => stands.others, ?_, ?_⟩
    · rintro failure rfl
      exact stands
    · rintro path rfl
      exact ⟨stands.1, stands.read ⟨Text.lower r.industry, rfl⟩, stands.2.2.1⟩
  · obtain ⟨w, advances⟩ := (a.passes_trace fs).1 now passed
    exact ⟨w, closely advances⟩
  · exact closely (a.passes_trace fs).2

def shelf : Files where
  entries := [(["out"], .directory), (["out", "a.py"], .file { data := [1] }),
    (["out", "b.py"], .file { data := [2] })]

def leaflet : Compiled where
  dir := "a"
  industry := "a"
  script := Text.bytes "pass"
  digest := ""
  processes := 0

theorem sound_shelf : shelf.Sound := by decide

theorem makes_shelf : shelf.makeDirectories "out" = .ok (shelf, ["out"]) := by decide +kernel

theorem filename_leaflet : leaflet.filename = "a.py" := by
  rw [Compiled.filename, ← String.toList_inj, toList_py, Text.lower, String.toList_map]
  decide

def leafletRun (moves : Bool) : List Files × Except Failure String :=
  trace (fun step => step = .move && !moves) shelf "out" "a.py" (Text.bytes "pass")

theorem written_whole_or_not_at_all_shelf : shelf.Sound ∧
    ((∃ failure, (leafletRun false).2 = .error failure) ∧
      ((leafletRun false).1.headD shelf).file? = shelf.file?) ∧
    (leafletRun true).2 = .ok (Path.join ["out", "a.py"]) ∧
      ((leafletRun true).1.headD shelf).read (Path.join ["out", "a.py"]) = .ok (Text.bytes "pass") ∧
      ((leafletRun true).1.headD shelf).file? ["out", "b.py"] = some { data := [2] } := by
  refine ⟨sound_shelf, ?_, ?_⟩
  · obtain ⟨every, -, ends, well⟩ :=
      written_whole_or_not_at_all sound_shelf leaflet "out" fun step => step = .move && !false
    rw [filename_leaflet] at every ends well
    cases result : (leafletRun false).2 with
    | ok path => exact absurd ((well.mp ⟨path, result⟩).1 .move) (by decide)
    | error failure => exact ⟨⟨failure, rfl⟩, (every _ _ ends).2.2.1 failure (congrArg _ result)⟩
  · obtain ⟨every, -, ends, well⟩ :=
      written_whole_or_not_at_all sound_shelf leaflet "out" fun step => step = .move && !true
    rw [filename_leaflet] at every ends well
    obtain ⟨path, result⟩ := well.mpr ⟨by simp, by decide, _, _, makes_shelf, by decide⟩
    obtain ⟨-, others, -, after⟩ := every _ _ ends
    obtain ⟨rfl, read, -⟩ := after path (congrArg _ result)
    exact ⟨result, read, others _ _ (by decide) rfl⟩

end Artifact

end Flowsheet
