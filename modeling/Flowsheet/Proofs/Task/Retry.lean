import Flowsheet.Proofs.Compiler.Causes
import Flowsheet.Proofs.Files

set_option autoImplicit false

namespace Flowsheet

def passingCauses : List Cause := [.notExist, .fileSystem, .canceled, .deadlineExceeded]

structure Passing (f : Failure) : Prop where
  caused : f.causes ≠ []
  passes : ∀ c ∈ f.causes, c ∈ passingCauses

namespace Passing

variable {f : Failure}

theorem of {cause : Cause} {message : String} (passing : cause ∈ passingCauses) : Passing (.of cause message) :=
  ⟨by simp [Failure.of], by simpa [Failure.of] using passing⟩

theorem within (passing : Passing f) (context : String) : Passing (f.within context) :=
  ⟨passing.caused, passing.passes⟩

theorem file (e : FileError) (attempt path : String) : Passing (e.failure attempt path) := by
  cases e with
  | _ => exact .of (by decide)

theorem context (ctx : Context) : Passing ctx.failure := by
  unfold Context.failure
  split
  · exact .of (by decide)
  · exact .of (by decide)

theorem step (step : WriteStep) (path : String) (e : FileError) : Passing (Artifact.stepFailure step path e) := by
  cases step with
  | publish => exact file ..
  | _ => exact (file ..).within _

theorem notMem (passing : Passing f) {c : Cause} (foreign : c ∉ passingCauses) : c ∉ f.causes :=
  fun inside => foreign (passing.passes c inside)

theorem not_isPermanent (passing : Passing f) : Task.isPermanent f = false := by
  refine List.any_eq_false.mpr fun c inside permanent => ?_
  have disjoint : ∀ c ∈ passingCauses, Task.permanentCauses.contains c = false := by decide
  exact Bool.false_ne_true ((disjoint c (passing.passes c inside)).symm.trans permanent)

end Passing

theorem Lasting.notMem_passing {f : Failure} (lasting : Lasting f) {c : Cause} (passing : c ∈ passingCauses) :
    c ∉ f.causes := by
  have foreign : ∀ c ∈ passingCauses, c ∉ Task.permanentCauses ∧ c ≠ .unknownProcess := by decide
  exact lasting.notMem (foreign c passing).1 (foreign c passing).2

theorem Artifact.write_passing {fs : Files} {dir name : String} {content : List UInt8} {f : Failure}
    (failed : (write fs dir name content).2 = .error f) : Passing f := by
  unfold write trace at failed
  simp only [Bool.false_eq_true, if_false, Bool.false_or] at failed
  cases made : fs.makeDirectories dir with
  | error e =>
    simp only [made] at failed
    cases failed
    exact .step ..
  | ok place =>
    simp only [made] at failed
    split at failed
    · cases failed
      exact .step ..
    · split at failed
      · cases failed
        exact .step ..
      · cases failed

theorem Files.documents_passing {files : Files} {dir : String} {f : Failure}
    (failed : files.documents dir = .error f) : Passing f := by
  rcases bind_eq_error.mp failed with failed | ⟨_, -, failed⟩
  · unfold walk at failed
    split at failed
    · cases failed
      exact .file ..
    · cases failed
    · cases failed
  · cases failed

theorem Compiler.Unavailable.passing {files : Files} {dir : String} {ctx : Context} {f : Failure}
    (unavailable : Unavailable files dir ctx f) : Passing f := by
  cases unavailable with
  | listing failed => exact (Files.documents_passing failed).within _
  | ended => exact .context ctx
  | unreadable => exact .file ..

theorem Compiler.Unsound.lasting {c : Compiler} {s : Site} {dir : String} {ctx : Context} {f : Failure}
    (schema : c.validator = .schema) (unsound : Unsound c s dir ctx f) : Lasting f := by
  cases unsound with
  | undecodable _ _ _ failed => exact (Document.decode_fails ..).lasting f failed
  | @unproducible docs digest f read _ failed =>
    refine (product_fails schema fun d inside => ?_).lasting f failed
    obtain ⟨found, -, holds⟩ := holds_of_read read
    obtain ⟨x, -, -, decoded⟩ := exists_left_of_mem holds inside
    exact Document.tree_of_decode decoded

namespace Task

variable {c : Compiler} {payload : String} {ctx : Context} {s : Site}

theorem skipRetry_compileFailure {f : Failure} (fresh : .skipRetry ∉ f.causes) :
    .skipRetry ∈ (compileFailure f).causes ↔ isPermanent f = true := by
  have same : isPermanent (f.within "compile error") = isPermanent f := rfl
  unfold compileFailure
  dsimp only
  rw [same]
  cases isPermanent f with
  | true => simp [final]
  | false => simpa [Failure.within] using fresh

def target (c : Compiler) (p : Payload) : String := if p.outputDir = "" then c.settings.outputPath else p.outputDir

inductive Handled (c : Compiler) (payload : String) (ctx : Context) (s : Site) : Except Failure Unit → Prop
  | malformed (unread : Payload.decode? payload = none) : Handled c payload ctx s (.error unreadable)
  | undirected {p : Payload} (read : Payload.decode? payload = some p) (blank : p.industryDir = "") :
    Handled c payload ctx s (.error (final Tasks.missingDirectory))
  | uncompiled {p : Payload} {f : Failure} (read : Payload.decode? payload = some p) (directed : p.industryDir ≠ "")
      (failed : (c.compile p.industryDir ctx s).2 = .error f) : Handled c payload ctx s (.error (compileFailure f))
  | unwritten {p : Payload} {s' : Site} {r : Compiled} {f : Failure} (read : Payload.decode? payload = some p)
      (directed : p.industryDir ≠ "") (compiled : c.compile p.industryDir ctx s = (s', .ok r))
      (failed : (Compiler.writeTo r (target c p) s').2 = .error f) :
    Handled c payload ctx s (.error (f.within "failed to write artifact"))
  | written {p : Payload} {s' : Site} {r : Compiled} {path : String} (read : Payload.decode? payload = some p)
      (directed : p.industryDir ≠ "") (compiled : c.compile p.industryDir ctx s = (s', .ok r))
      (done : (Compiler.writeTo r (target c p) s').2 = .ok path) : Handled c payload ctx s (.ok ())

theorem handled (c : Compiler) (payload : String) (ctx : Context) (s : Site) :
    Handled c payload ctx s (handle c payload ctx s).2 := by
  unfold handle
  cases read : Payload.decode? payload with
  | none => exact .malformed read
  | some p =>
    by_cases directed : p.industryDir = ""
    · simp only [directed, if_true]
      exact .undirected read directed
    · simp only [directed, if_false]
      rcases compiled : c.compile p.industryDir ctx s with ⟨s', f | r⟩
      · exact .uncompiled read directed (by rw [compiled])
      · dsimp only
        rw [show (if p.outputDir = "" then c.settings.outputPath else p.outputDir) = target c p from rfl]
        rcases written : Compiler.writeTo r (target c p) s' with ⟨s'', f | path⟩
        · exact .unwritten read directed compiled (by rw [written])
        · exact .written read directed compiled (by rw [written])

theorem retries_exact (schema : c.validator = .schema) (payload : String) (ctx : Context) (s : Site) :
    ((∃ f, (handle c payload ctx s).2 = .error f ∧ .skipRetry ∈ f.causes) ↔
      Payload.decode? payload = none ∨ ∃ p, Payload.decode? payload = some p ∧
        (p.industryDir = "" ∨ p.industryDir ≠ "" ∧ ∃ f, c.Unsound s p.industryDir ctx f)) ∧
    ((∃ f, (handle c payload ctx s).2 = .error f ∧ .skipRetry ∉ f.causes) ↔
      ∃ p, Payload.decode? payload = some p ∧ p.industryDir ≠ "" ∧
        ((∃ f, Compiler.Unavailable s.files p.industryDir ctx f) ∨
          ∃ s' r f, c.compile p.industryDir ctx s = (s', .ok r) ∧
            (Compiler.writeTo r (target c p) s').2 = .error f)) ∧
    ∀ dir f, (c.compile dir ctx s).2 = .error f →
      (isPermanent f = true ↔ ∀ cause ∈ f.causes, cause ∉ passingCauses) ∧
        (.unknownProcess ∈ f.causes → .unitMismatch ∈ f.causes) ∧ .metaNotSet ∉ f.causes ∧
          .schemaNotFound ∉ f.causes := by
  have apart {dir : String} {f g : Failure} (unavailable : Compiler.Unavailable s.files dir ctx f)
      (unsound : c.Unsound s dir ctx g) : False := by
    have same : f = g := Except.error.inj ((Compiler.compile_eq_error.mpr (.inl unavailable)).symm.trans
      (Compiler.compile_eq_error.mpr (.inr unsound)))
    have passing := unavailable.passing.not_isPermanent
    rw [same, (unsound.lasting schema).isPermanent] at passing
    cases passing
  have flawless {dir : String} {s' : Site} {r : Compiled} (compiled : c.compile dir ctx s = (s', .ok r)) :
      (¬ ∃ f, Compiler.Unavailable s.files dir ctx f) ∧ ¬ ∃ f, c.Unsound s dir ctx f := by
    constructor
    · rintro ⟨f, unavailable⟩
      have failed : (c.compile dir ctx s).2 = .error f := Compiler.compile_eq_error.mpr (.inl unavailable)
      simp [compiled] at failed
    · rintro ⟨f, unsound⟩
      have failed : (c.compile dir ctx s).2 = .error f := Compiler.compile_eq_error.mpr (.inr unsound)
      simp [compiled] at failed
  rw [← and_assoc]
  refine ⟨?_, fun dir f failed => ?_⟩
  · have ended := handled c payload ctx s
    generalize (handle c payload ctx s).2 = result at ended ⊢
    cases ended with
    | malformed unread => simp [unread, unreadable, final]
    | undirected read blank => simp [read, blank, final]
    | @uncompiled p f read directed failed =>
      have uncompiled {s' : Site} {r : Compiled} : c.compile p.industryDir ctx s ≠ (s', .ok r) := by
        intro compiled
        simp [compiled] at failed
      rcases Compiler.compile_eq_error.mp failed with unavailable | unsound
      · have retried : .skipRetry ∉ (compileFailure f).causes := by
          rw [skipRetry_compileFailure (unavailable.passing.notMem (by decide)), unavailable.passing.not_isPermanent]
          exact Bool.false_ne_true
        have sound : ¬ ∃ g, c.Unsound s p.industryDir ctx g := fun ⟨_, unsound⟩ => apart unavailable unsound
        have unavailable : ∃ g, Compiler.Unavailable s.files p.industryDir ctx g := ⟨f, unavailable⟩
        simp [read, directed, retried, sound, unavailable]
      · have skipped : .skipRetry ∈ (compileFailure f).causes := by
          have lasting := unsound.lasting schema
          rw [skipRetry_compileFailure (lasting.notMem (by decide) (by decide))]
          exact lasting.isPermanent
        have available : ¬ ∃ g, Compiler.Unavailable s.files p.industryDir ctx g :=
          fun ⟨_, unavailable⟩ => apart unavailable unsound
        have unsound : ∃ g, c.Unsound s p.industryDir ctx g := ⟨f, unsound⟩
        simp [read, directed, skipped, available, unsound, uncompiled]
    | @unwritten p s' r f read directed compiled failed =>
      obtain ⟨available, sound⟩ := flawless compiled
      have passing : Passing f := Artifact.write_passing failed
      have retried : .skipRetry ∉ (f.within "failed to write artifact").causes :=
        (passing.within _).notMem (by decide)
      simp [read, directed, retried, available, sound, compiled, failed]
    | @written p s' r path read directed compiled done =>
      obtain ⟨available, sound⟩ := flawless compiled
      simp [read, directed, available, sound, compiled, done]
  · rcases Compiler.compile_eq_error.mp failed with unavailable | unsound
    · have passing := unavailable.passing
      obtain ⟨cause, inside⟩ := List.exists_mem_of_ne_nil _ passing.caused
      refine ⟨?_, fun foreign => ?_, passing.notMem (by decide), passing.notMem (by decide)⟩
      · rw [passing.not_isPermanent]
        simp only [Bool.false_eq_true, false_iff]
        exact fun none => none cause inside (passing.passes cause inside)
      · exact absurd foreign (passing.notMem (by decide))
    · have lasting := unsound.lasting schema
      refine ⟨?_, fun unknown => ?_, lasting.notMem (by decide) (by decide), lasting.notMem (by decide) (by decide)⟩
      · rw [lasting.isPermanent]
        exact ⟨fun _ cause inside passing => lasting.notMem_passing passing inside, fun _ => rfl⟩
      · exact (lasting.lasts _ unknown).elim (fun permanent => absurd permanent (by decide)) (·.2)

def workshop : Compiler where
  settings := {}
  templates := default

def hollow : Site where
  files := { entries := [(["plant"], .directory), (["plant", "a.yaml"], .file { data := [] })] }

theorem retries_exact_plant :
    (∃ f, (handle workshop "\x7b\"industry_dir\": \"plant\"\x7d" {} hollow).2 = .error f ∧
      .skipRetry ∈ f.causes) ∧
    ∃ f, (handle workshop "\x7b\"industry_dir\": \"plant\"\x7d" {} {}).2 = .error f ∧
      .skipRetry ∉ f.causes := by
  have read : Payload.decode? "\x7b\"industry_dir\": \"plant\"\x7d" = some { industryDir := "plant" } := by
    decide +kernel
  have listed : hollow.files.documents "plant" = .ok [(("plant/a.yaml", "a.yaml"), { data := [] })] := by
    have located : hollow.files.locate "plant" = .ok (["plant"], .directory) := by decide +kernel
    have below : hollow.files.below ["plant"] = hollow.files.entries :=
      Files.below_of_sorted (by decide +kernel)
    simp only [Files.documents, Files.walk, located, below]
    decide +kernel
  have absent : Files.documents {} "plant" = .error (FileError.notFound.failure "lstat" "plant") := by
    decide +kernel
  have empty : Document.decode "plant/a.yaml" [] = .error (Document.empty "plant/a.yaml") := by
    with_unfolding_all rfl
  have checked : workshop.validator = .schema := rfl
  obtain ⟨givenUp, -, -⟩ := retries_exact checked "\x7b\"industry_dir\": \"plant\"\x7d" {} hollow
  obtain ⟨-, triedAgain, -⟩ := retries_exact checked "\x7b\"industry_dir\": \"plant\"\x7d" {} {}
  have nothing : Compiler.Holds {} [] [] := List.Forall₂.nil
  have unsound : workshop.Unsound hollow "plant" {} (Document.empty "plant/a.yaml") :=
    .undecodable listed nothing ⟨rfl, rfl⟩ empty
  exact ⟨givenUp.mpr (.inr ⟨_, read, .inr ⟨by decide, _, unsound⟩⟩),
    triedAgain.mpr ⟨_, read, by decide, .inl ⟨_, .listing absent⟩⟩⟩

end Task

end Flowsheet
