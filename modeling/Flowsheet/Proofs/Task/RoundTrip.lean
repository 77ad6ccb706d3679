import Flowsheet.Proofs.Task.Lifecycle
import Flowsheet.Proofs.Task.Retry

set_option autoImplicit false

namespace Flowsheet

namespace Queue

variable {q : Queue} {s : Site} {r : RawPayload}

theorem enqueue_eq_add {p : Payload} (directed : p.industryDir ≠ "") (up : s.store.reachable = true) :
    q.enqueue s p =
      q.add s p.industryDir (Tasks.completed s.now p).encode (Tasks.completed s.now p).trigger := by
  have id : Payload.uniqueId { industryDir := p.industryDir } = p.uniqueId := rfl
  have industry : Payload.industry { industryDir := p.industryDir } = p.industry := rfl
  simp only [enqueue, add, Tasks.enqueue, directed, up, id, industry, if_false, Bool.not_true, Bool.false_eq_true]
  cases (s.tasks.find? q.name p.uniqueId).isSome with
  | true => rfl
  | false => rfl

theorem enqueueRaw_ofPayload {p : Payload} (writable : (Tasks.completed s.now p).enqueuedAt.isWritable = true) :
    q.enqueueRaw s (.ofPayload p) = q.enqueue s p := by
  have named : Text.ofBytes? (RawPayload.ofPayload p).industryDir = some p.industryDir :=
    Text.ofBytes?_eq_some_iff.mpr rfl
  have blank : (RawPayload.ofPayload p).industryDir = [] ↔ p.industryDir = "" := Text.bytes_eq_nil_iff
  have time : (RawPayload.ofPayload (Tasks.completed s.now p)).enqueuedAt.isWritable = true := writable
  have trigger : (RawPayload.ofPayload (Tasks.completed s.now p)).trigger = (Tasks.completed s.now p).trigger := rfl
  simp only [enqueueRaw, named, blank, RawPayload.completed_ofPayload, RawPayload.encode_ofPayload, time, trigger,
    Bool.not_true, Bool.false_eq_true, if_false]
  by_cases directed : p.industryDir = ""
  · simp only [enqueue, directed, if_true]
  · cases up : s.store.reachable with
    | true => simp [directed, enqueue_eq_add directed up]
    | false => simp [directed, enqueue, up]

theorem enqueueRaw_eq_ok (accepted : (q.enqueueRaw s r).2 = .ok ()) : ∃ dir, dir ≠ "" ∧
    r.industryDir = Text.bytes dir ∧ (r.completed s.now).enqueuedAt.isWritable = true ∧
    (q.enqueueRaw s r).1.tasks = s.tasks ++
      [{ queue := q.name, id := Payload.uniqueId { industryDir := dir }, payload := (r.completed s.now).encode }] := by
  by_cases directed : r.industryDir = []
  · simp [enqueueRaw, directed] at accepted
  cases writable : (r.completed s.now).enqueuedAt.isWritable with
  | false => simp [enqueueRaw, directed, writable] at accepted
  | true =>
    cases named : Text.ofBytes? r.industryDir with
    | none => simp [enqueueRaw, directed, writable, named] at accepted
    | some dir =>
      cases up : s.store.reachable with
      | false => simp [enqueueRaw, directed, writable, named, up] at accepted
      | true =>
        cases taken : (s.tasks.find? q.name (Payload.uniqueId { industryDir := dir })).isSome with
        | true => simp [enqueueRaw, directed, writable, named, up, add, taken] at accepted
        | false =>
          have bytes : r.industryDir = Text.bytes dir := Text.ofBytes?_eq_some_iff.mp named
          have filled : dir ≠ "" := fun blank => directed (bytes.trans (Text.bytes_eq_nil_iff.mpr blank))
          refine ⟨dir, filled, bytes, rfl, ?_⟩
          simp [enqueueRaw, directed, writable, named, up, add, taken, Site.measure]

end Queue

namespace Task

variable {c : Compiler} {payload : String} {ctx : Context} {s : Site}

def carryOut (c : Compiler) (dir out : String) (ctx : Context) (s : Site) : Site × Except Failure Unit :=
  match c.compile dir ctx s with
  | (s, .error f) => (s.measure (Metrics.error "task-handler" (compileErrorKind f)), .error (compileFailure f))
  | (s, .ok r) =>
    match Compiler.writeTo r out s with
    | (s, .error f) =>
      (s.measure (Metrics.error "task-handler" "write_error"), .error (f.within "failed to write artifact"))
    | (s, .ok _) => (s, .ok ())

theorem handle_eq_carryOut {p : Payload} (read : Payload.decode? payload = some p) (directed : p.industryDir ≠ "") :
    handle c payload ctx s = carryOut c p.industryDir (target c p) ctx s := by
  simp only [handle, read, directed, if_false]
  rfl

theorem handle_encode {r : RawPayload} {dir : String} (directed : dir ≠ "") (named : r.industryDir = Text.bytes dir)
    (writable : r.enqueuedAt.isWritable = true) :
    handle c r.encode ctx s =
      carryOut c dir (if r.outputDir = [] then c.settings.outputPath else Text.ofBytes r.outputDir) ctx s := by
  have read := RawPayload.decode?_encode writable
  have dirs : r.shown.industryDir = dir := by rw [RawPayload.shown, named, Text.ofBytes_bytes]
  have out : target c r.shown = if r.outputDir = [] then c.settings.outputPath else Text.ofBytes r.outputDir := by
    simp only [target, RawPayload.shown, Text.ofBytes_eq_empty_iff]
  rw [handle_eq_carryOut read (dirs ▸ directed), dirs, out]

theorem handled_as_requested {q : Queue} {s : Site} {r : RawPayload} (accepted : (q.enqueueRaw s r).2 = .ok ()) :
    ∃ dir t p, r.industryDir = Text.bytes dir ∧ (q.enqueueRaw s r).1.tasks = s.tasks ++ [t] ∧
      Payload.decode? t.payload = some p ∧ p.trigger = (if r.trigger = "" then Payload.manual else r.trigger) ∧
      (∀ c ctx site, handle c t.payload ctx site =
        carryOut c dir (if r.outputDir = [] then c.settings.outputPath else Text.ofBytes r.outputDir) ctx site) ∧
      (Text.bytes (Text.ofBytes r.outputDir) = r.outputDir ↔ ∃ out, r.outputDir = Text.bytes out) := by
  obtain ⟨dir, directed, named, writable, tasks⟩ := Queue.enqueueRaw_eq_ok accepted
  refine ⟨dir, _, _, named, tasks, RawPayload.decode?_encode writable, rfl, fun c ctx site => ?_,
    Text.bytes_ofBytes_iff⟩
  exact handle_encode directed named writable

def awkward : RawPayload where
  industryDir := Text.bytes "Sources/\"Kalk\"\n<ö>"
  outputDir := Text.bytes "out\\\u2028"

theorem handled_as_requested_awkward :
    (Queue.yard.enqueueRaw {} awkward).2 = .ok () ∧ ∃ t, (Queue.yard.enqueueRaw {} awkward).1.tasks = [t] ∧
      ∀ c ctx site, handle c t.payload ctx site = carryOut c "Sources/\"Kalk\"\n<ö>" "out\\\u2028" ctx site := by
  have accepted : (Queue.yard.enqueueRaw {} awkward).2 = .ok () := by decide +kernel
  obtain ⟨dir, t, -, named, tasks, -, -, handled, -⟩ := handled_as_requested accepted
  have directed : dir = "Sources/\"Kalk\"\n<ö>" := (Text.bytes_injective named).symm
  have written : awkward.outputDir ≠ [] := by decide +kernel
  refine ⟨accepted, t, tasks, fun c ctx site => ?_⟩
  rw [handled, directed, if_neg written, awkward, Text.ofBytes_bytes]

def stray (b : UInt8) : RawPayload where
  industryDir := Text.bytes "Sources/Cement"
  outputDir := Text.bytes "out" ++ [b]

theorem output_of_stray_byte :
    (Queue.yard.enqueueRaw {} (stray 0xFF)).2 = .ok () ∧ ∃ t, (Queue.yard.enqueueRaw {} (stray 0xFF)).1.tasks = [t] ∧
      (∀ c ctx site, handle c t.payload ctx site = carryOut c "Sources/Cement" "out\uFFFD" ctx site) ∧
      Text.bytes "out\uFFFD" ≠ (stray 0xFF).outputDir ∧ (Queue.yard.enqueueRaw {} (stray 0xFE)).1.tasks = [t] := by
  have accepted : (Queue.yard.enqueueRaw {} (stray 0xFF)).2 = .ok () := by decide +kernel
  obtain ⟨dir, directed, named, writable, tasks⟩ := Queue.enqueueRaw_eq_ok accepted
  obtain rfl : dir = "Sources/Cement" := (Text.bytes_injective named).symm
  have written : (stray 0xFF).outputDir ≠ [] := by decide +kernel
  have shown : Text.ofBytes (stray 0xFF).outputDir = "out\uFFFD" := by decide +kernel
  refine ⟨accepted, _, tasks, fun c ctx site => ?_, by decide +kernel, by decide +kernel⟩
  refine (handle_encode (r := (stray 0xFF).completed _) directed named writable).trans ?_
  change carryOut c _ (if (stray 0xFF).outputDir = [] then _ else Text.ofBytes (stray 0xFF).outputDir) ctx site = _
  rw [if_neg written, shown]

end Task

end Flowsheet
