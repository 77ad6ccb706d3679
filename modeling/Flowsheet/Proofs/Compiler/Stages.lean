import Flowsheet.Compiler.Basic
import Flowsheet.Proofs.Result

set_option autoImplicit false

namespace Flowsheet

namespace Compiler

def finish (c : Compiler) (answers : Template.Answers) (i : Industry Float) :
    Except Failure (String × List UInt8 × List String) := do
  let queue ← i.executionQueue.mapError (·.failure)
  if c.settings.verify then i.verify
  let script ← i.script c.templates answers
  return ((i.metaProcess.map (·.shortName)).getD "", script, queue)

/-- What documents, templates and settings decide, when the functions of templates answer so. -/
def product (c : Compiler) (answers : Template.Answers) (dir : String) (docs : List Document) :
    Except Failure (String × List UInt8 × List String) :=
  (c.build dir docs).2.bind (c.finish answers)

def recalled (dir digest : String) (run : Nat) (b : Build) : Compiled where
  dir := dir
  industry := Text.ofBytes b.industry
  script := b.script
  digest := digest
  processes := b.processes
  cached := true
  runId := s!"run-{run}"

def produced (dir digest : String) (run : Nat) (p : String × List UInt8 × List String) : Compiled where
  dir := dir
  industry := p.1
  script := p.2.1
  digest := digest
  processes := p.2.2.length
  queue := p.2.2
  runId := s!"run-{run}"

variable {c : Compiler} {name dir digest : String} {ctx : Context} {s : Site} {isOver : Bool} {answers : Template.Answers}

theorem kept_started : (c.kept name digest isOver (s.started name)).2 = (c.kept name digest isOver s).2 := by
  unfold kept
  cases c.cache with
  | none => rfl
  | some cache =>
    cases isOver with
    | true => rfl
    | false =>
      have store : (s.started name).store = s.store := rfl
      have now : (s.started name).now = s.now := rfl
      simp only [store, now]
      rcases cache.get s.store s.now digest with ⟨store, _ | _ | b⟩
      all_goals rfl

theorem runs_kept : (c.kept name digest isOver s).1.runs = s.runs := by
  unfold kept
  cases c.cache with
  | none => rfl
  | some cache =>
    cases isOver with
    | true => rfl
    | false =>
      dsimp only
      rcases cache.get s.store s.now digest with ⟨store, _ | _ | b⟩
      all_goals rfl

theorem generate_snd {i : Industry Float} :
    (c.generate answers name dir digest i isOver s).2 = (c.finish answers i).map (produced dir digest s.runs) := by
  unfold generate verify finish
  cases i.executionQueue with
  | error fault => rfl
  | ok queue =>
    cases c.settings.verify with
    | false =>
      cases i.script c.templates answers with
      | error f => rfl
      | ok script => rfl
    | true =>
      cases i.verify with
      | error f => rfl
      | ok =>
        cases i.script c.templates answers with
        | error f => rfl
        | ok script => rfl

theorem runs_record (seen : List String) : (c.record seen s).runs = s.runs := by
  unfold record
  split
  · rfl
  · rfl

theorem attempt_snd : (c.attempt name dir ctx s).2.2 = (do
    let (docs, digest) ← c.read s.files dir ctx
    (c.kept name digest (ctx.isOver docs.length) s).2.elim
      ((c.product ctx.answers dir docs).map (produced dir digest s.runs))
      (fun b => .ok (recalled dir digest s.runs b))) := by
  unfold attempt
  cases c.read s.files dir ctx with
  | error f => rfl
  | ok p =>
    obtain ⟨docs, digest⟩ := p
    change _ = (c.kept name digest (ctx.isOver docs.length) s).2.elim _ _
    dsimp only
    rcases held : c.kept name digest (ctx.isOver docs.length) s with ⟨s', _ | b⟩
    · rcases built : c.build dir docs with ⟨seen, f | i⟩
      · simp [product, built, Except.bind, Except.map]
      · have runs : (c.record seen s').runs = s.runs := by
          rw [runs_record, ← @runs_kept c name digest s (ctx.isOver docs.length), held]
        have generated := @generate_snd c name dir digest (c.record seen s') (ctx.isOver (docs.length + 1)) ctx.answers i
        rw [runs] at generated
        dsimp only
        generalize c.generate ctx.answers name dir digest i (ctx.isOver (docs.length + 1)) (c.record seen s') = g
          at generated ⊢
        rcases g with ⟨_, f | r⟩
        · simpa [product, built, Except.bind] using generated
        · simpa [product, built, Except.bind] using generated
    · have runs : s'.runs = s.runs := by
        rw [← @runs_kept c name digest s (ctx.isOver docs.length), held]
      simp [recalled, runs]

theorem compile_snd : (c.compile dir ctx s).2 = (do
    let (docs, digest) ← c.read s.files dir ctx
    (c.kept (Path.base dir) digest (ctx.isOver docs.length) s).2.elim
      ((c.product ctx.answers dir docs).map (produced dir digest (s.runs + 1)))
      (fun b => .ok (recalled dir digest (s.runs + 1) b))) := by
  change (c.attempt (Path.base dir) dir ctx (s.started (Path.base dir))).2.2 = _
  rw [attempt_snd]
  simp only [kept_started]
  rfl

structure AtHand (ctx : Context) (n : Nat) (f : File) : Prop where
  inTime : ctx.isOver n = false
  readable : f.isReadable = true

def Holds (ctx : Context) (found : List ((String × String) × File)) (docs : List Document) : Prop :=
  List.Forall₂ (fun x d => AtHand ctx x.2 x.1.2 ∧ Document.decode x.1.1.1 x.1.2.data = .ok d) found.zipIdx docs

/-- Files cannot be listed or read, or the run is over before they all are. -/
inductive Unavailable (files : Files) (dir : String) (ctx : Context) : Failure → Prop
  | listing {f : Failure} (failed : files.documents dir = .error f) :
    Unavailable files dir ctx (f.within s!"failed to list documents of {dir}")
  | ended {before after : List ((String × String) × File)} {x : (String × String) × File}
      {docs : List Document} (listed : files.documents dir = .ok (before ++ x :: after))
      (earlier : Holds ctx before docs) (late : ctx.isOver before.length = true) :
    Unavailable files dir ctx ctx.failure
  | unreadable {before after : List ((String × String) × File)} {path inside : String} {file : File}
      {docs : List Document} (listed : files.documents dir = .ok (before ++ ((path, inside), file) :: after))
      (earlier : Holds ctx before docs) (inTime : ctx.isOver before.length = false)
      (denied : file.isReadable = false) :
    Unavailable files dir ctx (FileError.denied.failure "open" path)

/-- A document cannot be decoded, or nothing can be made of them all. -/
inductive Unsound (c : Compiler) (s : Site) (dir : String) (ctx : Context) : Failure → Prop
  | undecodable {before after : List ((String × String) × File)} {path inside : String} {file : File}
      {docs : List Document} {f : Failure}
      (listed : s.files.documents dir = .ok (before ++ ((path, inside), file) :: after))
      (earlier : Holds ctx before docs) (atHand : AtHand ctx before.length file)
      (failed : Document.decode path file.data = .error f) : Unsound c s dir ctx f
  | unproducible {docs : List Document} {digest : String} {f : Failure}
      (read : c.read s.files dir ctx = .ok (docs, digest))
      (forgotten : (c.kept (Path.base dir) digest (ctx.isOver docs.length) s).2 = none)
      (failed : c.product ctx.answers dir docs = .error f) : Unsound c s dir ctx f

section Document

variable {path inside : String} {file : File} {n : Nat}

theorem document_over (ended : ctx.isOver n = true) : document ctx (((path, inside), file), n) = .error ctx.failure := by
  simp [document, ended, bind, Except.bind, throw, throwThe, MonadExceptOf.throw]

theorem document_denied (inTime : ctx.isOver n = false) (denied : file.isReadable = false) :
    document ctx (((path, inside), file), n) = .error (FileError.denied.failure "open" path) := by
  simp [document, File.content, inTime, denied, bind, Except.bind]

theorem document_atHand (hand : AtHand ctx n file) :
    document ctx (((path, inside), file), n) = (Document.decode path file.data).map (inside, ·) := by
  simp only [document, File.content, hand.inTime, hand.readable]
  rfl

theorem not_atHand_of_over (ended : ctx.isOver n = true) : ¬ AtHand ctx n file := by
  rintro ⟨inTime, -⟩
  simp [ended] at inTime

theorem not_atHand_of_denied (denied : file.isReadable = false) : ¬ AtHand ctx n file := by
  rintro ⟨-, readable⟩
  simp [denied] at readable

theorem document_eq_ok {p : String × Document} : document ctx (((path, inside), file), n) = .ok p ↔
    AtHand ctx n file ∧ Document.decode path file.data = .ok p.2 ∧ p.1 = inside := by
  cases inTime : ctx.isOver n with
  | true => simp [document_over inTime, not_atHand_of_over inTime]
  | false =>
    cases readable : file.isReadable with
    | false => simp [document_denied inTime readable, not_atHand_of_denied readable]
    | true =>
      have hand : AtHand ctx n file := ⟨inTime, readable⟩
      obtain ⟨inside', d⟩ := p
      rw [document_atHand hand, map_eq_ok]
      simp [hand, eq_comm]

theorem document_eq_error {f : Failure} : document ctx (((path, inside), file), n) = .error f ↔
    ctx.isOver n = true ∧ ctx.failure = f ∨
      ctx.isOver n = false ∧ file.isReadable = false ∧ FileError.denied.failure "open" path = f ∨
        AtHand ctx n file ∧ Document.decode path file.data = .error f := by
  cases inTime : ctx.isOver n with
  | true => simp [document_over inTime, not_atHand_of_over inTime]
  | false =>
    cases readable : file.isReadable with
    | false => simp [document_denied inTime readable, not_atHand_of_denied readable]
    | true =>
      have hand : AtHand ctx n file := ⟨inTime, readable⟩
      rw [document_atHand hand]
      cases Document.decode path file.data with
      | error f' => simp [Except.map, hand]
      | ok d => simp [Except.map]

end Document

theorem holds_iff {found : List ((String × String) × File)} {docs : List Document} :
    Holds ctx found docs ↔ ∃ ds, found.zipIdx.mapM (document ctx) = .ok ds ∧ docs = ds.map (·.2) := by
  constructor
  · unfold Holds
    generalize found.zipIdx = listing
    intro holds
    induction holds with
    | nil => exact ⟨[], rfl, rfl⟩
    | @cons x d xs docs first _ ih =>
      obtain ⟨ds, rest, rfl⟩ := ih
      have here : document ctx x = .ok (x.1.1.2, d) := document_eq_ok.mpr ⟨first.1, first.2, rfl⟩
      refine ⟨(x.1.1.2, d) :: ds, ?_, rfl⟩
      rw [List.mapM_cons, here, rest]
      rfl
  · rintro ⟨ds, done, rfl⟩
    rw [Holds, List.forall₂_map_right_iff]
    exact (mapM_eq_ok.mp done).imp fun x d read => ⟨(document_eq_ok.mp read).1, (document_eq_ok.mp read).2.1⟩

theorem split_zipIdx {α : Type} {xs : List α} {first last : List (α × Nat)} {y : α} {n : Nat}
    (split : xs.zipIdx = first ++ (y, n) :: last) :
    ∃ before after, xs = before ++ y :: after ∧ first = before.zipIdx ∧ n = before.length := by
  have whole : xs = first.map (·.1) ++ y :: last.map (·.1) := by
    have unzipped := congrArg (List.map (·.1)) split
    rwa [List.zipIdx_map_fst, List.map_append, List.map_cons] at unzipped
  refine ⟨first.map (·.1), last.map (·.1), whole, ?_⟩
  rw [whole, List.zipIdx_append, Nat.zero_add, List.zipIdx_cons] at split
  obtain ⟨same, rest⟩ := List.append_inj split (by simp)
  exact ⟨same.symm, (Prod.mk.inj (List.cons.inj rest).1).2.symm⟩

theorem mapM_document_eq_error {found : List ((String × String) × File)} {f : Failure} :
    found.zipIdx.mapM (document ctx) = .error f ↔
      ∃ before path inside file after docs, found = before ++ ((path, inside), file) :: after ∧
        Holds ctx before docs ∧ document ctx (((path, inside), file), before.length) = .error f := by
  rw [mapM_eq_error]
  constructor
  · rintro ⟨first, ⟨⟨⟨path, inside⟩, file⟩, n⟩, last, ds, split, done, failed⟩
    obtain ⟨before, after, rfl, rfl, rfl⟩ := split_zipIdx split
    exact ⟨before, path, inside, file, after, _, rfl, holds_iff.mpr ⟨ds, done, rfl⟩, failed⟩
  · rintro ⟨before, path, inside, file, after, docs, rfl, holds, failed⟩
    obtain ⟨ds, done, -⟩ := holds_iff.mp holds
    refine ⟨before.zipIdx, (((path, inside), file), before.length), after.zipIdx (before.length + 1), ds, ?_,
      done, failed⟩
    rw [List.zipIdx_append, Nat.zero_add, List.zipIdx_cons]

theorem documents_eq_error {files : Files} {f : Failure} : documents files dir ctx = .error f ↔
    Unavailable files dir ctx f ∨ ∃ before path inside file after docs,
      files.documents dir = .ok (before ++ ((path, inside), file) :: after) ∧ Holds ctx before docs ∧
        AtHand ctx before.length file ∧ Document.decode path file.data = .error f := by
  unfold documents
  cases listed : files.documents dir with
  | error g =>
    constructor
    · intro failed
      cases failed
      exact .inl (.listing listed)
    · rintro (unavailable | ⟨_, _, _, _, _, _, found, -⟩)
      · cases unavailable with
        | listing failed =>
          rw [listed] at failed
          cases failed
          rfl
        | ended found | unreadable found => exact absurd (listed.symm.trans found) nofun
      · cases found
  | ok found =>
    change found.zipIdx.mapM (document ctx) = .error f ↔ _
    rw [mapM_document_eq_error]
    constructor
    · rintro ⟨before, path, inside, file, after, docs, rfl, holds, failed⟩
      rcases document_eq_error.mp failed with ⟨ended, rfl⟩ | ⟨inTime, denied, rfl⟩ | ⟨hand, failed⟩
      · exact .inl (.ended listed holds ended)
      · exact .inl (.unreadable listed holds inTime denied)
      · exact .inr ⟨before, path, inside, file, after, docs, rfl, holds, hand, failed⟩
    · rintro (unavailable | ⟨before, path, inside, file, after, docs, ⟨rfl⟩, holds, hand, failed⟩)
      · cases unavailable with
        | listing failed => exact absurd (listed.symm.trans failed) nofun
        | @ended before after x docs found holds ended =>
          obtain rfl := Except.ok.inj (listed.symm.trans found)
          exact ⟨before, x.1.1, x.1.2, x.2, after, docs, rfl, holds, document_over ended⟩
        | @unreadable before after path inside file docs found holds inTime denied =>
          obtain rfl := Except.ok.inj (listed.symm.trans found)
          exact ⟨before, path, inside, file, after, docs, rfl, holds, document_denied inTime denied⟩
      · exact ⟨before, path, inside, file, after, docs, rfl, holds, document_eq_error.mpr (.inr (.inr ⟨hand, failed⟩))⟩

theorem holds_of_read {files : Files} {docs : List Document} (read : c.read files dir ctx = .ok (docs, digest)) :
    ∃ found, files.documents dir = .ok found ∧ Holds ctx found docs := by
  obtain ⟨ds, done, last⟩ := bind_eq_ok.mp read
  cases last
  obtain ⟨found, listed, done⟩ := bind_eq_ok.mp done
  exact ⟨found, mapError_eq_ok.mp listed, holds_iff.mpr ⟨ds, done, rfl⟩⟩

theorem compile_eq_error {f : Failure} : (c.compile dir ctx s).2 = .error f ↔
    Unavailable s.files dir ctx f ∨ Unsound c s dir ctx f := by
  have read_eq_error : c.read s.files dir ctx = .error f ↔ documents s.files dir ctx = .error f := by
    unfold read
    cases documents s.files dir ctx with
    | error g => simp [bind, Except.bind]
    | ok ds => simp [bind, Except.bind, pure, Except.pure]
  rw [compile_snd, bind_eq_error, read_eq_error, documents_eq_error]
  constructor
  · rintro ((unavailable | ⟨before, path, inside, file, after, docs, listed, holds, hand, failed⟩) |
      ⟨⟨docs, digest⟩, read, failed⟩)
    · exact .inl unavailable
    · exact .inr (.undecodable listed holds hand failed)
    -- the documents could be read, so it is what is made of them that fails, and only if nothing is kept
    · dsimp only at failed
      cases held : (c.kept (Path.base dir) digest (ctx.isOver docs.length) s).2 with
      | some b => simp [held] at failed
      | none =>
        rw [held, Option.elim_none] at failed
        cases made : c.product ctx.answers dir docs with
        | ok p => simp [made, Except.map] at failed
        | error g =>
          rw [made] at failed
          cases failed
          exact .inr (.unproducible read held made)
  · rintro (unavailable | unsound)
    · exact .inl (.inl unavailable)
    · cases unsound with
      | undecodable listed holds hand failed => exact .inl (.inr ⟨_, _, _, _, _, _, listed, holds, hand, failed⟩)
      | unproducible read forgotten failed =>
        refine .inr ⟨_, read, ?_⟩
        simp [forgotten, failed, Except.map]

end Compiler

end Flowsheet
