import Flowsheet.Proofs.Cache
import Flowsheet.Proofs.Compiler.Digest
import Flowsheet.Proofs.Store
import Mathlib.Data.Set.Function

set_option autoImplicit false

namespace Flowsheet

/-- A result without the marks of how it was come by. -/
def Compiled.essence (r : Compiled) : Compiled := { r with queue := [], cached := false, runId := "" }

namespace Compiler

/-- What a digest is taken of. -/
structure Input where
  documents : List (String × List UInt8)
  sources : List (List UInt8)
  minUnits : Float
  maxUnits : Float
  verify : Bool

def Input.bytes (i : Input) : List UInt8 :=
  i.documents.flatMap (fun (path, data) => Text.bytes path ++ data) ++ i.sources.flatten ++
    Text.bytes (s!"{Quantity.general i.minUnits}:{Quantity.general i.maxUnits}:{i.verify}")

def Input.digest (i : Input) : String := Digest.hex (Digest.sha256 i.bytes)

def input (c : Compiler) (docs : List (String × Document)) : Input where
  documents := docs.map fun p => (p.1, p.2.data)
  sources := c.templates.sources
  minUnits := c.settings.minUnits
  maxUnits := c.settings.maxUnits
  verify := c.settings.verify

def entry (run : Nat) (p : String × List UInt8 × List String) : Build where
  industry := Text.bytes p.1
  script := p.2.1
  processes := p.2.2.length
  runId := Text.bytes s!"run-{run}"

def fetch (c : Compiler) (digest : String) (isOver : Bool) (store : Store) (now : Instant) : Store × Option Build :=
  match c.cache, isOver with
  | some cache, false => ((cache.get store now digest).1, (cache.get store now digest).2.toOption.join)
  | _, _ => (store, none)

def lodge (c : Compiler) (digest : String) (b : Build) (isOver : Bool) (store : Store) (now : Instant) : Store :=
  match c.cache, isOver with
  | some cache, false => (cache.set store now digest b).1
  | _, _ => store

variable {c c' : Compiler} {name dir dir' digest : String} {ctx : Context} {s s' : Site} {isOver : Bool}

theorem bytes_input (docs : List (String × Document)) : (c.input docs).bytes = c.preimage docs := by
  simp only [Input.bytes, input, preimage, List.flatMap_map]

theorem read_eq (files : Files) : c.read files dir ctx =
    (documents files dir ctx).map fun docs => (docs.map (·.2), (c.input docs).digest) := by
  simp only [Input.digest, bytes_input, read]
  cases documents files dir ctx with
  | error f => rfl
  | ok docs => rfl

theorem kept_eq : ∃ metrics, c.kept name digest isOver s =
    ({ s with store := (c.fetch digest isOver s.store s.now).1, metrics },
      (c.fetch digest isOver s.store s.now).2) := by
  unfold kept fetch
  cases c.cache with
  | none => exact ⟨_, rfl⟩
  | some cache =>
    cases isOver with
    | true => exact ⟨_, rfl⟩
    | false =>
      dsimp only
      rcases cache.get s.store s.now digest with ⟨_, _ | _ | b⟩
      all_goals exact ⟨_, rfl⟩

theorem keep_eq {b : Build} : ∃ metrics, c.keep digest b isOver s =
    { s with store := c.lodge digest b isOver s.store s.now, metrics } := by
  unfold keep lodge
  cases c.cache with
  | none => exact ⟨_, rfl⟩
  | some cache =>
    cases isOver with
    | true => exact ⟨_, rfl⟩
    | false =>
      dsimp only
      rcases cache.set s.store s.now digest b with ⟨_, _ | _⟩
      all_goals exact ⟨_, rfl⟩

theorem record_eq (looked : List String) : ∃ seen, c.record looked s = { s with seen } := by
  unfold record
  split
  · exact ⟨_, rfl⟩
  · exact ⟨_, rfl⟩

theorem entries_get {cache : Cache} {store : Store} {now : Instant} :
    (cache.get store now digest).1.entries ⊆ store.entries := by
  have got : (store.get (cache.key digest)).1 = store := by
    unfold Store.get Store.command
    split
    · rfl
    · rfl
  have deleted : (store.delete (cache.key digest)).1.entries ⊆ store.entries := by
    unfold Store.delete Store.command
    split
    · exact List.filter_subset_self _
    · exact List.Subset.refl _
  unfold Cache.get
  rcases answer : store.get (cache.key digest) with ⟨after, _ | _ | text⟩
  all_goals
    obtain rfl : after = store := by rw [← got, answer]
  · exact List.Subset.refl _
  · exact List.Subset.refl _
  · dsimp only
    split
    · exact List.Subset.refl _
    · split
      · exact deleted
      · exact List.Subset.refl _

theorem entries_fetch {store : Store} {now : Instant} :
    (c.fetch digest isOver store now).1.entries ⊆ store.entries := by
  unfold fetch
  split
  · exact entries_get
  · exact List.Subset.refl _

theorem generate_fst {answers : Template.Answers} {i : Industry Float} : ∃ metrics,
    (c.generate answers name dir digest i isOver s).1 = { s with
      store := (c.finish answers i).toOption.elim s.store fun p => c.lodge digest (entry s.runs p) isOver s.store s.now
      metrics } := by
  unfold generate verify finish
  cases i.executionQueue with
  | error fault => exact ⟨_, rfl⟩
  | ok queue =>
    cases c.settings.verify with
    | false =>
      cases i.script c.templates answers with
      | error f => exact ⟨_, rfl⟩
      | ok script =>
        obtain ⟨metrics, kept⟩ := @keep_eq c digest s isOver
          (entry s.runs ((i.metaProcess.map (·.shortName)).getD "", script, queue))
        exact ⟨_, congrArg (Site.measure (Metrics.artifact name queue.length script.length)) kept⟩
    | true =>
      cases i.verify with
      | error f => exact ⟨_, rfl⟩
      | ok =>
        cases i.script c.templates answers with
        | error f => exact ⟨_, rfl⟩
        | ok script =>
          obtain ⟨metrics, kept⟩ := @keep_eq c digest (s.measure (Metrics.goldenCheck name "passed")) isOver
            (entry s.runs ((i.metaProcess.map (·.shortName)).getD "", script, queue))
          exact ⟨_, congrArg (Site.measure (Metrics.artifact name queue.length script.length)) kept⟩

theorem attempt_fst {docs : List (String × Document)} (read : documents s.files dir ctx = .ok docs) :
    ∃ metrics seen, (c.attempt name dir ctx s).1 =
      let (store, kept) := c.fetch (c.input docs).digest (ctx.isOver docs.length) s.store s.now
      { s with
        store := kept.elim ((c.product ctx.answers dir (docs.map (·.2))).toOption.elim store fun p =>
          c.lodge (c.input docs).digest (entry s.runs p) (ctx.isOver (docs.length + 1)) store s.now) fun _ => store
        metrics, seen } := by
  have digested : c.read s.files dir ctx = .ok (docs.map (·.2), (c.input docs).digest) := by
    rw [read_eq, read]
    rfl
  unfold attempt
  rw [digested]
  obtain ⟨metrics, asks⟩ := @kept_eq c name (c.input docs).digest s (ctx.isOver docs.length)
  simp only [List.length_map, asks]
  rcases c.fetch (c.input docs).digest (ctx.isOver docs.length) s.store s.now with ⟨store, _ | b⟩
  · rcases built : c.build dir (docs.map (·.2)) with ⟨looked, f | i⟩
    · obtain ⟨seen, noted⟩ := @record_eq c { s with store, metrics } looked
      exact ⟨metrics, seen, by simp [product, built, noted, Except.bind, Except.toOption]⟩
    · obtain ⟨seen, noted⟩ := @record_eq c { s with store, metrics } looked
      obtain ⟨metrics, generated⟩ := @generate_fst c name dir (c.input docs).digest { s with store, metrics, seen }
        (ctx.isOver (docs.length + 1)) ctx.answers i
      refine ⟨metrics, seen, ?_⟩
      simp only [product, built, noted, Except.bind, Option.elim_none]
      generalize c.generate ctx.answers name dir (c.input docs).digest i (ctx.isOver (docs.length + 1))
        { s with store, metrics := _, seen } = done at generated ⊢
      rcases done with ⟨_, f | r⟩
      · exact generated
      · exact generated
  · exact ⟨metrics, s.seen, rfl⟩

def Decoded (docs : List (String × Document)) : Prop :=
  ∀ p ∈ docs, ∃ path, Document.decode path p.2.data = .ok p.2

theorem product_of_input {library : Template.Library} (answers : Template.Answers) {docs docs' : List (String × Document)}
    (validator : c.validator = c'.validator) (parsed : c.templates.Parsed library)
    (parsed' : c'.templates.Parsed library) (decoded : Decoded docs) (decoded' : Decoded docs')
    (same : c.input docs = c'.input docs') :
    Alike Eq (c.product answers dir (docs.map (·.2))) (c'.product answers dir' (docs'.map (·.2))) := by
  simp only [input, Input.mk.injEq] at same
  obtain ⟨texts, sources, least, most, verify⟩ := same
  have matched : List.Forall₂ (fun p p' => p.1 = p'.1 ∧ p.2.data = p'.2.data) docs docs' := by
    have equal := List.forall₂_eq_eq_eq ▸ texts
    rw [List.forall₂_map_left_iff, List.forall₂_map_right_iff] at equal
    exact equal.imp fun _ _ equal => Prod.mk.inj equal
  exact product_alike answers ⟨validator, least, most, verify, parsed.sameText parsed' sources⟩
    (sameText_of_data matched decoded decoded')

structure Call where
  compiler : Compiler
  dir : String
  ctx : Context := {}

namespace Call

def run (call : Call) (s : Site) : Site × Except Failure Compiled :=
  call.compiler.compile call.dir call.ctx s

def withoutCache (call : Call) : Call := { call with compiler := { call.compiler with cache := none } }

def answering (call : Call) (answers : Template.Answers) : Call := { call with ctx := { call.ctx with answers } }

def documents (call : Call) (s : Site) : Except Failure (List (String × Document)) :=
  Compiler.documents s.files call.dir call.ctx

def answer (call : Call) (s : Site) (docs : List (String × Document)) : Store × Option Build :=
  call.compiler.fetch (call.compiler.input docs).digest (call.ctx.isOver docs.length) s.store s.now

def product (call : Call) (docs : List (String × Document)) : Except Failure (String × List UInt8 × List String) :=
  call.compiler.product call.ctx.answers call.dir (docs.map (·.2))

def handed (call : Call) (s : Site) : Option (String × Build) :=
  match call.documents s with
  | .error _ => none
  | .ok docs =>
    match call.compiler.cache, (call.answer s docs).2 with
    | some _, none =>
      (call.product docs).toOption.map fun p => ((call.compiler.input docs).digest, entry (s.runs + 1) p)
    | _, _ => none

variable {call : Call} {docs : List (String × Document)}

theorem answering_self : call.answering call.ctx.answers = call := rfl

theorem run_snd (read : call.documents s = .ok docs) : (call.run s).2 =
    (call.answer s docs).2.elim
      ((call.product docs).map (produced call.dir (call.compiler.input docs).digest (s.runs + 1)))
      fun b => .ok (recalled call.dir (call.compiler.input docs).digest (s.runs + 1) b) := by
  have read : Compiler.documents s.files call.dir call.ctx = .ok docs := read
  have digested : call.compiler.read s.files call.dir call.ctx =
      .ok (docs.map (·.2), (call.compiler.input docs).digest) := by
    rw [read_eq, read]
    rfl
  obtain ⟨metrics, asks⟩ := @kept_eq call.compiler (Path.base call.dir) (call.compiler.input docs).digest s
    (call.ctx.isOver docs.length)
  rw [run, compile_snd, digested]
  change Option.elim (call.compiler.kept _ _ (call.ctx.isOver (docs.map (·.2)).length) s).2 _ _ = _
  rw [List.length_map, asks]
  rfl

theorem run_snd_of_error {f : Failure} (read : call.documents s = .error f) : (call.run s).2 = .error f := by
  have read : Compiler.documents s.files call.dir call.ctx = .error f := read
  rw [run, compile_snd, read_eq, read]
  rfl

theorem run_fst (read : call.documents s = .ok docs) : ∃ metrics seen, (call.run s).1 =
    { s with
      store := (call.handed s).elim (call.answer s docs).1 fun e =>
        call.compiler.lodge e.1 e.2 (call.ctx.isOver (docs.length + 1)) (call.answer s docs).1 s.now
      metrics, seen, runs := s.runs + 1 } := by
  obtain ⟨metrics, seen, attempted⟩ := @attempt_fst call.compiler (Path.base call.dir) call.dir call.ctx
    (s.started (Path.base call.dir)) docs read
  -- Something is handed to the store just if it had no answer and there is something to keep.
  have stored : (call.answer s docs).2.elim ((call.product docs).toOption.elim (call.answer s docs).1 fun p =>
      call.compiler.lodge (call.compiler.input docs).digest (entry (s.runs + 1) p) (call.ctx.isOver (docs.length + 1))
        (call.answer s docs).1 s.now) (fun _ => (call.answer s docs).1) =
      (call.handed s).elim (call.answer s docs).1 fun e =>
        call.compiler.lodge e.1 e.2 (call.ctx.isOver (docs.length + 1)) (call.answer s docs).1 s.now := by
    rw [handed, read]
    dsimp only
    cases (call.answer s docs).2 with
    | some b =>
      cases call.compiler.cache with
      | none => rfl
      | some cache => rfl
    | none =>
      cases call.product docs with
      | error f =>
        cases call.compiler.cache with
        | none => rfl
        | some cache => rfl
      | ok p =>
        cases held : call.compiler.cache with
        | none => simp [lodge, held, Except.toOption]
        | some cache => rfl
  rw [← stored]
  exact ⟨_, seen, congrArg (Site.measure (Metrics.compilationEnded _ _ 0)) attempted⟩

theorem run_fst_of_error {f : Failure} (read : call.documents s = .error f) : ∃ metrics,
    (call.run s).1 = { s with metrics, runs := s.runs + 1 } := by
  have undigested : call.compiler.read (s.started (Path.base call.dir)).files call.dir call.ctx = .error f := by
    rw [read_eq]
    exact congrArg (Except.map _) read
  have attempted : (call.compiler.attempt (Path.base call.dir) call.dir call.ctx (s.started (Path.base call.dir))).1 =
      s.started (Path.base call.dir) := by
    unfold attempt
    rw [undigested]
  exact ⟨_, congrArg (Site.measure (Metrics.compilationEnded _ _ 0)) attempted⟩

theorem files_run : (call.run s).1.files = s.files := by
  cases read : call.documents s with
  | error f =>
    obtain ⟨metrics, left⟩ := run_fst_of_error read
    rw [left]
  | ok docs =>
    obtain ⟨metrics, seen, left⟩ := run_fst read
    rw [left]

theorem nothing_of_error {f : Failure} (failed : (call.run s).2 = .error f) :
    call.handed s = none ∧ (call.run s).1.store.entries ⊆ s.store.entries := by
  cases read : call.documents s with
  | error g =>
    obtain ⟨metrics, left⟩ := run_fst_of_error read
    rw [left]
    exact ⟨by rw [handed, read], List.Subset.refl _⟩
  | ok docs =>
    have nothing : call.handed s = none := by
      rw [run_snd read] at failed
      rw [handed, read]
      dsimp only
      cases answered : (call.answer s docs).2 with
      | some b => simp [answered] at failed
      | none =>
        rw [answered, Option.elim_none] at failed
        cases made : call.product docs with
        | ok p => simp [made, Except.map] at failed
        | error g =>
          cases call.compiler.cache with
          | none => rfl
          | some cache => rfl
    obtain ⟨metrics, seen, left⟩ := run_fst read
    rw [left, nothing]
    exact ⟨rfl, entries_fetch⟩

end Call

def Call.Honest (call : Call) (s : Site) : Prop :=
  ∀ docs b, call.documents s = .ok docs → (call.answer s docs).2 = some b →
    ∃ queue, call.product docs = .ok (Text.ofBytes b.industry, b.script, queue) ∧ b.processes = queue.length

theorem Call.run_of_honest {call : Call} {s s' : Site} (honest : call.Honest s)
    (same : call.withoutCache.documents s' = call.documents s) :
    (call.run s).2.map Compiled.essence = (call.withoutCache.run s').2.map Compiled.essence := by
  cases read : call.documents s with
  | error f => rw [Call.run_snd_of_error read, Call.run_snd_of_error (same.trans read)]
  | ok docs =>
    rw [Call.run_snd read, Call.run_snd (same.trans read)]
    change _ = ((call.product docs).map (produced call.dir (call.compiler.input docs).digest (s'.runs + 1))).map _
    cases answered : (call.answer s docs).2 with
    | none =>
      cases call.product docs with
      | error f => rfl
      | ok p => rfl
    | some b =>
      obtain ⟨queue, product, count⟩ := honest docs b read answered
      rw [product]
      change Except.ok (Compiled.essence (recalled _ _ _ b)) = Except.ok (Compiled.essence (produced _ _ _ _))
      simp [Compiled.essence, recalled, produced, count]

theorem Call.honest_of_none {call : Call} {s : Site} (fresh : call.compiler.cache = none) : call.Honest s := by
  intro docs b _ answered
  simp [Call.answer, fetch, fresh] at answered

theorem Call.run_answering {call : Call} {s : Site} {docs : List (String × Document)} {b : Build}
    (read : call.documents s = .ok docs) (hit : (call.answer s docs).2 = some b) (answers : Template.Answers) :
    ((call.answering answers).run s).2 = (call.run s).2 := by
  have read' : (call.answering answers).documents s = .ok docs := read
  have hit' : ((call.answering answers).answer s docs).2 = some b := hit
  have compiler : (call.answering answers).compiler = call.compiler := rfl
  have dir : (call.answering answers).dir = call.dir := rfl
  rw [Call.run_snd read', Call.run_snd read, hit', hit, Option.elim_some, Option.elim_some, compiler, dir]

structure SameContent (b b' : Build) : Prop where
  industry : b.industry = b'.industry
  script : b.script = b'.script
  processes : b.processes = b'.processes

/-- What compilations that share a store have in common: how documents are checked, which functions
templates may call and how these may answer in a run, and the inputs there are. -/
structure Practice where
  validator : Validator
  library : Template.Library
  answers : Set Template.Answers
  inputs : Set Input

/-- A build that is made of an input, in a run in which the functions answer in one of the ways they may. -/
def Made (w : Practice) (i : Input) (b : Build) : Prop :=
  ∃ (c : Compiler) (answers : Template.Answers) (dir : String) (docs : List (String × Document))
      (short : String) (queue : List String),
    c.validator = w.validator ∧ answers ∈ w.answers ∧ c.templates.Parsed w.library ∧ Decoded docs ∧ c.input docs = i ∧
      c.product answers dir (docs.map (·.2)) = .ok (short, b.script, queue) ∧
        b.industry = Text.bytes short ∧ b.processes = queue.length

/-- A site that compilers share, with everything that was handed to its store. -/
structure Shared where
  site : Site
  handed : List (String × Build) := []

namespace Shared

def after (sh : Shared) (call : Call) : Shared where
  site := (call.run sh.site).1
  handed := (call.handed sh.site).toList ++ sh.handed

/-- A compilation by one of the compilers, whose store answers with nothing but what was handed to
it under the digest. -/
structure Admits (w : Practice) (sh : Shared) (call : Call) : Prop where
  validator : call.compiler.validator = w.validator
  parsed : call.compiler.templates.Parsed w.library
  answers : call.ctx.answers ∈ w.answers
  known : ∀ docs, call.documents sh.site = .ok docs → call.compiler.input docs ∈ w.inputs
  answered : ∀ docs b, call.documents sh.site = .ok docs → (call.answer sh.site docs).2 = some b →
    ∃ e ∈ sh.handed, e.1 = (call.compiler.input docs).digest ∧ SameContent b e.2

/-- What becomes of a site by compilations, and by anything else that happens to directories, the
store and the clock between them. -/
inductive Reachable (w : Practice) : Shared → Prop
  | start (s : Site) : Reachable w { site := s }
  | change {sh : Shared} (reached : Reachable w sh) (s : Site) : Reachable w { sh with site := s }
  | call {sh : Shared} {call : Call} (reached : Reachable w sh) (admitted : Admits w sh call) :
    Reachable w (sh.after call)

variable {w : Practice} {sh : Shared} {call : Call} {docs : List (String × Document)}

theorem admits_of_read (validator : call.compiler.validator = w.validator)
    (parsed : call.compiler.templates.Parsed w.library) (allowed : call.ctx.answers ∈ w.answers)
    (read : call.documents sh.site = .ok docs) (known : call.compiler.input docs ∈ w.inputs)
    (answered : ∀ b, (call.answer sh.site docs).2 = some b →
      ∃ e ∈ sh.handed, e.1 = (call.compiler.input docs).digest ∧ SameContent b e.2) : Admits w sh call where
  validator := validator
  parsed := parsed
  answers := allowed
  known := by
    intro docs' again
    obtain rfl := Except.ok.inj (read.symm.trans again)
    exact known
  answered := by
    intro docs' b again
    obtain rfl := Except.ok.inj (read.symm.trans again)
    exact answered b

theorem made_of_handed {e : String × Build} (admitted : Admits w sh call)
    (handed : call.handed sh.site = some e) : ∃ i ∈ w.inputs, i.digest = e.1 ∧ Made w i e.2 := by
  unfold Call.handed at handed
  cases read : call.documents sh.site with
  | error f => simp [read] at handed
  | ok docs =>
    simp only [read] at handed
    split at handed
    next =>
      cases made : call.product docs with
      | error f => simp [made, Except.toOption] at handed
      | ok p =>
        simp only [made, Except.toOption, Option.map_some, Option.some.injEq] at handed
        subst handed
        exact ⟨_, admitted.known docs read, rfl, call.compiler, call.ctx.answers, call.dir, docs, p.1, p.2.2,
          admitted.validator, admitted.answers, admitted.parsed, decoded_of_documents read, rfl, made, rfl, rfl⟩
    next => cases handed

theorem Reachable.made (reached : Reachable w sh) :
    ∀ e ∈ sh.handed, ∃ i ∈ w.inputs, i.digest = e.1 ∧ Made w i e.2 := by
  induction reached with
  | start s => simp
  | change _ s ih => exact ih
  | call _ admitted ih =>
    intro e inside
    rcases List.mem_append.mp inside with new | old
    · exact made_of_handed admitted (Option.mem_toList.mp new)
    · exact ih e old

theorem product_of_made {b : Build} (admitted : Admits w sh call) (read : call.documents sh.site = .ok docs)
    (made : Made w (call.compiler.input docs) b) : ∃ answers ∈ w.answers, ∃ queue,
      (call.answering answers).product docs = .ok (Text.ofBytes b.industry, b.script, queue) ∧
        b.processes = queue.length := by
  obtain ⟨c, answers, dir, docs', short, queue, validator, member, parsed, decoded, same, produces, named, count⟩ := made
  have alike := @product_of_input _ _ dir call.dir _ answers _ _ (validator.trans admitted.validator.symm) parsed
    admitted.parsed decoded (decoded_of_documents read) same
  rw [produces] at alike
  generalize again : call.compiler.product answers call.dir (docs.map (·.2)) = x at alike
  cases alike with
  | done equal =>
    subst equal
    rw [named, Text.ofBytes_bytes]
    exact ⟨answers, member, queue, again, count⟩

theorem honest_of_hit (faithful : Set.InjOn Input.digest w.inputs) (reached : Reachable w sh)
    (admitted : Admits w sh call) (read : call.documents sh.site = .ok docs) {b : Build}
    (hit : (call.answer sh.site docs).2 = some b) : ∃ answers ∈ w.answers, (call.answering answers).Honest sh.site := by
  obtain ⟨e, inside, digest, same⟩ := admitted.answered docs b read hit
  obtain ⟨i, member, digested, made⟩ := reached.made e inside
  obtain rfl : i = call.compiler.input docs := faithful member (admitted.known docs read) (digested.trans digest)
  obtain ⟨answers, allowed, queue, product, count⟩ := product_of_made admitted read made
  refine ⟨answers, allowed, fun docs' b' read' hit' => ?_⟩
  obtain rfl := Except.ok.inj (read.symm.trans read')
  obtain rfl := Option.some.inj (hit.symm.trans hit')
  rw [← same.industry, ← same.script] at product
  exact ⟨queue, product, same.processes.trans count⟩

theorem documents_withoutCache (answers : Template.Answers) {s : Site} (files : s.files = sh.site.files) :
    (call.answering answers).withoutCache.documents s = call.documents sh.site := by
  rw [Call.documents, Call.documents, files]
  rfl

/-- A compilation with the shared store does the same as one without a store in a run in which the
functions of templates answer in one of the ways they may, and one that fails leaves nothing in the
store. So nobody can tell the two apart where the functions answer in one way only. -/
theorem compile_as_without_cache (faithful : Set.InjOn Input.digest w.inputs) (reached : Reachable w sh)
    (admitted : Admits w sh call) :
    (∃ answers ∈ w.answers, ∀ s : Site, s.files = sh.site.files → (call.run sh.site).2.map Compiled.essence =
      ((call.answering answers).withoutCache.run s).2.map Compiled.essence) ∧
    (w.answers.Subsingleton → ∀ s : Site, s.files = sh.site.files →
      (call.run sh.site).2.map Compiled.essence = (call.withoutCache.run s).2.map Compiled.essence) ∧
    ∀ f, (call.run sh.site).2 = .error f →
      call.handed sh.site = none ∧ (call.run sh.site).1.store.entries ⊆ sh.site.store.entries := by
  have alike : ∃ answers ∈ w.answers, ∀ s : Site, s.files = sh.site.files → (call.run sh.site).2.map Compiled.essence =
      ((call.answering answers).withoutCache.run s).2.map Compiled.essence := by
    -- Without an answer of the store the functions answer as they do in this run.
    have missed (honest : call.Honest sh.site) : ∃ answers ∈ w.answers, ∀ s : Site, s.files = sh.site.files →
        (call.run sh.site).2.map Compiled.essence =
          ((call.answering answers).withoutCache.run s).2.map Compiled.essence := by
      refine ⟨call.ctx.answers, admitted.answers, fun s files => ?_⟩
      have same := @documents_withoutCache sh call call.ctx.answers s files
      rw [Call.answering_self] at same ⊢
      exact Call.run_of_honest honest same
    cases read : call.documents sh.site with
    | error f => exact missed fun docs b read' => nomatch read.symm.trans read'
    | ok docs =>
      cases answered : (call.answer sh.site docs).2 with
      | none =>
        refine missed fun docs' b read' hit => ?_
        obtain rfl := Except.ok.inj (read.symm.trans read')
        cases answered.symm.trans hit
      | some b =>
        obtain ⟨answers, allowed, honest⟩ := honest_of_hit faithful reached admitted read answered
        refine ⟨answers, allowed, fun s files => ?_⟩
        rw [← Call.run_answering read answered answers]
        exact Call.run_of_honest honest (documents_withoutCache answers files)
  refine ⟨alike, fun single s files => ?_, fun f failed => Call.nothing_of_error failed⟩
  obtain ⟨answers, allowed, same⟩ := alike
  have own : answers = call.ctx.answers := single allowed admitted.answers
  have equal := same s files
  rwa [own, Call.answering_self] at equal

def keeper (ts : Templates) : Compiler := { plant ts with cache := some { keyStart := "iisim:" } }

def stored (p : String × List UInt8 × List String) : Build := Cache.stamped ⟨0⟩ .zero (entry 1 p)

theorem madeAt_entry (p : String × List UInt8 × List String) : Cache.madeAt ⟨0⟩ (entry 1 p) = ⟨0⟩ :=
  if_pos (show Instant.isZero .zero = true by decide)

theorem lodge_keeper {ts : Templates} {store : Store} {p : String × List UInt8 × List String}
    (up : store.reachable = true) : (keeper ts).lodge digest (entry 1 p) false store ⟨0⟩ =
      store.put (Cache.key ⟨"iisim:", .zero⟩ digest) ⟨(stored p).encode, none⟩ := by
  have writable : Instant.isWritable ⟨0⟩ = true := by decide +kernel
  change (Cache.set ⟨"iisim:", .zero⟩ store ⟨0⟩ digest (entry 1 p)).1 = _
  rw [Cache.set_eq up, madeAt_entry, if_pos writable]
  rfl

theorem fetch_keeper {ts : Templates} {store : Store} {now : Instant} {p : String × List UInt8 × List String}
    (few : Word.isSigned p.2.2.length = true) (up : store.reachable = true)
    (held : store.find? (Cache.key ⟨"iisim:", .zero⟩ digest) = some ⟨(stored p).encode, none⟩) :
    (keeper ts).fetch digest false store now = (store, some (stored p).shown) := by
  have fits : (stored p).Fits := by
    refine ⟨few, ?_, show Word.isSigned 0 = true by decide⟩
    change (Cache.madeAt ⟨0⟩ (entry 1 p)).isWritable = true
    rw [madeAt_entry]
    decide +kernel
  have got : Cache.get ⟨"iisim:", .zero⟩ store now digest = (store, .ok (some (stored p).shown)) := by
    rw [Cache.get_eq up, held]
    simp only [fits.decode?_encode]
    rfl
  change ((Cache.get ⟨"iisim:", .zero⟩ store now digest).1, (Cache.get ⟨"iisim:", .zero⟩ store now digest).2.toOption.join) = _
  rw [got]
  rfl

theorem sameContent_shown {p : String × List UInt8 × List String} {text : String} (isText : p.2.1 = Text.bytes text) :
    SameContent (stored p).shown (entry 1 p) := by
  refine ⟨congrArg Text.bytes (Text.ofBytes_bytes _), ?_, rfl⟩
  change Text.bytes (Text.ofBytes p.2.1) = p.2.1
  rw [isText, Text.ofBytes_bytes]

theorem hit_of_compiled {ts : Templates} {w : Practice} {answers answers' : Template.Answers}
    {docs docs' : List (String × Document)} {p : String × List UInt8 × List String} {text : String}
    (schema : w.validator = .schema) (parsed : ts.Parsed w.library) (allowed : answers ∈ w.answers)
    (allowed' : answers' ∈ w.answers) (read : documents yard dir {} = .ok docs)
    (read' : documents yard dir' {} = .ok docs') (same : (keeper ts).input docs' = (keeper ts).input docs)
    (known : (keeper ts).input docs ∈ w.inputs) (made : (plant ts).product answers dir (docs.map (·.2)) = .ok p)
    (isText : p.2.1 = Text.bytes text) (few : Word.isSigned p.2.2.length = true) : ∃ sh : Shared,
    let call : Call := { compiler := keeper ts, dir := dir', ctx := { answers := answers' } }
    sh.site.files = yard ∧ Reachable w sh ∧ Admits w sh call ∧
      (call.run sh.site).2 = .ok (recalled dir' ((keeper ts).input docs').digest 1 (stored p).shown) := by
  let first : Call := { compiler := keeper ts, dir, ctx := { answers } }
  let second : Call := { compiler := keeper ts, dir := dir', ctx := { answers := answers' } }
  let start : Shared := { site := { files := yard } }
  have here : first.documents start.site = .ok docs := read
  have handed : first.handed start.site = some (((keeper ts).input docs).digest, entry 1 p) := by
    have product : first.product docs = .ok p := made
    rw [Call.handed, here]
    simp only [product]
    rfl
  have kept : (first.run start.site).1.store = Store.put {}
      (Cache.key ⟨"iisim:", .zero⟩ ((keeper ts).input docs).digest) ⟨(stored p).encode, none⟩ := by
    obtain ⟨metrics, seen, left⟩ := Call.run_fst here
    rw [left, handed]
    exact @lodge_keeper _ ts _ p rfl
  have admits : Admits w start first :=
    admits_of_read schema.symm parsed allowed here known fun b answered => by cases answered
  let later : Shared := { start.after first with
    site := { files := yard, store := (first.run start.site).1.store, now := ⟨1000⟩ } }
  have reached : Reachable w later := .change (.call (.start _) admits) _
  have there : second.documents later.site = .ok docs' := read'
  have answer : (second.answer later.site docs').2 = some (stored p).shown := by
    have held : later.site.store.find? (Cache.key ⟨"iisim:", .zero⟩ ((keeper ts).input docs').digest) =
        some ⟨(stored p).encode, none⟩ := by
      rw [same]
      change (first.run start.site).1.store.find? _ = _
      rw [kept]
      exact Store.find?_put_self rfl
    have up : later.site.store.reachable = true := by
      change (first.run start.site).1.store.reachable = true
      rw [kept]
      rfl
    exact congrArg Prod.snd (fetch_keeper few up held)
  have admitted : Admits w later second := by
    refine admits_of_read schema.symm parsed allowed' there (same ▸ known) fun b answered => ?_
    obtain rfl := Option.some.inj (answer.symm.trans answered)
    have inside : (((keeper ts).input docs).digest, entry 1 p) ∈ later.handed := by
      change _ ∈ (first.handed start.site).toList ++ []
      rw [handed]
      exact List.mem_singleton_self _
    exact ⟨_, inside, congrArg Input.digest same.symm, sameContent_shown isText⟩
  have hit : (second.run later.site).2 =
      .ok (recalled dir' ((keeper ts).input docs').digest 1 (stored p).shown) := by
    rw [Call.run_snd there, answer]
    rfl
  exact ⟨later, rfl, reached, admitted, hit⟩

theorem as_without_cache_of_copy : ∃ (ts : Templates) (w : Practice) (sh : Shared) (r : Compiled),
    let call : Call := { compiler := keeper ts, dir := "copy" }
    Set.InjOn Input.digest w.inputs ∧ Reachable w sh ∧ Admits w sh call ∧ w.answers.Subsingleton ∧
      (call.run sh.site).2 = .ok r ∧ r.cached = true ∧
        (∃ answers ∈ w.answers, ∀ s : Site, s.files = sh.site.files → (call.run sh.site).2.map Compiled.essence =
          ((call.answering answers).withoutCache.run s).2.map Compiled.essence) ∧
        (∀ s : Site, s.files = sh.site.files →
          (call.run sh.site).2.map Compiled.essence = (call.withoutCache.run s).2.map Compiled.essence) ∧
        ∀ f, (call.run sh.site).2 = .error f →
          call.handed sh.site = none ∧ (call.run sh.site).1.store.entries ⊆ sh.site.store.entries := by
  obtain ⟨ts, parses⟩ := plantTemplates_sound
  obtain ⟨docs, read, data, made⟩ := read_of_trial parses (by decide) trial_plots.1
  obtain ⟨docs', read', data', -⟩ := read_of_trial parses (by decide) trial_plots.2.1
  have same : (keeper ts).input docs' = (keeper ts).input docs := by
    simp only [input, data, data']
  let w : Practice := ⟨.schema, .plain, {.plain}, {(keeper ts).input docs}⟩
  obtain ⟨sh, -, reached, admitted, hit⟩ := @hit_of_compiled _ _ ts w _ _ _ _ _ _ rfl (Templates.parsed_of_parse parses)
    (Set.mem_singleton _) (Set.mem_singleton _) read read' same (Set.mem_singleton _) made rfl (by decide)
  have single : w.answers.Subsingleton := Set.subsingleton_singleton
  obtain ⟨alike, exact, failed⟩ := compile_as_without_cache (Set.injOn_singleton _ _) reached admitted
  exact ⟨ts, w, sh, _, Set.injOn_singleton _ _, reached, admitted, single, hit, rfl, alike, exact single, failed⟩

def salted : Template.Library := fun name =>
  if name = "randAlphaNum" then some { fixed := [.int] } else Template.Library.plain name

def drawing (letters : String) : Template.Answers := fun moment name args =>
  if name = "randAlphaNum" then some (.text (Text.bytes letters)) else Template.Answers.plain moment name args

def saltedTemplates : Except Failure Templates :=
  Templates.parse salted ("plant", Text.bytes "$\x7b randAlphaNum 1 \x7d") ("process", []) ("getter", [])

theorem trial_salted (letter : String) (drawn : letter = "x" ∨ letter = "y") :
    (trial saltedTemplates (drawing letter) "one" [("a.yaml", plantText), ("b.yaml", shopText)]).toOption =
      some ([("a.yaml", Text.bytes plantText), ("b.yaml", Text.bytes shopText)], "a", Text.bytes letter, ["b"]) := by
  rcases drawn with rfl | rfl
  · decide +kernel
  · decide +kernel

theorem cached_script_of_other_run : ∃ (w : Practice) (sh : Shared) (call : Call),
    Set.InjOn Input.digest w.inputs ∧ Reachable w sh ∧ Admits w sh call ∧ ∃ s : Site, s.files = sh.site.files ∧
      (call.run sh.site).2.map Compiled.essence ≠ (call.withoutCache.run s).2.map Compiled.essence := by
  obtain ⟨ts, parses⟩ := exists_ok (x := saltedTemplates) (by decide +kernel)
  obtain ⟨docs, read, -, made⟩ := read_of_trial parses (by decide) (trial_salted "x" (.inl rfl))
  obtain ⟨docs', read', -, made'⟩ := read_of_trial parses (by decide) (trial_salted "y" (.inr rfl))
  obtain rfl := Except.ok.inj (read.symm.trans read')
  let w : Practice := ⟨.schema, salted, {drawing "x", drawing "y"}, {(keeper ts).input docs}⟩
  obtain ⟨sh, files, reached, admitted, hit⟩ := @hit_of_compiled _ _ ts w (drawing "x") (drawing "y") _ _ _ _ rfl
    (Templates.parsed_of_parse parses) (.inl rfl) (.inr rfl) read read rfl (Set.mem_singleton _) made rfl (by decide)
  refine ⟨w, sh, _, Set.injOn_singleton _ _, reached, admitted, { files := yard }, files.symm, ?_⟩
  have again := @compile_of_documents (plant ts) "one" { files := yard } { answers := drawing "y" } docs rfl read
  rw [made'] at again
  intro alike
  rw [hit] at alike
  have scripts := congrArg (Except.map Compiled.script) (alike.trans (congrArg (Except.map Compiled.essence) again))
  have equal : Text.bytes (Text.ofBytes (Text.bytes "x")) = Text.bytes "y" := Except.ok.inj scripts
  exact absurd equal (by decide +kernel)

end Shared

end Compiler

end Flowsheet
