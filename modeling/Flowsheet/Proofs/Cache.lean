import Mathlib.Data.List.Induction
import Flowsheet.Proofs.Json.Text
import Flowsheet.Proofs.Store
import Flowsheet.Proofs.Time.Instant
import Flowsheet.Store.Cache

set_option autoImplicit false

namespace Flowsheet

namespace Build

structure Fits (b : Build) : Prop where
  processes : Word.isSigned b.processes = true
  updatedAt : b.updatedAt.isWritable = true
  ttl : Word.isSigned b.ttl.nanoseconds = true

open Json (spelling)

def members (b : Build) : List (String × Json) :=
  let name (k : String) := spelling (Text.bytes k)
  [(name "industry", .string (spelling b.industry)), (name "script", .string (spelling b.script)),
    (name "processes", .ofInt b.processes), (name "run_id", .string (spelling b.runId)),
    (name "updated_at", .string b.updatedAt.text), (name "ttl", .ofInt b.ttl.nanoseconds)]

theorem spelled?_encode (b : Build) : Json.spelled? b.encode = some (.object b.members) := by
  have time := Json.spells_quote b.updatedAt.text
  rw [Instant.spelling_text] at time
  refine Json.spelled?_objectText ?_ (List.cons_ne_nil _ _)
  refine .cons ⟨rfl, Json.spells_quoteBytes _⟩ <| .cons ⟨rfl, Json.spells_quoteBytes _⟩ <|
    .cons ⟨rfl, Json.spells_ofInt _⟩ <| .cons ⟨rfl, Json.spells_quoteBytes _⟩ ?_
  exact .cons ⟨rfl, time⟩ (.cons ⟨rfl, Json.spells_ofInt _⟩ .nil)

theorem Fits.decode?_encode {b : Build} (fits : b.Fits) : decode? b.encode = some b.shown := by
  have sets : List.Forall₂ (Json.Sets field) b.members
      [fun a => { a with industry := b.shown.industry }, fun a => { a with script := b.shown.script },
        fun a => { a with processes := b.processes }, fun a => { a with runId := b.shown.runId },
        fun a => { a with updatedAt := b.updatedAt }, fun a => { a with ttl := b.ttl }] := by
    refine .cons (.of_small (by decide +kernel) rfl nofun (Json.string?_spelling _ _)) ?_
    refine .cons (.of_small (by decide +kernel) rfl nofun (Json.string?_spelling _ _)) ?_
    refine .cons (.of_small (by decide +kernel) rfl nofun (Json.int?_ofInt _ fits.processes)) ?_
    refine .cons (.of_small (by decide +kernel) rfl nofun (Json.string?_spelling _ _)) ?_
    refine .cons (.of_small (by decide +kernel) rfl nofun ?_) ?_
    · simp only [Instant.parse?_text fits.updatedAt, Option.map_some]
    · exact .cons (.of_small (by decide +kernel) rfl nofun (Json.int?_ofInt _ fits.ttl)) .nil
  rw [decode?, spelled?_encode]
  exact Json.record?_object sets {}

theorem shown_eq_iff (b : Build) : b.shown.industry = b.industry ∧ b.shown.script = b.script ∧ b.shown.runId = b.runId ↔
    ∀ s ∈ [b.industry, b.script, b.runId], ∃ text, s = Text.bytes text := by
  simp only [List.forall_mem_cons, List.not_mem_nil, false_implies, implies_true, and_true, shown]
  exact and_congr Text.bytes_ofBytes_iff (and_congr Text.bytes_ofBytes_iff Text.bytes_ofBytes_iff)

end Build

namespace Cache

structure World where
  store : Store := {}
  origin : Instant

def World.now (w : World) : Instant := ⟨w.origin.nanoseconds + w.store.clock⟩

/-- What is done with caches, which differ in how long they keep builds, and with the clock. -/
inductive Use where
  | set (ttl : Duration) (digest : String) (b : Build)
  | get (ttl : Duration) (digest : String)
  | invalidate (ttl : Duration) (digest : String)
  | wait (d : Duration)

def Use.Fits : Use → Prop
  | .set ttl _ b =>
    0 ≤ ttl.nanoseconds ∧ Word.isSigned ttl.nanoseconds = true ∧ Word.isSigned b.processes = true
  | .wait d => 0 ≤ d.nanoseconds
  | _ => True

instance : (u : Use) → Decidable u.Fits
  | .set ttl _ b => inferInstanceAs (Decidable
      (0 ≤ ttl.nanoseconds ∧ Word.isSigned ttl.nanoseconds = true ∧ Word.isSigned b.processes = true))
  | .wait d => inferInstanceAs (Decidable (0 ≤ d.nanoseconds))
  | .get .. | .invalidate .. => inferInstanceAs (Decidable True)

def Use.concerns (digest : String) : Use → Bool
  | .set _ d _ | .get _ d | .invalidate _ d => d = digest
  | .wait _ => true

def stamped (now : Instant) (ttl : Duration) (b : Build) : Build := { b with updatedAt := madeAt now b, ttl }

variable {start digest : String} {ttl : Duration} {s : Store} {time : Instant} {b : Build}

theorem key_ne {other : String} (apart : digest ≠ other) : key ⟨start, ttl⟩ digest ≠ key ⟨start, ttl⟩ other := by
  intro same
  have lists := congrArg String.toList same
  simp only [key, String.toList_append] at lists
  exact apart (String.toList_injective (List.append_cancel_left lists))

theorem set_eq (up : s.reachable = true) : set ⟨start, ttl⟩ s time digest b =
    if (madeAt time b).isWritable then
      (s.put (key ⟨start, ttl⟩ digest) ⟨(stamped time ttl b).encode, s.deadline ttl⟩, .ok ())
    else (s, .error .mk) := by
  simp [set, Store.set, Store.command, up, stamped]

theorem invalidate_eq (up : s.reachable = true) :
    invalidate ⟨start, ttl⟩ s digest = (s.erase (key ⟨start, ttl⟩ digest), .ok ()) := by
  simp [invalidate, Store.delete, Store.command, up]

theorem get_eq (up : s.reachable = true) : get ⟨start, ttl⟩ s time digest =
    match s.find? (key ⟨start, ttl⟩ digest) with
    | none => (s, .ok none)
    | some v =>
      match Build.decode? v.value with
      | none => (s, .error .mk)
      | some b =>
        if b.isStale time then (s.erase (key ⟨start, ttl⟩ digest), .ok none) else (s, .ok (some b)) := by
  unfold get
  cases found : s.find? (key ⟨start, ttl⟩ digest) with
  | none => simp [Store.get, Store.command, up, found]
  | some v =>
    cases decoded : Build.decode? v.value with
    | none => simp [Store.get, Store.command, up, found, decoded]
    | some b => simp [Store.get, Store.command, up, found, decoded, Store.delete]

namespace World

def answer (start : String) (ttl : Duration) (digest : String) (w : World) :
    Except Store.Unavailable (Option Build) :=
  (get ⟨start, ttl⟩ w.store w.now digest).2

def step (start : String) (w : World) : Use → World
  | .set ttl digest b => { w with store := (set ⟨start, ttl⟩ w.store w.now digest b).1 }
  | .get ttl digest => { w with store := (get ⟨start, ttl⟩ w.store w.now digest).1 }
  | .invalidate ttl digest => { w with store := (invalidate ⟨start, ttl⟩ w.store digest).1 }
  | .wait d => { w with store := w.store.advance d }

def after (start : String) (w : World) (uses : List Use) : World := uses.foldl (step start) w

/-- The uses, each with the world it finds. -/
def moments (start : String) (w : World) : List Use → List (World × Use)
  | [] => []
  | u :: us => (w, u) :: moments start (w.step start u) us

/-- That a use decides what is kept under a digest: it removes it, or puts a build there and does
not fail. -/
def Settles (start digest : String) : World × Use → Prop
  | (w, .set ttl d b) => d = digest ∧ (set ⟨start, ttl⟩ w.store w.now d b).2 = .ok ()
  | (_, .invalidate _ d) => d = digest
  | _ => False

/-- That a build was put under a digest, and nothing decided about the digest since. -/
def LastSet (start digest : String) (ms : List (World × Use)) (w : World) (ttl : Duration) (b : Build) : Prop :=
  ∃ before after, ms = before ++ (w, .set ttl digest b) :: after ∧ Settles start digest (w, .set ttl digest b) ∧
    ∀ m ∈ after, ¬ Settles start digest m

-- That a build put under a digest is not too old later: neither since then nor since it was made, which is
-- measured in durations.
def Lasts (w later : World) (ttl : Duration) (b : Build) : Prop :=
  ttl = .zero ∨
    later.now.nanoseconds - w.now.nanoseconds < ttl.nanoseconds ∧ later.now.since (madeAt w.now b) ≤ ttl

variable {w w' later : World} {ms : List (World × Use)} {m : World × Use} {u : Use} {uses : List Use}

theorem settles_set_iff (up : w.store.reachable = true) {d : String} :
    Settles start digest (w, .set ttl d b) ↔ d = digest ∧ (madeAt w.now b).isWritable = true := by
  rw [Settles, set_eq up]
  split
  next writable => simp [writable]
  next late => simp [late]

theorem after_concat : w.after start (uses ++ [u]) = (w.after start uses).step start u := by
  simp [after]

theorem moments_concat : w.moments start (uses ++ [u]) = w.moments start uses ++ [(w.after start uses, u)] := by
  induction uses generalizing w with
  | nil => rfl
  | cons v uses ih => exact congrArg ((w, v) :: ·) ih

theorem lastSet_concat_other (other : ¬ Settles start digest m) :
    LastSet start digest (ms ++ [m]) w ttl b ↔ LastSet start digest ms w ttl b := by
  constructor
  · rintro ⟨before, after, split, settles, none⟩
    rcases List.eq_nil_or_concat after with rfl | ⟨after, last, rfl⟩
    · have same := List.append_inj_right' split rfl
      cases same
      exact absurd settles other
    · rw [List.concat_eq_append, ← List.cons_append, ← List.append_assoc] at split
      exact ⟨before, after, List.append_inj_left' split rfl, settles, fun m inside => none m (by simp [inside])⟩
  · rintro ⟨before, after, rfl, settles, none⟩
    refine ⟨before, after ++ [m], by simp, settles, fun n inside => ?_⟩
    rcases List.mem_append.mp inside with earlier | last
    · exact none n earlier
    · rwa [List.mem_singleton.mp last]

theorem lastSet_concat_settled (settled : Settles start digest m) :
    LastSet start digest (ms ++ [m]) w ttl b ↔ m = (w, .set ttl digest b) := by
  constructor
  · rintro ⟨before, after, split, settles, none⟩
    rcases List.eq_nil_or_concat after with rfl | ⟨after, last, rfl⟩
    · exact (List.singleton_inj.mp (List.append_inj_right' split rfl))
    · rw [List.concat_eq_append, ← List.cons_append, ← List.append_assoc] at split
      have same := List.singleton_inj.mp (List.append_inj_right' split rfl)
      exact absurd settled (none m (by simp [same]))
  · rintro rfl
    exact ⟨ms, [], rfl, settled, by simp⟩

def found (start digest : String) (w : World) : Option Stored := w.store.find? (key ⟨start, .zero⟩ digest)

structure Agrees (start digest : String) (w w' : World) : Prop where
  origin : w.origin = w'.origin
  clock : w.store.clock = w'.store.clock
  up : w.store.reachable = true
  up' : w'.store.reachable = true
  found : w.found start digest = w'.found start digest

theorem Agrees.trans {w'' : World} (agrees : Agrees start digest w w') (agrees' : Agrees start digest w' w'') :
    Agrees start digest w w'' :=
  ⟨agrees.origin.trans agrees'.origin, agrees.clock.trans agrees'.clock, agrees.up, agrees'.up',
    agrees.found.trans agrees'.found⟩

theorem Agrees.symm (agrees : Agrees start digest w w') : Agrees start digest w' w :=
  ⟨agrees.origin.symm, agrees.clock.symm, agrees.up', agrees.up, agrees.found.symm⟩

theorem Agrees.now (agrees : Agrees start digest w w') : w.now = w'.now := by
  rw [World.now, World.now, agrees.origin, agrees.clock]

theorem Agrees.answer (agrees : Agrees start digest w w') :
    w.answer start ttl digest = w'.answer start ttl digest := by
  have found : w.store.find? (key ⟨start, ttl⟩ digest) = w'.store.find? (key ⟨start, ttl⟩ digest) := agrees.found
  rw [World.answer, World.answer, get_eq agrees.up, get_eq agrees.up', found, agrees.now]
  split
  · rfl
  · split
    · rfl
    · split <;> rfl

theorem store_get (up : s.reachable = true) :
    (get ⟨start, ttl⟩ s time digest).1 = s ∨
      (get ⟨start, ttl⟩ s time digest).1 = s.erase (key ⟨start, ttl⟩ digest) := by
  rw [get_eq up]
  split
  · exact .inl rfl
  · split
    · exact .inl rfl
    · split
      · exact .inr rfl
      · exact .inl rfl

theorem agrees_step (up : w.store.reachable = true) (other : u.concerns digest = false) :
    Agrees start digest (w.step start u) w := by
  cases u with
  | wait d => cases other
  | set ttl d b =>
    have apart : digest ≠ d := by simpa [Use.concerns, eq_comm] using other
    rw [step, set_eq up]
    split
    · exact ⟨rfl, rfl, up, up, Store.find?_put_of_ne (key_ne apart)⟩
    · exact ⟨rfl, rfl, up, up, rfl⟩
  | get ttl d =>
    have apart : digest ≠ d := by simpa [Use.concerns, eq_comm] using other
    rw [step]
    rcases @store_get start d ttl w.store w.now up with same | erased
    · rw [same]
      exact ⟨rfl, rfl, up, up, rfl⟩
    · rw [erased]
      exact ⟨rfl, rfl, up, up, Store.find?_erase_of_ne (key_ne apart)⟩
  | invalidate ttl d =>
    have apart : digest ≠ d := by simpa [Use.concerns, eq_comm] using other
    rw [step, invalidate_eq up]
    exact ⟨rfl, rfl, up, up, Store.find?_erase_of_ne (key_ne apart)⟩

theorem Agrees.step (agrees : Agrees start digest w w') (fits : u.Fits) :
    Agrees start digest (w.step start u) (w'.step start u) := by
  -- A use of another digest changes nothing in either world that shows.
  by_cases concerned : u.concerns digest = true
  · cases u with
    | wait d =>
      have later := @Store.find?_advance w.store (key ⟨start, .zero⟩ digest) d fits
      have later' := @Store.find?_advance w'.store (key ⟨start, .zero⟩ digest) d fits
      refine ⟨agrees.origin, congrArg (· + d.nanoseconds) agrees.clock, agrees.up, agrees.up', ?_⟩
      rw [World.found, World.found, World.step, World.step, later, later', agrees.clock]
      exact congrArg (Option.filter _) agrees.found
    | set ttl d b =>
      obtain rfl : d = digest := by simpa [Use.concerns] using concerned
      rw [World.step, World.step, set_eq agrees.up, set_eq agrees.up', agrees.now]
      split
      · refine ⟨agrees.origin, agrees.clock, agrees.up, agrees.up', ?_⟩
        have kept (s : Store) (v : Stored) := @Store.find?_put s (key ⟨start, ttl⟩ d) v
        change Store.find? _ (key ⟨start, ttl⟩ d) = Store.find? _ (key ⟨start, ttl⟩ d)
        rw [kept, kept, agrees.clock, Store.deadline, Store.deadline, agrees.clock]
      · exact agrees
    | get ttl d =>
      obtain rfl : d = digest := by simpa [Use.concerns] using concerned
      have erased : Agrees start d { w with store := w.store.erase (key ⟨start, ttl⟩ d) }
          { w' with store := w'.store.erase (key ⟨start, ttl⟩ d) } :=
        ⟨agrees.origin, agrees.clock, agrees.up, agrees.up',
          Store.find?_erase_self.trans Store.find?_erase_self.symm⟩
      have found : w.store.find? (key ⟨start, ttl⟩ d) = w'.store.find? (key ⟨start, ttl⟩ d) := agrees.found
      rw [World.step, World.step, get_eq agrees.up, get_eq agrees.up', found, agrees.now]
      split
      · exact agrees
      · split
        · exact agrees
        · split
          · exact erased
          · exact agrees
    | invalidate ttl d =>
      obtain rfl : d = digest := by simpa [Use.concerns] using concerned
      rw [World.step, World.step, invalidate_eq agrees.up, invalidate_eq agrees.up']
      refine ⟨agrees.origin, agrees.clock, agrees.up, agrees.up', ?_⟩
      exact Store.find?_erase_self.trans Store.find?_erase_self.symm
  · have other : u.concerns digest = false := by simpa using concerned
    exact (agrees_step agrees.up other).trans (agrees.trans (agrees_step agrees.up' other).symm)

theorem reachable_step (up : w.store.reachable = true) (fits : u.Fits) :
    (w.step start u).store.reachable = true := by
  have alike : Agrees start "" w w := ⟨rfl, rfl, up, up, rfl⟩
  exact (alike.step fits).up

theorem agrees_filter (agrees : Agrees start digest w w') (fits : ∀ u ∈ uses, u.Fits) :
    Agrees start digest (w.after start uses) (w'.after start (uses.filter (·.concerns digest))) := by
  induction uses generalizing w w' with
  | nil => exact agrees
  | cons u uses ih =>
    have rest : ∀ v ∈ uses, v.Fits := fun v inside => fits v (List.mem_cons_of_mem u inside)
    by_cases concerned : u.concerns digest = true
    · rw [List.filter_cons_of_pos concerned]
      exact ih (agrees.step (fits u List.mem_cons_self)) rest
    · rw [List.filter_cons_of_neg concerned]
      exact ih ((agrees_step agrees.up (by simpa using concerned)).trans agrees) rest

-- What becomes of a build that was put under a digest: the store holds it as long as it may, and holds
-- nothing only once it is too old.
structure Remembers (start digest : String) (w : World) (ttl : Duration) (b : Build) (later : World) : Prop where
  fits : (stamped w.now ttl b).Fits
  least : 0 ≤ ttl.nanoseconds
  origin : later.origin = w.origin
  held : later.found start digest = some ⟨(stamped w.now ttl b).encode, w.store.deadline ttl⟩ ∧
      (ttl = .zero ∨ later.now.nanoseconds - w.now.nanoseconds < ttl.nanoseconds) ∨
    later.found start digest = none ∧ ¬ Lasts w later ttl b

theorem zero_iff : ttl = .zero ↔ ttl.nanoseconds = 0 := by
  cases ttl
  simp [Duration.zero]

theorem isStale_stamped_iff (least : 0 ≤ ttl.nanoseconds) : (stamped w.now ttl b).isStale later.now = true ↔
    ¬ (ttl = .zero ∨ later.now.since (madeAt w.now b) ≤ ttl) := by
  have order : ttl < later.now.since (madeAt w.now b) ↔ ¬ later.now.since (madeAt w.now b) ≤ ttl := Int.not_le.symm
  have positive : 0 < ttl.nanoseconds ↔ ¬ ttl = .zero := by
    rw [zero_iff]
    omega
  simp only [Build.isStale, stamped, Duration.isPositive, Bool.and_eq_true, decide_eq_true_eq, order, positive,
    not_or]

theorem lasts_iff : Lasts w later ttl b ↔
    (ttl = .zero ∨ later.now.nanoseconds - w.now.nanoseconds < ttl.nanoseconds) ∧
      (ttl = .zero ∨ later.now.since (madeAt w.now b) ≤ ttl) := or_and_left

theorem get_found (up : later.store.reachable = true) (fits : (stamped w.now ttl b).Fits) {other : Duration}
    {ends : Option Int}
    (held : later.found start digest = some ⟨(stamped w.now ttl b).encode, ends⟩) :
    get ⟨start, other⟩ later.store later.now digest =
      if (stamped w.now ttl b).isStale later.now then
        (later.store.erase (key ⟨start, other⟩ digest), .ok none)
      else (later.store, .ok (some (stamped w.now ttl b).shown)) := by
  have held : later.store.find? (key ⟨start, other⟩ digest) = some ⟨(stamped w.now ttl b).encode, ends⟩ := held
  rw [get_eq up, held]
  simp only [fits.decode?_encode]
  rfl

theorem get_missing (up : later.store.reachable = true) {other : Duration}
    (none : later.found start digest = none) :
    get ⟨start, other⟩ later.store later.now digest = (later.store, .ok .none) := by
  have none : later.store.find? (key ⟨start, other⟩ digest) = .none := none
  rw [get_eq up, none]

theorem Remembers.answer (remembers : Remembers start digest w ttl b later) (up : later.store.reachable = true)
    (other : Duration) :
    (Lasts w later ttl b → later.answer start other digest = .ok (some (stamped w.now ttl b).shown)) ∧
    (¬ Lasts w later ttl b → later.answer start other digest = .ok none) := by
  rcases remembers.held with ⟨held, early⟩ | ⟨missing, late⟩
  · rw [World.answer, get_found up remembers.fits held, lasts_iff, and_iff_right early]
    have stale := @isStale_stamped_iff ttl b w later remembers.least
    constructor
    · intro recent
      rw [if_neg fun old => stale.mp old recent]
    · intro old
      rw [if_pos (stale.mpr old)]
  · rw [World.answer, get_missing up missing]
    exact ⟨fun lasts => absurd lasts late, fun _ => rfl⟩

theorem Lasts.earlier {later' : World} (lasts : Lasts w later' ttl b)
    (le : later.now.nanoseconds ≤ later'.now.nanoseconds) : Lasts w later ttl b := by
  refine lasts.imp_right fun ⟨soon, recent⟩ => ⟨by omega, ?_⟩
  exact Int.le_trans (Instant.since_mono le) recent

theorem Remembers.wait (remembers : Remembers start digest w ttl b later) {d : Duration}
    (forward : 0 ≤ d.nanoseconds) : Remembers start digest w ttl b (later.step start (.wait d)) := by
  have now : (later.step start (.wait d)).now.nanoseconds = later.now.nanoseconds + d.nanoseconds :=
    (Int.add_assoc _ _ _).symm
  have found : (later.step start (.wait d)).found start digest =
      (later.found start digest).filter (Store.Stored.isLive (later.store.clock + d.nanoseconds)) :=
    Store.find?_advance forward
  have live : Store.Stored.isLive (later.store.clock + d.nanoseconds)
      ⟨(stamped w.now ttl b).encode, w.store.deadline ttl⟩ = true ↔
      ttl = .zero ∨ (later.step start (.wait d)).now.nanoseconds - w.now.nanoseconds < ttl.nanoseconds := by
    have same := congrArg Instant.nanoseconds remembers.origin
    rw [now]
    unfold Store.Stored.isLive Store.deadline World.now
    by_cases zero : ttl = .zero
    · simp [zero]
    · simp only [zero, if_false, decide_eq_true_eq, false_or]
      omega
  refine ⟨remembers.fits, remembers.least, remembers.origin, ?_⟩
  rw [found]
  rcases remembers.held with ⟨held, -⟩ | ⟨missing, late⟩
  · rw [held]
    by_cases early : ttl = .zero ∨
        (later.step start (.wait d)).now.nanoseconds - w.now.nanoseconds < ttl.nanoseconds
    · exact .inl ⟨Option.filter_some_pos (live.mpr early), early⟩
    · have dead := Bool.eq_false_iff.mpr fun alive => early (live.mp alive)
      exact .inr ⟨Option.filter_some_neg dead, fun lasts => early (lasts_iff.mp lasts).1⟩
  · rw [missing]
    exact .inr ⟨rfl, fun lasts => late (lasts.earlier (by omega))⟩

theorem step_of_undecided (up : w.store.reachable = true) (undecided : ¬ Settles start digest (w, u)) :
    (∃ d, u = .wait d) ∨ Agrees start digest (w.step start u) w ∨
      ∃ v b, w.found start digest = some v ∧ Build.decode? v.value = some b ∧ b.isStale w.now = true ∧
        w.step start u = { w with store := w.store.erase (key ⟨start, .zero⟩ digest) } := by
  have same : Agrees start digest w w := ⟨rfl, rfl, up, up, rfl⟩
  by_cases concerned : u.concerns digest = true
  · cases u with
    | wait d => exact .inl ⟨d, rfl⟩
    | invalidate ttl d =>
      obtain rfl : d = digest := by simpa [Use.concerns] using concerned
      exact absurd rfl undecided
    | set ttl d b =>
      obtain rfl : d = digest := by simpa [Use.concerns] using concerned
      have late : ¬ (madeAt w.now b).isWritable = true :=
        fun writable => undecided ((settles_set_iff up).mpr ⟨rfl, writable⟩)
      rw [step, set_eq up, if_neg late]
      exact .inr (.inl same)
    | get ttl d =>
      obtain rfl : d = digest := by simpa [Use.concerns] using concerned
      rw [step, get_eq up]
      split
      next => exact .inr (.inl same)
      next v held =>
        split
        next => exact .inr (.inl same)
        next b decoded =>
          split
          next stale => exact .inr (.inr ⟨v, b, held, decoded, stale, rfl⟩)
          next => exact .inr (.inl same)
  · exact .inr (.inl (agrees_step up (by simpa using concerned)))

theorem Remembers.step (remembers : Remembers start digest w ttl b later) (up : later.store.reachable = true)
    (fits : u.Fits) (undecided : ¬ Settles start digest (later, u)) :
    Remembers start digest w ttl b (later.step start u) := by
  rcases step_of_undecided up undecided with ⟨d, rfl⟩ | agrees | ⟨v, old, found, decoded, stale, removed⟩
  · exact remembers.wait fits
  · have now := agrees.now
    refine ⟨remembers.fits, remembers.least, agrees.origin.trans remembers.origin, ?_⟩
    rw [agrees.found, Lasts, now]
    exact remembers.held
  · rw [removed]
    refine ⟨remembers.fits, remembers.least, remembers.origin, .inr ⟨Store.find?_erase_self, fun lasts => ?_⟩⟩
    rcases remembers.held with ⟨held, -⟩ | ⟨missing, -⟩
    · -- what was removed is the build that is remembered
      obtain rfl := Option.some.inj (found.symm.trans held)
      obtain rfl := Option.some.inj (decoded.symm.trans remembers.fits.decode?_encode)
      exact (isStale_stamped_iff remembers.least).mp stale (lasts_iff.mp lasts).2
    · cases found.symm.trans missing

theorem remembers_set (up : w.store.reachable = true) (fits : (Use.set ttl digest b).Fits)
    (settles : Settles start digest (w, .set ttl digest b)) :
    Remembers start digest w ttl b (w.step start (.set ttl digest b)) := by
  obtain ⟨least, wide, processes⟩ := fits
  obtain ⟨-, writable⟩ := (settles_set_iff up).mp settles
  have early : ttl = .zero ∨ w.now.nanoseconds - w.now.nanoseconds < ttl.nanoseconds := by
    rw [zero_iff]
    omega
  have live : Store.Stored.isLive w.store.clock ⟨(stamped w.now ttl b).encode, w.store.deadline ttl⟩ = true := by
    unfold Store.Stored.isLive Store.deadline
    by_cases zero : ttl = .zero
    · simp [zero]
    · rw [zero_iff] at zero
      simp [zero_iff, zero]
      omega
  rw [step, set_eq up, if_pos writable]
  exact ⟨⟨processes, writable, wide⟩, least, rfl, .inl ⟨Store.find?_put_self live, early⟩⟩

theorem found_step_of_none (up : w.store.reachable = true) (fits : u.Fits)
    (undecided : ¬ Settles start digest (w, u)) (none : w.found start digest = none) :
    (w.step start u).found start digest = .none := by
  rcases step_of_undecided up undecided with ⟨d, rfl⟩ | agrees | ⟨v, old, found, -, -, -⟩
  · have later := @Store.find?_advance w.store (key ⟨start, .zero⟩ digest) d fits
    have held : w.store.find? (key ⟨start, .zero⟩ digest) = .none := none
    rw [held] at later
    exact later
  · exact agrees.found.trans none
  · cases found.symm.trans none

structure Known (start digest : String) (ms : List (World × Use)) (w : World) : Prop where
  up : w.store.reachable = true
  remembers : ∀ w' ttl b, LastSet start digest ms w' ttl b → Remembers start digest w' ttl b w
  missing : (∀ w' ttl b, ¬ LastSet start digest ms w' ttl b) → w.found start digest = none

theorem Known.step (known : Known start digest ms w) (fits : u.Fits) :
    Known start digest (ms ++ [(w, u)]) (w.step start u) := by
  refine ⟨reachable_step known.up fits, ?_, ?_⟩
  · intro w' ttl b last
    by_cases settles : Settles start digest (w, u)
    · cases (lastSet_concat_settled settles).mp last
      exact remembers_set known.up fits settles
    · exact (known.remembers w' ttl b ((lastSet_concat_other settles).mp last)).step known.up fits settles
  · intro none
    by_cases settles : Settles start digest (w, u)
    · cases u with
      | wait d => cases settles
      | get ttl d => cases settles
      | set ttl d b =>
        obtain rfl : d = digest := settles.1
        exact absurd ((lastSet_concat_settled settles).mpr rfl) (none w ttl b)
      | invalidate ttl d =>
        obtain rfl : d = digest := settles
        rw [World.step, invalidate_eq known.up]
        exact Store.find?_erase_self
    · have before : ∀ w' ttl b, ¬ LastSet start digest ms w' ttl b :=
        fun w' ttl b last => none w' ttl b ((lastSet_concat_other settles).mpr last)
      exact found_step_of_none known.up fits settles (known.missing before)

theorem known_after (up : w.store.reachable = true) (missing : w.found start digest = none)
    (fits : ∀ u ∈ uses, u.Fits) : Known start digest (w.moments start uses) (w.after start uses) := by
  induction uses using List.reverseRecOn with
  | nil => exact ⟨up, fun w' ttl b ⟨before, after, split, _⟩ => absurd split (by simp [moments]), fun _ => missing⟩
  | append_singleton uses u ih =>
    rw [moments_concat, after_concat]
    exact (ih fun v inside => fits v (List.mem_append_left _ inside)).step (fits u (by simp))

/-- A cache answers with what a reader sees of the build that was last put under a digest, as long as
it lasts, and with nothing otherwise. It does not matter what was done with other digests. The strings
come back as they were given just when they are texts. -/
theorem answer_of_last_set (start digest : String) (w : World) (up : w.store.reachable = true)
    (missing : w.found start digest = none) (uses : List Use) (fits : ∀ u ∈ uses, u.Fits) (ttl : Duration) :
    (∃ kept, (w.after start uses).answer start ttl digest = .ok kept ∧ ∀ e, kept = some e ↔
      ∃ w' t b, LastSet start digest (w.moments start uses) w' t b ∧ Lasts w' (w.after start uses) t b ∧
        e = (stamped w'.now t b).shown) ∧
    (w.after start (uses.filter (·.concerns digest))).answer start ttl digest =
      (w.after start uses).answer start ttl digest ∧
    ∀ now t b, let e := (stamped now t b).shown
      e.processes = b.processes ∧ (e.industry = b.industry ∧ e.script = b.script ∧ e.runId = b.runId ↔
        ∀ s ∈ [b.industry, b.script, b.runId], ∃ text, s = Text.bytes text) := by
  have known := known_after up missing fits
  refine ⟨?_, (agrees_filter ⟨rfl, rfl, up, up, rfl⟩ fits).answer.symm,
    fun now t b => ⟨rfl, (stamped now t b).shown_eq_iff⟩⟩
  have back {kept : Option Build} (answer : (w.after start uses).answer start ttl digest = .ok kept) (e : Build) :
      (∃ w' t b, LastSet start digest (w.moments start uses) w' t b ∧ Lasts w' (w.after start uses) t b ∧
        e = (stamped w'.now t b).shown) → kept = some e := by
    rintro ⟨w', t, b, last, lasts, rfl⟩
    have given := ((known.remembers w' t b last).answer known.up ttl).1 lasts
    exact Except.ok.inj (answer.symm.trans given)
  by_cases put : ∃ w' t b, LastSet start digest (w.moments start uses) w' t b
  · obtain ⟨w', t, b, last⟩ := put
    obtain ⟨kept, gone⟩ := (known.remembers w' t b last).answer known.up ttl
    by_cases lasts : Lasts w' (w.after start uses) t b
    · refine ⟨_, kept lasts, fun e => ⟨fun same => ?_, back (kept lasts) e⟩⟩
      exact ⟨w', t, b, last, lasts, (Option.some.inj same).symm⟩
    · exact ⟨none, gone lasts, fun e => ⟨nofun, back (gone lasts) e⟩⟩
  · have none := known.missing fun w' t b last => put ⟨w', t, b, last⟩
    have answer : (w.after start uses).answer start ttl digest = .ok .none := by
      rw [World.answer, get_missing known.up none]
    exact ⟨.none, answer, fun e => ⟨nofun, back answer e⟩⟩

def busyMinute (b b' : Build) : List Use :=
  [.set (.ofSeconds 60) "kiln" b, .set .zero "mill" b', .wait (.ofSeconds 59), .invalidate .zero "mill",
    .get (.ofSeconds 1) "kiln"]

theorem answer_of_last_set_kiln :
    ({ origin := ⟨0⟩ } : World).store.reachable = true ∧ ({ origin := ⟨0⟩ } : World).found "a:" "kiln" = none ∧
    (∀ u ∈ busyMinute { script := [97] } { script := [255] }, u.Fits) ∧
    (({ origin := ⟨0⟩ } : World).after "a:"
      (busyMinute { script := [97] } { script := [255] })).answer "a:" .zero "kiln" =
      .ok (some { script := [97], updatedAt := ⟨0⟩, ttl := .ofSeconds 60 }) := by
  have fits : ∀ u ∈ busyMinute { script := [97] } { script := [255] }, u.Fits := by decide
  refine ⟨rfl, rfl, fits, ?_⟩
  obtain ⟨⟨kept, answer, law⟩, -⟩ := answer_of_last_set "a:" "kiln" { origin := ⟨0⟩ } rfl rfl _ fits .zero
  have kept : (set ⟨"a:", .ofSeconds 60⟩ {} ⟨0⟩ "kiln" { script := [97] }).2 = .ok () := by decide +kernel
  rw [answer, (law _).mpr]
  refine ⟨{ origin := ⟨0⟩ }, .ofSeconds 60, { script := [97] }, ⟨[], _, rfl, ⟨rfl, kept⟩, ?_⟩, .inr ?_, ?_⟩
  · simp [moments, Settles]
  · decide +kernel
  · decide +kernel

theorem stray_byte_replaced :
    (set ⟨"a:", .zero⟩ {} ⟨0⟩ "kiln" { script := [255] }).2 = .ok () ∧
    (({ origin := ⟨0⟩ } : World).after "a:" [.set .zero "kiln" { script := [255] }]).answer "a:" .zero "kiln" =
      .ok (some { script := [239, 191, 189], updatedAt := ⟨0⟩ }) := by
  decide +kernel

end World

end Cache

end Flowsheet
