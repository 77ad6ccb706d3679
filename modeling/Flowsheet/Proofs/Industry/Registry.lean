import Flowsheet.Proofs.Industry.Acceptance

set_option autoImplicit false

namespace Flowsheet

variable {N : Type}

structure Registry (N : Type) where
  metaProcess : Option (MetaProcess N) := none
  processes : Values (Process N) := []
  order : List String := []
  dependencies : Values (List String) := []
  defaultBounds : N × N

inductive Call (N : Type) where
  | add (id : String) (p : Process N)
  | setMeta (m : Option (MetaProcess N))

namespace Registry

def addProcess (id : String) (p : Process N) : StateM (Registry N) (Except Failure Unit) := do
  if (← get).processes.has id then
    return .error (.of .duplicateProcess s!"duplicate process id: {id}")
  modify fun r => { r with processes := r.processes.set id p }
  modify fun r => { r with order := r.order ++ [id] }
  if p.dependencies.length > 0 then
    modify fun r => { r with dependencies := r.dependencies.set id p.dependencies }
  return .ok ()

def setMeta (m : Option (MetaProcess N)) : StateM (Registry N) (Except Failure Unit) := do
  modify fun r => { r with metaProcess := m }
  return .ok ()

def call (r : Registry N) : Call N → Except Failure Unit × Registry N
  | .add id p => (addProcess id p).run r
  | .setMeta m => (setMeta m).run r

def after (r : Registry N) (calls : List (Call N)) : Registry N := calls.foldl (fun r c => (r.call c).2) r

def industry (r : Registry N) : Industry N where
  metaProcess := r.metaProcess
  processes := r.order.filterMap fun id => (r.processes.get? id).map (id, ·)
  defaultBounds := r.defaultBounds

/-- The containers agree. -/
structure Sound (r : Registry N) : Prop where
  once : r.order.Nodup
  listed : ∀ id, id ∈ r.order ↔ r.processes.has id = true
  dependencies : ∀ id ds, r.dependencies.get? id = some ds ↔
    ∃ p, r.processes.get? id = some p ∧ p.dependencies = ds ∧ ds ≠ []

end Registry

namespace Industry

def call (i : Industry N) : Call N → Except Failure Unit × Industry N
  | .add id p =>
    match i.addProcess id p with
    | .ok j => (.ok (), j)
    | .error e => (.error e, i)
  | .setMeta (some m) => (.ok (), i.setMeta m)
  | .setMeta none => (.ok (), { i with metaProcess := none })

def after (i : Industry N) (calls : List (Call N)) : Industry N := calls.foldl (fun i c => (i.call c).2) i

end Industry

namespace Call

def added? : Call N → Option (String × Process N)
  | .add id p => some (id, p)
  | .setMeta _ => none

def meta? : Call N → Option (Option (MetaProcess N))
  | .add _ _ => none
  | .setMeta m => some m

end Call

/-- The processes that were to be added, registered or not. -/
def added (calls : List (Call N)) : List (String × Process N) := calls.filterMap Call.added?

def lastMeta (calls : List (Call N)) : Option (MetaProcess N) := (calls.filterMap Call.meta?).getLast?.join

theorem added_concat_add (calls : List (Call N)) (id : String) (p : Process N) :
    added (calls ++ [.add id p]) = added calls ++ [(id, p)] := by
  simp [added, Call.added?]

theorem added_concat_setMeta (calls : List (Call N)) (m : Option (MetaProcess N)) :
    added (calls ++ [.setMeta m]) = added calls := by
  simp [added, Call.added?]

theorem lastMeta_concat_add (calls : List (Call N)) (id : String) (p : Process N) :
    lastMeta (calls ++ [.add id p]) = lastMeta calls := by
  simp [lastMeta, Call.meta?]

theorem lastMeta_concat_setMeta (calls : List (Call N)) (m : Option (MetaProcess N)) :
    lastMeta (calls ++ [.setMeta m]) = m := by
  simp [lastMeta, Call.meta?]

theorem mem_of_lastMeta {calls : List (Call N)} {m : MetaProcess N} (last : lastMeta calls = some m) :
    .setMeta (some m) ∈ calls := by
  rw [lastMeta, Option.join_eq_some_iff] at last
  obtain ⟨c, inside, same⟩ := List.mem_filterMap.mp (List.mem_of_getLast? last)
  cases c with
  | add => cases same
  | setMeta m' =>
    cases same
    exact inside

namespace Registry

variable {r : Registry N} {id : String} {p : Process N}

theorem Sound.empty (bounds : N × N) : Sound { defaultBounds := bounds } where
  once := .nil
  listed _ := by simp [Values.has, Values.get?]
  dependencies _ _ := by simp [Values.get?]

theorem call_add_of_registered (registered : r.processes.has id = true) :
    r.call (.add id p) = (.error (.of .duplicateProcess s!"duplicate process id: {id}"), r) := by
  simp [call, addProcess, registered]
  rfl

theorem call_add_of_new (new : r.processes.has id = false) :
    r.call (.add id p) = (.ok (), { r with
      processes := r.processes.set id p
      order := r.order ++ [id]
      dependencies := if p.dependencies = [] then r.dependencies else r.dependencies.set id p.dependencies }) := by
  cases needs : p.dependencies <;> simp [call, addProcess, new, needs] <;> rfl

theorem call_eq_error {c : Call N} {e : Failure} : (r.call c).1 = .error e ↔
    ∃ id p, c = .add id p ∧ r.processes.has id = true ∧
      e = .of .duplicateProcess s!"duplicate process id: {id}" := by
  cases c with
  | setMeta m => exact ⟨nofun, nofun⟩
  | add id p =>
    cases registered : r.processes.has id with
    | true =>
      rw [call_add_of_registered registered]
      constructor
      · rintro ⟨⟩
        exact ⟨id, p, rfl, registered, rfl⟩
      · rintro ⟨_, _, ⟨⟩, -, rfl⟩
        rfl
    | false =>
      rw [call_add_of_new registered]
      constructor
      · exact nofun
      · rintro ⟨_, _, ⟨⟩, taken, -⟩
        rw [registered] at taken
        cases taken

theorem call_unchanged {c : Call N} {e : Failure} (failed : (r.call c).1 = .error e) : (r.call c).2 = r := by
  obtain ⟨id, p, rfl, registered, -⟩ := call_eq_error.mp failed
  rw [call_add_of_registered registered]

theorem Sound.call (sound : r.Sound) (c : Call N) : (r.call c).2.Sound := by
  cases c with
  | setMeta m => exact ⟨sound.once, sound.listed, sound.dependencies⟩
  | add id p =>
    cases registered : r.processes.has id with
    | true =>
      rw [call_add_of_registered registered]
      exact sound
    | false =>
      have unlisted : id ∉ r.order := fun listed => by simp [(sound.listed id).mp listed] at registered
      rw [call_add_of_new registered]
      refine ⟨?_, fun x => ?_, fun x ds => ?_⟩
      · exact List.nodup_append.mpr ⟨sound.once, List.nodup_singleton id, by
          rintro x inside _ (⟨⟩ | ⟨_, ⟨⟩⟩) rfl
          exact unlisted inside⟩
      · by_cases same : x = id
        · simp [same, Values.has]
        · simp [same, sound.listed, Values.has]
      · by_cases same : x = id
        · subst same
          by_cases independent : p.dependencies = []
          · -- the id is new, so it has no dependencies from before
            have none : r.dependencies.get? x ≠ some ds := fun found => by
              obtain ⟨q, held, -⟩ := (sound.dependencies x ds).mp found
              simp [Values.has, held] at registered
            simp only [independent, if_true, none, Values.get?_set_self, Option.some.injEq, false_iff]
            rintro ⟨_, rfl, rfl, dependent⟩
            exact dependent independent
          · simp only [independent, if_false, Values.get?_set_self, Option.some.injEq, exists_eq_left']
            exact ⟨fun same => ⟨same, same ▸ independent⟩, And.left⟩
        · by_cases independent : p.dependencies = [] <;> simp [independent, same, sound.dependencies]

section Held

variable (sound : r.Sound)

include sound

theorem Sound.exists_process (listed : id ∈ r.order) : ∃ p, r.processes.get? id = some p :=
  Option.isSome_iff_exists.mp ((sound.listed id).mp listed)

theorem Sound.ids_industry : r.industry.ids = r.order := by
  have keep : ∀ id ∈ r.order, ((r.processes.get? id).map (id, ·)).map Prod.fst = some id := by
    intro id listed
    obtain ⟨p, held⟩ := sound.exists_process listed
    rw [held]
    rfl
  rw [Industry.ids, industry, List.map_filterMap, List.filterMap_congr keep, List.filterMap_some]

theorem Sound.process?_industry (id : String) : r.industry.process? id = r.processes.get? id := by
  refine Option.ext fun p => ?_
  rw [Industry.process?_eq_some_iff (sound.ids_industry ▸ sound.once), industry, List.mem_filterMap]
  constructor
  · rintro ⟨x, -, found⟩
    obtain ⟨q, held, same⟩ := Option.map_eq_some_iff.mp found
    cases same
    exact held
  · intro held
    exact ⟨id, (sound.listed id).mpr (Option.isSome_of_eq_some held), by rw [held]; rfl⟩

theorem Sound.dependencies_industry (id : String) :
    r.industry.dependencies id = (r.dependencies.get? id).getD [] := by
  rw [Industry.dependencies, sound.process?_industry]
  cases found : r.dependencies.get? id with
  | some ds =>
    obtain ⟨p, held, rfl, -⟩ := (sound.dependencies id ds).mp found
    rw [held]
    rfl
  | none =>
    cases held : r.processes.get? id with
    | none => rfl
    | some p =>
      -- dependencies would have an entry
      by_contra dependent
      have entry := (sound.dependencies id p.dependencies).mpr ⟨p, held, rfl, dependent⟩
      rw [found] at entry
      cases entry

theorem Sound.industry_call (c : Call N) : ((r.call c).1, (r.call c).2.industry) = r.industry.call c := by
  cases c with
  | setMeta m => cases m <;> rfl
  | add id p =>
    have known : (r.industry.process? id).isSome = r.processes.has id := by rw [sound.process?_industry, Values.has]
    rw [Industry.call, Industry.addProcess, known]
    cases registered : r.processes.has id with
    | true =>
      rw [call_add_of_registered registered]
      rfl
    | false =>
      have others : ∀ x ∈ r.order, ((r.processes.set id p).get? x).map (x, ·) = (r.processes.get? x).map (x, ·) := by
        intro x listed
        have other : x ≠ id := by
          rintro rfl
          simp [(sound.listed x).mp listed] at registered
        rw [Values.get?_set_of_ne _ _ other]
      rw [call_add_of_new registered]
      simp [industry, List.filterMap_congr others]

end Held

/-- What a registry holds after some calls. -/
structure Reached (bounds : N × N) (calls : List (Call N)) (r : Registry N) : Prop where
  sound : r.Sound
  order : r.order = ((added calls).map (·.1)).eraseDups
  processes : ∀ id, r.processes.get? id = (added calls).lookup id
  metaProcess : r.metaProcess = lastMeta calls
  defaultBounds : r.defaultBounds = bounds
  industry : r.industry = Industry.after { defaultBounds := bounds } calls

theorem Reached.mem_added_iff {bounds : N × N} {calls : List (Call N)} (reached : Reached bounds calls r) :
    id ∈ (added calls).map (·.1) ↔ r.processes.has id = true := by
  rw [← reached.sound.listed, reached.order, List.mem_eraseDups]

theorem Reached.call {bounds : N × N} {calls : List (Call N)} (reached : Reached bounds calls r) (c : Call N) :
    Reached bounds (calls ++ [c]) (r.call c).2 := by
  have industry : (r.call c).2.industry = Industry.after { defaultBounds := bounds } (calls ++ [c]) := by
    have held : (r.call c).2.industry = (r.industry.call c).2 := congrArg Prod.snd (reached.sound.industry_call c)
    rw [held, reached.industry, Industry.after, Industry.after, List.foldl_concat]
  have sound := reached.sound.call c
  cases c with
  | setMeta m =>
    refine ⟨sound, ?_, ?_, ?_, reached.defaultBounds, industry⟩
    · rw [added_concat_setMeta]
      exact reached.order
    · rw [added_concat_setMeta]
      exact reached.processes
    · rw [lastMeta_concat_setMeta]
      rfl
  | add id p =>
    cases registered : r.processes.has id with
    | true =>
      rw [call_add_of_registered registered] at sound industry ⊢
      refine ⟨sound, ?_, fun x => ?_, ?_, reached.defaultBounds, industry⟩
      · rw [added_concat_add, List.map_append, List.map_singleton, eraseDups_concat,
          if_pos (reached.mem_added_iff.mpr registered)]
        exact reached.order
      · rw [added_concat_add, List.lookup_append, reached.processes]
        by_cases same : x = id
        · -- the process under `id` is an earlier one
          obtain ⟨q, earlier⟩ := Option.isSome_iff_exists.mp registered
          rw [same, ← reached.processes, earlier]
          rfl
        · have other : (x == id) = false := beq_false_of_ne same
          rw [List.lookup_cons, other, List.lookup_nil]
          exact (Option.or_none).symm
      · rw [lastMeta_concat_add]
        exact reached.metaProcess
    | false =>
      rw [call_add_of_new registered] at sound industry ⊢
      refine ⟨sound, ?_, fun x => ?_, ?_, reached.defaultBounds, industry⟩
      · have new : id ∉ (added calls).map (·.1) := fun member => by
          simp [reached.mem_added_iff.mp member] at registered
        rw [added_concat_add, List.map_append, List.map_singleton, eraseDups_concat, if_neg new, ← reached.order]
      · rw [added_concat_add, List.lookup_append, ← reached.processes]
        by_cases same : x = id
        · have none : r.processes.get? id = none := by simpa [Values.has] using registered
          simp [same, none]
        · have other : (x == id) = false := beq_false_of_ne same
          rw [List.lookup_cons, other, List.lookup_nil, Option.or_none]
          exact Values.get?_set_of_ne _ _ same
      · rw [lastMeta_concat_add]
        exact reached.metaProcess

theorem reached_after (bounds : N × N) (calls : List (Call N)) :
    Reached bounds calls (after { defaultBounds := bounds } calls) := by
  induction calls using List.reverseRecOn with
  | nil => exact ⟨.empty bounds, rfl, fun _ => rfl, rfl, rfl, rfl⟩
  | append_singleton calls c ih =>
    rw [after, List.foldl_concat]
    exact ih.call c

end Registry

def MetaProcess.ranges (m : MetaProcess N) : List (Range N) :=
  m.outcome.range.toList ++ m.constants.filterMap (·.range) ++ m.inputs.filterMap (·.range) ++
    m.outputs.filterMap (·.range)

theorem MetaProcess.ranges_ordered [Quantity N] {record : IndustryRecord N} {m : MetaProcess N}
    (compiled : record.compile = .ok m) : ∀ range ∈ m.ranges, ∃ lo hi, range = [lo, hi] ∧ Quantity.lt hi lo = false := by
  obtain ⟨valid, -, same, outcome, -⟩ := IndustryRecord.compile_eq_ok.mp compiled
  obtain ⟨holds, -, outcomeHolds⟩ := IndustryRecord.validate_eq_ok.mp valid
  have bounds {range : Range N} {declared : List N} (held : range.Holds declared) :
      ∃ lo hi, range = [lo, hi] ∧ Quantity.lt hi lo = false := by
    obtain ⟨lo, hi, rfl, ordered, -⟩ := held
    exact ⟨lo, hi, rfl, ordered⟩
  rw [MetaProcess.ranges, same, outcome]
  intro range member
  simp only [List.append_assoc, List.mem_append, Option.mem_toList, List.mem_filterMap] at member
  rcases member with own | ⟨c, inside, own⟩ | ⟨input, inside, own⟩ | ⟨output, inside, own⟩
  · exact bounds (outcomeHolds range own)
  · exact bounds (holds.constants c inside range own)
  · exact bounds (holds.inputs input inside range own)
  · exact bounds (holds.outputs output inside range own)

namespace Registry

theorem containers_agree [Quantity N] (bounds : N × N) (calls : List (Call N)) :
    let r := after { defaultBounds := bounds } calls
    (r.order.Nodup ∧ (∀ id, id ∈ r.order ↔ r.processes.has id = true) ∧
      FirstOccurrences ((added calls).map (·.1)) r.order ∧
      ∀ id, r.processes.get? id = (added calls).lookup id) ∧
    (∀ id ds, r.dependencies.get? id = some ds ↔
      ∃ p, r.processes.get? id = some p ∧ p.dependencies = ds ∧ ds ≠ []) ∧
    (∀ c e, (r.call c).1 = .error e ↔ ∃ id p, c = .add id p ∧ id ∈ r.order ∧
      e = .of .duplicateProcess s!"duplicate process id: {id}") ∧
    (∀ c e, (r.call c).1 = .error e → (r.call c).2 = r) ∧
    ((lastMeta calls).bind (·.outcome.range) = none → r.industry.bounds = bounds) ∧
    ((∀ m, .setMeta (some m) ∈ calls → ∃ record : IndustryRecord N, record.compile = .ok m) →
      (∀ x y : N, Quantity.lt x y = false → Quantity.le y x = true) →
      ∀ m, lastMeta calls = some m →
        (∀ range ∈ m.ranges, ∃ lo hi, range = [lo, hi] ∧ Quantity.le lo hi = true) ∧
        ∀ range, m.outcome.range = some range → ∃ lo hi, range = [lo, hi] ∧ r.industry.bounds = (lo, hi)) ∧
    -- the running industry is the one that the containers hold, and gives the same answers
    r.industry = Industry.after { defaultBounds := bounds } calls ∧ r.industry.ids = r.order ∧
    (∀ id, r.industry.process? id = r.processes.get? id) ∧
    (∀ id, r.industry.dependencies id = (r.dependencies.get? id).getD []) ∧
    ∀ c, ((r.call c).1, (r.call c).2.industry) = r.industry.call c := by
  intro r
  have reached : Reached bounds calls r := reached_after bounds calls
  have sound := reached.sound
  have set : r.industry.metaProcess = lastMeta calls := reached.metaProcess
  refine ⟨⟨sound.once, sound.listed, ?_, reached.processes⟩, sound.dependencies, fun c e => ?_,
    fun c e => call_unchanged, fun none => ?_, fun compiled total m last => ⟨?_, ?_⟩, reached.industry,
    sound.ids_industry, sound.process?_industry, sound.dependencies_industry, sound.industry_call⟩
  · rw [reached.order]
    exact firstOccurrences_eraseDups _
  · rw [call_eq_error]
    simp only [sound.listed]
  · rw [Industry.bounds, set, none]
    exact reached.defaultBounds
  · obtain ⟨record, read⟩ := compiled m (mem_of_lastMeta last)
    intro range member
    obtain ⟨lo, hi, rfl, ordered⟩ := MetaProcess.ranges_ordered read range member
    exact ⟨lo, hi, rfl, total hi lo ordered⟩
  · obtain ⟨record, read⟩ := compiled m (mem_of_lastMeta last)
    intro range own
    have member : range ∈ m.ranges := by simp [MetaProcess.ranges, own]
    obtain ⟨lo, hi, rfl, -⟩ := MetaProcess.ranges_ordered read range member
    refine ⟨lo, hi, rfl, ?_⟩
    rw [Industry.bounds, set, last, Option.bind_some, own]

theorem containers_agree_steamworks :
    let calls := [.add "well" well, .setMeta (some steamworks), .add "boiler" boiler, .add "well" boiler]
    let r := after { defaultBounds := ((5 : ℚ), (1000 : ℚ)) } calls
    FirstOccurrences ["well", "boiler", "well"] r.order ∧ r.dependencies.get? "boiler" = some ["well"] ∧
      r.dependencies.get? "well" = none ∧ (r.call (.add "well" boiler)).2 = r ∧
      steamworksRecord.compile = .ok steamworks ∧ (∀ x y : ℚ, Quantity.lt x y = false → Quantity.le y x = true) ∧
      ∃ lo hi : ℚ, [1, 9] = [lo, hi] ∧ Quantity.le lo hi = true ∧ r.industry.bounds = (lo, hi) := by
  intro calls r
  have total : ∀ x y : ℚ, Quantity.lt x y = false → Quantity.le y x = true := by
    intro x y ordered
    simpa [Quantity.lt, Quantity.le] using ordered
  have compiled : ∀ m, .setMeta (some m) ∈ calls → ∃ record : IndustryRecord ℚ, record.compile = .ok m := by
    intro m member
    obtain rfl : m = steamworks := by simpa [calls] using member
    exact ⟨_, compile_steamworks⟩
  obtain ⟨⟨-, listed, occurrences, processes⟩, entries, fails, unchanged, -, ranges, -⟩ :=
    containers_agree ((5 : ℚ), (1000 : ℚ)) calls
  have dependent : r.dependencies.get? "boiler" = some ["well"] :=
    (entries _ _).mpr ⟨boiler, processes "boiler", by decide, by simp⟩
  have independent : r.dependencies.get? "well" = none := by
    refine Option.eq_none_iff_forall_ne_some.mpr fun ds found => ?_
    obtain ⟨p, held, same, some⟩ := (entries _ _).mp found
    obtain rfl : well = p := Option.some.inj ((processes "well").symm.trans held)
    exact some (same ▸ by decide)
  have refused : (r.call (.add "well" boiler)).1 = .error _ :=
    (fails _ _).mpr ⟨"well", boiler, rfl, (occurrences.mem _).mpr (by decide), rfl⟩
  obtain ⟨ordered, bounds⟩ := ranges compiled total steamworks rfl
  obtain ⟨lo, hi, same, held⟩ := bounds _ rfl
  obtain ⟨lo', hi', same', le⟩ := ordered [1, 9] (by simp [MetaProcess.ranges, steamworks])
  cases same
  cases same'
  exact ⟨occurrences, dependent, independent, unchanged _ _ refused, compile_steamworks, total, 1, 9, rfl, le, held⟩

end Registry

end Flowsheet
