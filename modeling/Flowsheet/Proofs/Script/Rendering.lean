import Flowsheet.Proofs.Script.Exposed

set_option autoImplicit false

namespace Flowsheet

section Blocks

variable {α : Type} (sep : List α)

theorem intercalate_append {xs ys : List (List α)} (some : xs ≠ []) (more : ys ≠ []) :
    sep.intercalate (xs ++ ys) = sep.intercalate xs ++ sep ++ sep.intercalate ys := by
  induction xs with
  | nil => exact absurd rfl some
  | cons x xs ih =>
    by_cases last : xs = []
    · subst last
      rw [List.singleton_append, List.intercalate_cons_of_ne_nil more, List.intercalate_singleton]
    · have beyond : xs ++ ys ≠ [] := by simp [last]
      rw [List.cons_append, List.intercalate_cons_of_ne_nil beyond, ih last, List.intercalate_cons_of_ne_nil last]
      simp only [List.append_assoc]

theorem intercalate_blocks (blocks : List (List (List α))) :
    sep.intercalate ((blocks.filter (!·.isEmpty)).map sep.intercalate) = sep.intercalate blocks.flatten := by
  induction blocks with
  | nil => rfl
  | cons block blocks ih =>
    by_cases none : block = []
    · simpa [none] using ih
    · rw [List.filter_cons_of_pos (by simpa using none), List.map_cons, List.flatten_cons]
      by_cases last : blocks.flatten = []
      · have empty : blocks.filter (!·.isEmpty) = [] := by
          simpa [List.filter_eq_nil_iff] using last
        simp [empty, last]
      · have more : (blocks.filter (!·.isEmpty)).map sep.intercalate ≠ [] := by
          simpa [List.filter_eq_nil_iff] using last
        rw [List.intercalate_cons_of_ne_nil more, ih, intercalate_append sep none last]

end Blocks

theorem mapM_flatten_eq_ok {α β ε : Type} {f : α → Except ε β} {parts : List (List α)}
    {blocks : List (List β)} (done : parts.mapM (·.mapM f) = .ok blocks) :
    parts.flatten.mapM f = .ok blocks.flatten := by
  have each := mapM_eq_ok.mp done
  clear done
  induction each with
  | nil => rfl
  | cons first _ ih => rw [List.flatten_cons, List.mapM_append, first, ih]; rfl

variable {N : Type} [Quantity N] {answers : Template.Answers}

def getterText (getter : Template) (answers : Template.Answers) (l : Labels) : Except Failure (List UInt8) :=
  getter.fill answers ["getter", l.name] (written [("name", l.name), ("description", l.description)])

def onLines : List (List UInt8) → List UInt8 := (Text.bytes "\n").intercalate

theorem gettersText_eq_ok {getter : Template} {items : List Labels} {text : List UInt8} :
    gettersText getter answers items = .ok text ↔
      ∃ texts, items.mapM (getterText getter answers) = .ok texts ∧ onLines texts = text := by
  simp only [gettersText, bind_eq_ok]
  exact exists_congr fun texts => and_congr_right fun _ => ⟨Except.ok.inj, congrArg _⟩

namespace Industry

theorem processTexts_eq_ok {ts : Templates} {p : Process N} {new : List Labels}
    {id : String} {texts : List UInt8 × List (List UInt8)} (rendered : processTexts ts answers id p new = .ok texts) :
    ∃ method block, p.methodText ts.process answers id = .ok method ∧
      new.mapM (getterText ts.getter answers) = .ok block ∧
        texts = (dropLineEnds method, ([block].filter (!·.isEmpty)).map onLines) := by
  simp only [processTexts, bind_eq_ok] at rendered
  obtain ⟨method, first, rest⟩ := rendered
  cases new with
  | nil =>
    cases rest
    exact ⟨method, [], first, rfl, rfl⟩
  | cons l new =>
    simp only [List.isEmpty_cons, Bool.false_eq_true, if_false, bind_eq_ok, mapError_eq_ok,
      gettersText_eq_ok] at rest
    obtain ⟨_, ⟨block, filled, rfl⟩, last⟩ := rest
    cases last
    have some : block ≠ [] := by
      rintro rfl
      cases mapM_eq_ok.mp filled
    exact ⟨method, block, first, filled, by simp [some]⟩

theorem mapM_processTexts_eq_ok {ts : Templates} {zs : List ((String × Process N) × List Labels)}
    {texts : List (List UInt8 × List (List UInt8))}
    (rendered : zs.mapM (fun z => processTexts ts answers z.1.1 z.1.2 z.2) = .ok texts) :
    ∃ methods blocks, (zs.map (·.1)).mapM (fun q => q.2.methodText ts.process answers q.1) = .ok methods ∧
      (zs.map (·.2)).mapM (·.mapM (getterText ts.getter answers)) = .ok blocks ∧
        texts.map (·.1) = methods.map dropLineEnds ∧
          texts.flatMap (·.2) = (blocks.filter (!·.isEmpty)).map onLines := by
  have each := mapM_eq_ok.mp rendered
  clear rendered
  induction each with
  | nil => exact ⟨[], [], rfl, rfl, rfl, rfl⟩
  | cons first _ ih =>
    obtain ⟨methods, blocks, named, filled, same, joined⟩ := ih
    obtain ⟨method, block, here, there, rfl⟩ := processTexts_eq_ok first
    refine ⟨method :: methods, block :: blocks, ?_, ?_, by simp [same], ?_⟩
    · rw [List.map_cons, List.mapM_cons, here, named]; rfl
    · rw [List.map_cons, List.mapM_cons, there, filled]; rfl
    · rw [List.flatMap_cons, joined, ← List.map_append, ← List.filter_append, List.singleton_append]

theorem length_freshParts (seen : List String) (parts : List (List Labels)) :
    (freshParts seen parts).length = parts.length := by
  induction parts generalizing seen with
  | nil => rfl
  | cons part parts ih => rw [freshParts, List.length_cons, List.length_cons, ih]

/-- What the places of an industry template are filled with. -/
structure Rendered (ts : Templates) (answers : Template.Answers) (m : MetaProcess N) (ps : List (String × Process N))
    (values : List (String × List UInt8)) : Prop where
  constants : values.lookup "constants" = some (Text.bytes
    ("\n\n".intercalate ((m.constantsText :: ps.map fun (_, p) => p.constantsText).filter (· ≠ ""))))
  constructor : values.lookup "constructor_method" = some (Text.bytes (Statement.body (constructor m ps)))
  methods : ∃ texts, List.Forall₂
      (fun q text => ts.process.fill answers ["process", q.1] (written q.2.methodValues) = .ok text) ps texts ∧
    values.lookup "process_methods" = some ((Text.bytes "\n\n").intercalate (texts.map dropLineEnds))
  getters : ∃ text, gettersText ts.getter answers (getters m ps) = .ok text ∧
    values.lookup "get_methods" = some (dropLineEnds text)
  units : values.lookup "units" = some (Text.bytes (unitsText (unitEntries m ps)))

theorem script_eq_ok {i : Industry N} {m : MetaProcess N} {queue : List String} {ts : Templates}
    {text : List UInt8} (set : i.metaProcess = some m) (ordered : i.executionQueue = .ok queue)
    (scripted : i.script ts answers = .ok text) :
    ∃ values, Rendered ts answers m (i.queued queue) values ∧
      ts.industry.fill answers ["industry"] values = .ok text := by
  simp only [script, requireMeta, set, ordered, bind_eq_ok, mapError_eq_ok, Except.ok.injEq,
    exists_eq_left'] at scripted
  obtain ⟨own, first, texts, rest, filled⟩ := scripted
  obtain ⟨ownTexts, ownFilled, rfl⟩ := gettersText_eq_ok.mp first
  obtain ⟨methods, blocks, named, blocked, same, joined⟩ := mapM_processTexts_eq_ok rest
  have lengths :=
    length_freshParts ((fresh [] m.exposed).map (·.name)) ((i.queued queue).map fun q => q.2.exposed)
  rw [List.map_fst_zip (by simp [lengths])] at named
  rw [List.map_snd_zip (by simp [lengths])] at blocked
  -- the outcome always has a getter
  have some : ownTexts ≠ [] := by
    rintro rfl
    cases mapM_eq_ok.mp ownFilled
  have whole : onLines (((ownTexts :: blocks).filter (!·.isEmpty)).map onLines) =
      onLines (ownTexts :: blocks).flatten := intercalate_blocks _ _
  rw [List.filter_cons_of_pos (by simpa using some), List.map_cons, List.flatten_cons, ← joined] at whole
  have filledAll : gettersText ts.getter answers (getters m (i.queued queue)) =
      .ok (onLines (ownTexts ++ blocks.flatten)) := by
    refine gettersText_eq_ok.mpr ⟨_, ?_, rfl⟩
    rw [getters, List.mapM_append, ownFilled, mapM_flatten_eq_ok blocked]
    rfl
  have filledMethods := (mapM_eq_ok.mp named).imp fun _ _ => mapError_eq_ok.mp
  refine ⟨_, ⟨rfl, rfl, ⟨methods, filledMethods, ?_⟩, ⟨_, filledAll, ?_⟩, rfl⟩, filled⟩
  · rw [← same]; rfl
  · rw [← whole]; rfl

theorem units_of_getters {i : Industry N} {m : MetaProcess N} {queue : List String} {ts : Templates}
    {text : List UInt8} (built : Built i) (set : i.metaProcess = some m)
    (ordered : i.executionQueue = .ok queue) (scripted : i.script ts answers = .ok text) :
    (∃ values, Rendered ts answers m (i.queued queue) values ∧
      ts.industry.fill answers ["industry"] values = .ok text) ∧
      ((getters m (i.queued queue)).map (·.name)).Nodup ∧
        (∀ l, l ∈ getters m (i.queued queue) ↔
          (exposed m (i.queued queue)).find? (·.name == l.name) = some l) ∧
          fresh [] (unitEntries m (i.queued queue)) = getters m (i.queued queue) ∧
            (m.outcome.name ∉ m.operations.map (·.name) →
              unitEntries m (i.queued queue) = getters m (i.queued queue)) ∧
              (m.outcome.name ∈ m.operations.map (·.name) →
                ¬ ((unitEntries m (i.queued queue)).map (·.name)).Nodup) := by
  have distinct : m.Distinct :=
    built.forall_meta (fun compiled => (IndustryRecord.names_of_compile compiled).2.2) m set
  refine ⟨script_eq_ok set ordered scripted, ?_, fun l => ?_, fresh_unitEntries _ _, fun apart => ?_,
    fun shared nodup => ?_⟩
  · rw [getters_eq]
    exact (names_fresh _ _).1
  · rw [getters_eq, mem_fresh]
    exact and_iff_right List.not_mem_nil
  · exact unitEntries_eq_getters _ _ ((names_exposed_nodup distinct).mpr apart)
  · exact (names_exposed_nodup distinct).mp ((nodup_unitEntries _ _).mp nodup) shared

def place (x : String) : Template := ⟨"text", [], [x], .plain, [.action ⟨[], false, [[.field [x]]]⟩], 100⟩

def unitsOnly : Templates := ⟨place "units", place "name", place "name"⟩

theorem units_of_getters_plant :
    let i := plant [("p", relay "first" "y" 3), ("q", relay "second" "y" 3)]
    (∃ text, i.script unitsOnly .plain = .ok text) ∧
      unitEntries driver (i.queued ["p", "q"]) = getters driver (i.queued ["p", "q"]) ∧
        ((getters driver (i.queued ["p", "q"])).map (·.name)).Nodup := by
  intro i
  have built : Built i := built_plant (by decide) (by simp [compile_relay])
  have ordered : i.executionQueue = .ok ["p", "q"] := by cbv
  obtain ⟨text, scripted⟩ := exists_ok (x := i.script unitsOnly .plain) (by decide +kernel)
  obtain ⟨-, distinct, -, -, apart, -⟩ := units_of_getters built rfl ordered scripted
  exact ⟨⟨text, scripted⟩, apart (by decide +kernel), distinct⟩

def weighedRecord : IndustryRecord ℚ where
  name := "Plant"
  outcome := { name := "goal", units := "t" }
  outputs := [{ name := "goal", units := "kg", operation := "goal*1000", args := [⟨"goal", .outcome, ""⟩] }]

def weighed : MetaProcess ℚ where
  toProcessRecord := weighedRecord.toProcessRecord
  outcome := weighedRecord.outcome
  demands := []
  closing := [⟨{ name := "goal", units := "kg" }, .binary .mul (.name "goal") (.number 1000),
    [⟨"goal", .outcome, ""⟩], []⟩]

theorem units_of_outcome_twice :
    let i : Industry ℚ := ⟨some weighed, [], (0, 100)⟩
    Built i ∧ i.check = .ok () ∧
      i.script unitsOnly .plain = .ok (Text.bytes "\x7b\n    \"goal\": \"t\",\n    \"goal\": \"kg\"\n\x7d") ∧
        (getters weighed (i.queued [])).map (·.name) = ["goal"] ∧
          (unitEntries weighed (i.queued [])).map (fun l => (l.name, l.units)) =
            [("goal", "t"), ("goal", "kg")] := by
  intro i
  have driven : weighedRecord.compile = .ok weighed := by with_unfolding_all rfl
  have built : Built i := built_of_compile (by decide) (by simp [i]) driven rfl
  have scripted : (i.script unitsOnly .plain).toOption =
      some (Text.bytes "\x7b\n    \"goal\": \"t\",\n    \"goal\": \"kg\"\n\x7d") := by decide +kernel
  refine ⟨built, by with_unfolding_all rfl, ?_, by decide +kernel, by decide +kernel⟩
  obtain ⟨text, made⟩ := exists_ok (x := i.script unitsOnly .plain) (by rw [scripted]; rfl)
  rw [made] at scripted ⊢
  rw [Option.some.inj scripted]

end Industry

end Flowsheet
