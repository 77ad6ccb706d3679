import Flowsheet.Api.Basic
import Flowsheet.Proofs.Files

set_option autoImplicit false

namespace Flowsheet

namespace Files

variable {fs : Files} {root dir n : String} {p : List String}

/-- The directory is in the listing of a root. -/
def Lists (fs : Files) (root dir : String) : Prop := ∃ dirs, fs.industries root = .ok dirs ∧ dir ∈ dirs

theorem isDirectory_iff : fs.isDirectory dir = true ↔ ∃ p, fs.locate dir = .ok (p, .directory) := by
  unfold isDirectory
  split
  next p found => simp [found]
  next none =>
    simp only [Bool.false_eq_true, false_iff, not_exists]
    exact fun p found => none p found

theorem industries_of_locate (found : fs.locate root = .ok (p, .directory)) :
    ∃ dirs, fs.industries root = .ok dirs ∧
      ∀ n, fs.get? (p ++ [n]) = some .directory → Path.join [root, n] ∈ dirs := by
  unfold industries
  rw [found]
  refine ⟨_, rfl, fun n here => List.mem_filterMap.mpr ⟨(p ++ [n], .directory), ?_, by simp⟩⟩
  rw [get?, if_neg (by simp)] at here
  simp [below, List.mem_mergeSort, mem_of_lookup here]

theorem locate_of_industries {dirs : List String} (listed : fs.industries root = .ok dirs) :
    ∃ p, fs.locate root = .ok (p, .directory) := by
  unfold industries at listed
  split at listed
  next => cases listed
  next => cases listed
  next p found => exact ⟨p, found⟩

theorem locate_clean (named : root ≠ "") (proper : Path.Proper n)
    (found : fs.locate (Path.join [root, n]) = .ok (p, .directory)) :
    ∃ q, fs.locate (Path.clean root) = .ok (q, .directory) ∧ p = q ++ [n] := by
  obtain ⟨found, -⟩ := locate_eq_ok.mp found
  rw [place_join_eq named proper] at found
  obtain ⟨q, before, here, rfl⟩ := follow_concat_eq_ok.mp found
  refine ⟨q, locate_eq_ok.mpr ⟨place_eq_ok.mpr ⟨Path.clean_ne_empty root, ?_⟩, here⟩,
    step_name proper.notEmpty proper.notHere proper.notUp⟩
  rw [start, Path.isRooted_clean, ← start]
  by_cases empty : Path.order root = []
  -- What is left of such a path is one slash or one dot, which stays where it starts.
  next =>
    rw [empty] at before
    cases before
    rw [Path.clean_of_empty empty]
    cases rooted : Path.isRooted root with
    | true =>
      have top : fs.start root = [] := if_pos rooted
      rw [top]
      rfl
    | false =>
      have dot : Path.components "." = ["."] := by decide
      rw [if_neg Bool.false_ne_true, dot]
      exact follow_cons_eq_ok.mpr ⟨here, rfl⟩
  next => rw [Path.components_clean empty, follow_rooted, before]

end Files

theorem Compiler.load_congr {c : Compiler} {s s' : Site} {dir : String}
    (same : s.files.documents dir = s'.files.documents dir) : (c.load dir s).2 = (c.load dir s').2 := by
  have read : c.read s.files dir {} = c.read s'.files dir {} := by
    rw [read, documents, same]
    rfl
  unfold load
  rw [read]
  split <;> rfl

namespace Api

variable {fs : Files} {root name dir : String}

theorem isPlainName_iff : isPlainName name = true ↔ Path.Proper name ∧ '\\' ∉ name.toList := by
  simp only [isPlainName, Bool.and_eq_true, decide_eq_true_eq, Bool.not_eq_true', ne_eq, String.contains_char_eq,
    decide_eq_false_iff_not]
  constructor
  · rintro ⟨⟨⟨⟨notEmpty, notHere⟩, notUp⟩, slash⟩, plain⟩
    exact ⟨⟨notEmpty, notHere, notUp, slash⟩, plain⟩
  · rintro ⟨⟨notEmpty, notHere, notUp, slash⟩, plain⟩
    exact ⟨⟨⟨⟨notEmpty, notHere⟩, notUp⟩, slash⟩, plain⟩

theorem industryDirectory_eq_ok : industryDirectory fs root name = .ok dir ↔
    isPlainName name = true ∧ Path.join [root, name] = dir ∧ ∃ p, fs.locate dir = .ok (p, .directory) := by
  unfold industryDirectory
  cases isPlainName name with
  | false => simp
  | true =>
    simp only [Bool.not_true, Bool.false_eq_true, if_false, true_and]
    split
    next here =>
      rw [Files.isDirectory_iff] at here
      constructor
      · rintro ⟨rfl⟩
        exact ⟨rfl, here⟩
      · rintro ⟨rfl, -⟩
        rfl
    next other =>
      rw [Files.isDirectory_iff] at other
      constructor
      · nofun
      · rintro ⟨rfl, here⟩
        exact absurd here other

theorem industryDirectory_eq_error {p : Problem} (failed : industryDirectory fs root name = .error p) :
    p = if isPlainName name then .unknownIndustry else .invalidName := by
  unfold industryDirectory at failed
  cases plain : isPlainName name with
  | false =>
    rw [plain] at failed
    exact (Except.error.inj failed).symm
  | true =>
    simp only [plain, Bool.not_true, Bool.false_eq_true, if_false] at failed
    split at failed
    next => cases failed
    next => exact (Except.error.inj failed).symm

theorem lists_industryDirectory (named : root ≠ "") (found : industryDirectory fs root name = .ok dir) :
    fs.Lists (Path.clean root) dir ∧ ∀ dirs, fs.industries root = .ok dirs → dir ∈ dirs := by
  obtain ⟨plain, rfl, p, here⟩ := industryDirectory_eq_ok.mp found
  have proper := (isPlainName_iff.mp plain).1
  constructor
  · obtain ⟨q, top, rfl⟩ := Files.locate_clean named proper here
    obtain ⟨dirs, listed, inside⟩ := Files.industries_of_locate top
    refine ⟨dirs, listed, ?_⟩
    rw [← Path.join_clean named proper]
    exact inside name (Files.locate_eq_ok.mp here).2
  -- Where the sources path leads anywhere as it stands, it leads where it leads once it is in order.
  · intro dirs listed
    obtain ⟨q, top⟩ := Files.locate_of_industries listed
    obtain ⟨dirs', listed', inside⟩ := Files.industries_of_locate top
    obtain rfl := Except.ok.inj (listed.symm.trans listed')
    obtain ⟨found, held⟩ := Files.locate_eq_ok.mp here
    obtain rfl := Except.ok.inj (found.symm.trans (Files.place_join top proper))
    exact inside name held

theorem industryDirectory_of_lists (sound : fs.Sound) (named : root ≠ "") (plain : isPlainName name = true)
    (listed : fs.Lists (Path.clean root) dir) (based : Path.base dir = name) :
    industryDirectory fs root name = .ok dir := by
  obtain ⟨dirs, listed, inside⟩ := listed
  refine industryDirectory_eq_ok.mpr ⟨plain, ?_, Files.locate_of_mem_industries sound listed dir inside⟩
  obtain ⟨_, n, _, proper, _, rfl⟩ := Files.exists_of_mem_industries sound listed dir inside
  rw [Path.base_child (Path.clean_ne_empty root) proper] at based
  rw [← based, Path.join_clean named proper]

inductive Touches {σ : Type} (c : Compiler) (enqueue : Option (Enqueue σ)) (s : Site) (q : σ) : Site → σ → Prop
  | nothing : Touches c enqueue s q s q
  | load {dir : String} (listed : s.files.Lists (Path.clean c.settings.sourcesPath) dir) :
    Touches c enqueue s q (c.load dir s).1 q
  | enqueue {dir : String} {take : Enqueue σ} (taken : enqueue = some take)
      (listed : s.files.Lists (Path.clean c.settings.sourcesPath) dir) :
    Touches c enqueue s q s (take q { industryDir := dir, trigger := Payload.manual }).1

section Requests

variable {σ : Type} {c : Compiler} {enqueue : Option (Enqueue σ)} {s s' : Site} {q : σ}

theorem touches_load (named : c.settings.sourcesPath ≠ "") (name : String) :
    Touches c enqueue s q (load c name s).1 q := by
  unfold load
  split
  next => exact .nothing
  next dir found => exact .load (lists_industryDirectory named found).1

theorem touches_serve (named : c.settings.sourcesPath ≠ "") (r : Request) (resource : Resource) :
    Touches c enqueue s q (serve c enqueue r s q resource).1 (serve c enqueue r s q resource).2.1 := by
  cases resource with
  | list => exact .nothing
  | detail name => exact touches_load named name
  | graph name => exact touches_load named name
  | evaluate name =>
    rw [serve]
    split
    next => exact .nothing
    next => exact touches_load named name
  | compile name =>
    rw [serve.eq_def]
    dsimp only
    split
    next => exact .nothing
    next take =>
      unfold compile
      split
      next => exact .nothing
      next dir found =>
        have outcome : Touches c (some take) s q s (take q { industryDir := dir, trigger := Payload.manual }).1 :=
          .enqueue rfl (lists_industryDirectory named found).1
        split
        next taken => simpa [taken] using outcome
        next refused => simpa [refused] using outcome

theorem touches_answer (named : c.settings.sourcesPath ≠ "") (r : Request) :
    Touches c enqueue s q (answer c enqueue r s q).1 (answer c enqueue r s q).2.1 := by
  unfold answer
  split
  next => exact .nothing
  next resource _ =>
    have served : Touches c enqueue s q (serve c enqueue r s q resource).1 (serve c enqueue r s q resource).2.1 :=
      touches_serve named r resource
    split
    next same => simpa [same] using served
    next same => simpa [same] using served

/-- Two trees list the same sources, with the same documents in the directories listed. -/
structure SameSources (root : String) (fs fs' : Files) : Prop where
  followed : fs.industries root = fs'.industries root
  ordered : fs.industries (Path.clean root) = fs'.industries (Path.clean root)
  documents : ∀ dir, fs.Lists (Path.clean root) dir → fs.documents dir = fs'.documents dir

theorem industryDirectory_congr {fs' : Files} (named : root ≠ "") (sound : fs.Sound) (sound' : fs'.Sound)
    (same : SameSources root fs fs') : industryDirectory fs root name = industryDirectory fs' root name := by
  have agree {fs fs' : Files} (sound' : fs'.Sound) (same : fs.industries (Path.clean root) = fs'.industries (Path.clean root))
      {dir : String} (found : industryDirectory fs root name = .ok dir) : industryDirectory fs' root name = .ok dir := by
    obtain ⟨plain, child, -⟩ := industryDirectory_eq_ok.mp found
    have proper := (isPlainName_iff.mp plain).1
    refine industryDirectory_of_lists sound' named plain ?_ (child ▸ Path.base_child named proper)
    rw [Files.Lists, ← same]
    exact (lists_industryDirectory named found).1
  cases found : industryDirectory fs root name with
  | ok dir => exact (agree sound' same.ordered found).symm
  | error p =>
    cases found' : industryDirectory fs' root name with
    | ok dir => exact absurd (agree sound same.ordered.symm found') (by simp [found])
    | error p' => rw [industryDirectory_eq_error found, industryDirectory_eq_error found']

theorem load_congr (named : c.settings.sourcesPath ≠ "") (sound : s.files.Sound) (sound' : s'.files.Sound)
    (same : SameSources c.settings.sourcesPath s.files s'.files) (name : String) :
    (load c name s).2 = (load c name s').2 := by
  unfold load
  rw [industryDirectory_congr named sound sound' same]
  cases found : industryDirectory s'.files c.settings.sourcesPath name with
  | error p => rfl
  | ok dir =>
    have listed := (lists_industryDirectory named found).1
    rw [Files.Lists, ← same.ordered] at listed
    dsimp only
    rw [Compiler.load_congr (same.documents dir listed)]

theorem answer_congr (named : c.settings.sourcesPath ≠ "") (sound : s.files.Sound) (sound' : s'.files.Sound)
    (same : SameSources c.settings.sourcesPath s.files s'.files) (r : Request) :
    (answer c enqueue r s q).2 = (answer c enqueue r s' q).2 := by
  have loaded := load_congr named sound sound' same
  have serves (resource : Resource) : (serve c enqueue r s q resource).2 = (serve c enqueue r s' q resource).2 := by
    cases resource with
    | list => simp only [serve, list, same.followed]
    | detail name => simp only [serve, loaded]
    | graph name => simp only [serve, loaded]
    | evaluate name =>
      rw [serve, serve]
      split
      next => rfl
      next => simp only [loaded]
    | compile name =>
      cases enqueue with
      | none => rfl
      | some take => simp only [serve, compile, industryDirectory_congr named sound sound' same]
  unfold answer
  split
  next => rfl
  next resource _ =>
    have served := serves resource
    generalize serve c enqueue r s q resource = a, serve c enqueue r s' q resource = b at served
    obtain ⟨s₁, q₁, a⟩ := a
    obtain ⟨s₂, q₂, b⟩ := b
    cases served
    cases a <;> rfl

end Requests

/-- A name leads to a directory that the sources path lists once it is in order, and that it lists as it
stands if it leads anywhere. No request has a directory loaded or queued but these, and no answer
depends on others. -/
theorem requests_stay_below_sources {c : Compiler} (named : c.settings.sourcesPath ≠ "") (s : Site) :
    (∀ name, isPlainName name = true → Path.base (Path.join [c.settings.sourcesPath, name]) = name ∧
      Path.join [Path.join [c.settings.sourcesPath, name], ".."] = Path.clean c.settings.sourcesPath ∧
      Path.join [Path.clean c.settings.sourcesPath, name] = Path.join [c.settings.sourcesPath, name]) ∧
    (∀ name dir, industryDirectory s.files c.settings.sourcesPath name = .ok dir →
      isPlainName name = true ∧ dir = Path.join [c.settings.sourcesPath, name] ∧
      s.files.Lists (Path.clean c.settings.sourcesPath) dir ∧
      ∀ dirs, s.files.industries c.settings.sourcesPath = .ok dirs → dir ∈ dirs) ∧
    (s.files.Sound → ∀ name dir, isPlainName name = true → Path.base dir = name →
      s.files.Lists (Path.clean c.settings.sourcesPath) dir →
      industryDirectory s.files c.settings.sourcesPath name = .ok dir) ∧
    (∀ (σ : Type) (enqueue : Option (Enqueue σ)) (r : Request) (q : σ),
      Touches c enqueue s q (answer c enqueue r s q).1 (answer c enqueue r s q).2.1) ∧
    ∀ s' : Site, s.files.Sound → s'.files.Sound → SameSources c.settings.sourcesPath s.files s'.files →
      ∀ (σ : Type) (enqueue : Option (Enqueue σ)) (r : Request) (q : σ),
        (answer c enqueue r s q).2 = (answer c enqueue r s' q).2 := by
  refine ⟨fun name plain => ?_, fun name dir found => ?_, fun sound name dir plain based listed => ?_,
    fun σ enqueue r q => touches_answer named r, fun s' sound sound' same σ enqueue r q => ?_⟩
  · have proper := (isPlainName_iff.mp plain).1
    exact ⟨Path.base_child named proper, Path.parent_child named proper, Path.join_clean named proper⟩
  · obtain ⟨plain, child, -⟩ := industryDirectory_eq_ok.mp found
    exact ⟨plain, child.symm, lists_industryDirectory named found⟩
  · exact industryDirectory_of_lists sound named plain listed based
  · exact answer_congr named sound sound' same r

def compilerOf (sources : String) : Compiler where
  settings := { sourcesPath := sources }
  templates := default

def works : Site where
  files := {
    entries := [(["srv"], .directory), (["srv", "Sources"], .directory), (["srv", "Sources", "Cement"], .directory)]
    working := ["srv"] }

def keepAll : Enqueue (List Payload) := fun ps p => (ps ++ [p], .ok ())

def ordering : Request where
  method := "POST"
  path := "/api/v1/industries/Cement/compile"

theorem plain_cement : isPlainName "Cement" = true := isPlainName_iff.mpr (by decide)

theorem found_cement (root dir : String) (child : Path.join [root, "Cement"] = dir)
    (here : works.files.locate dir = .ok (["srv", "Sources", "Cement"], .directory)) :
    industryDirectory works.files root "Cement" = .ok dir :=
  industryDirectory_eq_ok.mpr ⟨plain_cement, child, _, here⟩

theorem requests_stay_below_sources_srv :
    ((compilerOf "./Sources/").settings.sourcesPath ≠ "" ∧
      industryDirectory works.files "./Sources/" "Cement" = .ok "Sources/Cement" ∧
      works.files.Lists (Path.clean "./Sources/") "Sources/Cement") ∧
    ((compilerOf "/srv/Sources").settings.sourcesPath ≠ "" ∧
      industryDirectory works.files "/srv/Sources" "Cement" = .ok "/srv/Sources/Cement" ∧
      works.files.Lists (Path.clean "/srv/Sources") "/srv/Sources/Cement") ∧
    (compilerOf "../srv/Sources").settings.sourcesPath ≠ "" ∧
      industryDirectory works.files "../srv/Sources" "Cement" = .ok "../srv/Sources/Cement" ∧
      works.files.Lists (Path.clean "../srv/Sources") "../srv/Sources/Cement" := by
  have dotted := found_cement "./Sources/" "Sources/Cement" (by decide +kernel) rfl
  have rooted := found_cement "/srv/Sources" "/srv/Sources/Cement" (by decide +kernel) rfl
  have upward := found_cement "../srv/Sources" "../srv/Sources/Cement" (by decide +kernel) rfl
  refine ⟨⟨by decide, dotted, ?_⟩, ⟨by decide, rooted, ?_⟩, by decide, upward, ?_⟩
  · exact ((requests_stay_below_sources (c := compilerOf "./Sources/") (by decide) works).2.1 _ _ dotted).2.2.1
  · exact ((requests_stay_below_sources (c := compilerOf "/srv/Sources") (by decide) works).2.1 _ _ rooted).2.2.1
  · exact ((requests_stay_below_sources (c := compilerOf "../srv/Sources") (by decide) works).2.1 _ _ upward).2.2.1

theorem unlisted_directory_queued :
    industryDirectory works.files "gone/../Sources" "Cement" = .ok "Sources/Cement" ∧
    works.files.industries "gone/../Sources" = .error (FileError.notFound.failure "open" "gone/../Sources") ∧
    (serve (compilerOf "gone/../Sources") (some keepAll) ordering works [] (.compile "Cement")).2.1 =
      [{ industryDir := "Sources/Cement", trigger := Payload.manual }] := by
  have found := found_cement "gone/../Sources" "Sources/Cement" (by decide +kernel) rfl
  refine ⟨found, rfl, ?_⟩
  simp only [serve, compile]
  rw [show (compilerOf "gone/../Sources").settings.sourcesPath = "gone/../Sources" from rfl, found]
  rfl

end Api

end Flowsheet
