import Flowsheet.Proofs.Compiler.Inputs
import Flowsheet.Proofs.Decimal.Text
import Flowsheet.Proofs.Files

set_option autoImplicit false

namespace Flowsheet

/-- Results with the same industry, script and number of processes. -/
structure Compiled.SameBuild (r r' : Compiled) : Prop where
  industry : r.industry = r'.industry
  script : r.script = r'.script
  processes : r.processes = r'.processes

namespace Compiler

variable {c c' : Compiler} {dir dir' : String}

def spelled (s : CompilerSettings) : String :=
  s!"{Quantity.general s.minUnits}:{Quantity.general s.maxUnits}:{s.verify}"

def parts (c : Compiler) (docs : List (String × Document)) : List (List UInt8) :=
  docs.flatMap (fun p => [Text.bytes p.1, p.2.data]) ++
    (c.templates.sources ++ [Text.bytes (spelled c.settings)])

theorem flatten_parts (docs : List (String × Document)) : (c.parts docs).flatten = c.preimage docs := by
  have documents : (docs.flatMap fun p => [Text.bytes p.1, p.2.data]).flatten =
      docs.flatMap fun p => Text.bytes p.1 ++ p.2.data := by
    induction docs with
    | nil => rfl
    | cons p docs ih => simp [ih]
  rw [parts, List.flatten_append, List.flatten_append, documents, ← List.append_assoc, List.flatten_singleton]
  rfl

theorem parts_eq (docs : List (String × Document)) :
    c.parts docs = (docs.map fun p => (p.1, p.2.data)).flatMap (fun p => [Text.bytes p.1, p.2]) ++
      (c.templates.sources ++ [Text.bytes (spelled c.settings)]) := by
  rw [parts, List.flatMap_map]

theorem eq_of_colon {xs xs' rest rest' : List Char} (plain : ':' ∉ xs) (plain' : ':' ∉ xs')
    (same : xs ++ ':' :: rest = xs' ++ ':' :: rest') : xs = xs' ∧ rest = rest' := by
  have front {ys after : List Char} (plain : ':' ∉ ys) :
      (ys ++ ':' :: after).takeWhile (· != ':') = ys := by
    have inside : ∀ y ∈ ys, (y != ':') = true :=
      fun y inside => bne_iff_ne.mpr fun equal : y = ':' => plain (equal ▸ inside)
    rw [List.takeWhile_append_of_pos inside]
    simp
  have fronts := congrArg (List.takeWhile (· != ':')) same
  rw [front plain, front plain'] at fronts
  subst fronts
  exact ⟨rfl, by simpa using same⟩

theorem spelled_eq {s s' : CompilerSettings} (same : spelled s = spelled s') :
    s.minUnits = s'.minUnits ∧ s.maxUnits = s'.maxUnits ∧ s.verify = s'.verify := by
  have split (s : CompilerSettings) : (spelled s).toList = (Decimal.Layout.general.text s.minUnits).toList ++
      ':' :: ((Decimal.Layout.general.text s.maxUnits).toList ++ ':' :: (toString s.verify).toList) := by
    simp only [spelled, String.toList_append, List.append_assoc]
    rfl
  have lists := congrArg String.toList same
  rw [split, split] at lists
  have plain := Decimal.Layout.colon_notMem_text .general
  obtain ⟨least, lists⟩ := eq_of_colon (plain _) (plain _) lists
  obtain ⟨most, verify⟩ := eq_of_colon (plain _) (plain _) lists
  refine ⟨Decimal.Layout.text_injective _ (String.toList_inj.mp least),
    Decimal.Layout.text_injective _ (String.toList_inj.mp most), ?_⟩
  revert verify
  cases s.verify <;> cases s'.verify <;> decide

theorem matched_of_flatMap {docs docs' : List (String × Document)}
    (same : (docs.flatMap fun p => [Text.bytes p.1, p.2.data]) = docs'.flatMap fun p => [Text.bytes p.1, p.2.data]) :
    List.Forall₂ (fun p p' => p.1 = p'.1 ∧ p.2.data = p'.2.data) docs docs' := by
  induction docs generalizing docs' with
  | nil =>
    cases docs' with
    | nil => exact .nil
    | cons p' docs' => simp at same
  | cons p docs ih =>
    cases docs' with
    | nil => simp at same
    | cons p' docs' =>
      simp only [List.flatMap_cons, List.cons_append, List.nil_append, List.cons.injEq] at same
      obtain ⟨path, data, rest⟩ := same
      exact .cons ⟨Text.bytes_injective path, data⟩ (ih rest)

theorem inputs_of_parts {docs docs' : List (String × Document)} (same : c.parts docs = c'.parts docs') :
    List.Forall₂ (fun p p' => p.1 = p'.1 ∧ p.2.data = p'.2.data) docs docs' ∧
      c.templates.sources = c'.templates.sources ∧ spelled c.settings = spelled c'.settings := by
  -- three templates and the settings come last
  have last (c : Compiler) :
      (c.templates.sources ++ [Text.bytes (spelled c.settings)]).length = 4 := rfl
  obtain ⟨front, back⟩ := List.append_inj' same ((last c).trans (last c').symm)
  obtain ⟨sources, settings⟩ := List.append_inj back rfl
  exact ⟨matched_of_flatMap front, sources, Text.bytes_injective (List.singleton_inj.mp settings)⟩

theorem decoded_of_documents {files : Files} {ctx : Context} {docs : List (String × Document)}
    (read : documents files dir ctx = .ok docs) :
    ∀ p ∈ docs, ∃ path, Document.decode path p.2.data = .ok p.2 := by
  obtain ⟨found, -, done⟩ := bind_eq_ok.mp read
  intro p inside
  obtain ⟨⟨⟨⟨path, place⟩, file⟩, n⟩, -, one⟩ := exists_left_of_mem (mapM_eq_ok.mp done) inside
  obtain ⟨-, decoded, -⟩ := document_eq_ok.mp one
  have data : p.2.data = file.data := by
    obtain ⟨tree, raw, -, -, known⟩ := Document.decode_eq_ok.mp decoded
    rw [known]
  exact ⟨path, data ▸ decoded⟩

theorem sameText_of_data {docs docs' : List (String × Document)}
    (matched : List.Forall₂ (fun p p' => p.1 = p'.1 ∧ p.2.data = p'.2.data) docs docs')
    (decoded : ∀ p ∈ docs, ∃ path, Document.decode path p.2.data = .ok p.2)
    (decoded' : ∀ p ∈ docs', ∃ path, Document.decode path p.2.data = .ok p.2) :
    List.Forall₂ Document.SameText (docs.map (·.2)) (docs'.map (·.2)) := by
  induction matched with
  | nil => exact .nil
  | @cons p p' docs docs' one _ ih =>
    obtain ⟨path, here⟩ := decoded p List.mem_cons_self
    obtain ⟨path', here'⟩ := decoded' p' List.mem_cons_self
    exact .cons (Document.sameText_of_decode here (one.2 ▸ here'))
      (ih (fun q inside => decoded q (List.mem_cons_of_mem _ inside))
        fun q inside => decoded' q (List.mem_cons_of_mem _ inside))

theorem compile_of_documents {s : Site} {ctx : Context} {docs : List (String × Document)}
    (fresh : c.cache = none) (read : documents s.files dir ctx = .ok docs) :
    (c.compile dir ctx s).2 = (c.product ctx.answers dir (docs.map (·.2))).map
      (produced dir (Digest.hex (Digest.sha256 (c.preimage docs))) (s.runs + 1)) := by
  have digested : c.read s.files dir ctx = .ok (docs.map (·.2), Digest.hex (Digest.sha256 (c.preimage docs))) := by
    rw [Compiler.read, read]
    rfl
  rw [compile_snd, digested]
  change ((c.kept _ _ _ s).2.elim _ _) = _
  rw [kept, fresh]
  rfl

/-- Where what is digested is cut at the same places, and the functions of templates answer alike, a
digest stands for one build. -/
theorem compile_alike {library : Template.Library} {s s' : Site} {ctx ctx' : Context}
    {docs docs' : List (String × Document)} (fresh : c.cache = none) (fresh' : c'.cache = none)
    (validator : c.validator = c'.validator) (parsed : c.templates.Parsed library)
    (parsed' : c'.templates.Parsed library) (answers : ctx.answers = ctx'.answers)
    (read : documents s.files dir ctx = .ok docs) (read' : documents s'.files dir' ctx' = .ok docs')
    (digested : c.preimage docs = c'.preimage docs')
    (cut : (c.parts docs).map List.length = (c'.parts docs').map List.length) :
    Alike Compiled.SameBuild (c.compile dir ctx s).2 (c'.compile dir' ctx' s').2 := by
  have same : c.parts docs = c'.parts docs' :=
    List.eq_iff_flatten_eq.mpr ⟨by rw [flatten_parts, flatten_parts, digested], cut⟩
  obtain ⟨matched, sources, settings⟩ := inputs_of_parts same
  obtain ⟨least, most, verify⟩ := spelled_eq settings
  have making : SameMaking c c' := ⟨validator, least, most, verify, parsed.sameText parsed' sources⟩
  have texts := sameText_of_data matched (decoded_of_documents read) (decoded_of_documents read')
  rw [compile_of_documents fresh read, compile_of_documents fresh' read', answers]
  refine (product_alike _ making texts).map fun p _ equal => ?_
  subst equal
  exact ⟨rfl, rfl, rfl⟩

def slots (names : List String) : List UInt8 := names.flatMap fun name => Text.bytes ("$\x7b" ++ name ++ "\x7d")

def plantTemplates : Except Failure Templates :=
  Templates.parse .plain ("plant", slots ["name", "units", "process_methods"]) ("process", slots ["name"]) ("getter", [])

theorem plantTemplates_sound : ∃ ts, plantTemplates = .ok ts := exists_ok (by decide +kernel)

def plantText : String :=
  "\x7bname: a, short_name: a, id: a, type: industry, outcome: [\x7bname: g, units: t\x7d]\x7d #"

def shopText : String := "\x7bname: b, short_name: b, id: b, type: process\x7d"

def plots : List (String × List (String × String)) :=
  [("copy", [("a.yaml", plantText), ("b.yaml", shopText)]),
    ("one", [("a.yaml", plantText), ("b.yaml", shopText)]),
    ("two", [("a.yaml", plantText ++ "b.yaml" ++ shopText)])]

def yard : Files where
  entries := plots.flatMap fun (dir, texts) =>
    ([dir], .directory) :: texts.map fun (name, text) => ([dir, name], .file { data := Text.bytes text })

def plant (ts : Templates) : Compiler := { settings := {}, templates := ts }

def listed (dir : String) (texts : List (String × String)) : List ((String × String) × File) :=
  texts.map fun (name, text) => ((dir ++ "/" ++ name, name), { data := Text.bytes text })

def trial (templates : Except Failure Templates) (answers : Template.Answers) (dir : String)
    (texts : List (String × String)) :
    Except Failure (List (String × List UInt8) × String × List UInt8 × List String) := do
  let ts ← templates
  let docs ← (listed dir texts).zipIdx.mapM (document {})
  let made ← (plant ts).product answers dir (docs.map (·.2))
  return (docs.map fun p => (p.1, p.2.data), made)

theorem below_yard (place : List String) :
    yard.below place = yard.entries.filter fun p => place.isPrefixOf p.1 := by
  have sorted : yard.entries.Pairwise fun a b => Text.namesLe a.1 b.1 := by decide +kernel
  exact Files.below_of_sorted (sorted.filter _)

theorem documents_yard : ∀ p ∈ plots, yard.documents p.1 = .ok (listed p.1 p.2) := by
  have located : ∀ p ∈ plots, yard.locate p.1 = .ok ([p.1], .directory) := by decide +kernel
  intro p inside
  simp only [Files.documents, Files.walk, located p inside, below_yard]
  revert p
  decide +kernel

section Trials

variable {templates : Except Failure Templates} {ts : Templates} {answers : Template.Answers} {dir : String}
  {texts : List (String × String)} {data : List (String × List UInt8)} {made : String × List UInt8 × List String}

theorem read_of_listed {fs : Files} (parsed : templates = .ok ts) (found : fs.documents dir = .ok (listed dir texts))
    (tried : (trial templates answers dir texts).toOption = some (data, made)) :
    ∃ docs, documents fs dir {} = .ok docs ∧ docs.map (fun p => (p.1, p.2.data)) = data ∧
      (plant ts).product answers dir (docs.map (·.2)) = .ok made := by
  cases done : trial templates answers dir texts with
  | error f => simp [done, Except.toOption] at tried
  | ok result =>
    simp only [done, Except.toOption, Option.some.injEq] at tried
    obtain ⟨ts', parsed', done⟩ := bind_eq_ok.mp done
    obtain rfl := Except.ok.inj (parsed.symm.trans parsed')
    obtain ⟨docs, read, done⟩ := bind_eq_ok.mp done
    obtain ⟨made', product, last⟩ := bind_eq_ok.mp done
    cases last
    cases tried
    refine ⟨docs, ?_, rfl, product⟩
    rw [documents, found]
    exact read

theorem read_of_trial (parsed : templates = .ok ts) (plot : (dir, texts) ∈ plots)
    (tried : (trial templates answers dir texts).toOption = some (data, made)) :
    ∃ docs, documents yard dir {} = .ok docs ∧ docs.map (fun p => (p.1, p.2.data)) = data ∧
      (plant ts).product answers dir (docs.map (·.2)) = .ok made :=
  read_of_listed parsed (documents_yard _ plot) tried

theorem compile_of_listed {fs : Files} (parsed : templates = .ok ts) (found : fs.documents dir = .ok (listed dir texts))
    (tried : (trial templates .plain dir texts).toOption = some (data, made)) :
    ∃ docs, documents fs dir {} = .ok docs ∧ docs.map (fun p => (p.1, p.2.data)) = data ∧
      ((plant ts).compile dir {} { files := fs }).2 =
        .ok (produced dir (Digest.hex (Digest.sha256 ((plant ts).preimage docs))) 1 made) := by
  obtain ⟨docs, read, data, product⟩ := read_of_listed parsed found tried
  have fresh : (plant ts).cache = none := rfl
  have here : documents (Site.files { files := fs }) dir {} = .ok docs := read
  refine ⟨docs, read, data, ?_⟩
  rw [compile_of_documents fresh here, product]
  rfl

theorem of_trial (parsed : templates = .ok ts) (plot : (dir, texts) ∈ plots)
    (tried : (trial templates .plain dir texts).toOption = some (data, made)) :
    ∃ docs, documents yard dir {} = .ok docs ∧ docs.map (fun p => (p.1, p.2.data)) = data ∧
      ((plant ts).compile dir {} { files := yard }).2 =
        .ok (produced dir (Digest.hex (Digest.sha256 ((plant ts).preimage docs))) 1 made) :=
  compile_of_listed parsed (documents_yard _ plot) tried

end Trials

theorem trial_plots :
    (trial plantTemplates .plain "one" [("a.yaml", plantText), ("b.yaml", shopText)]).toOption =
        some ([("a.yaml", Text.bytes plantText), ("b.yaml", Text.bytes shopText)],
          "a", Text.bytes "a\x7b\n    \"g\": \"t\"\n\x7db", ["b"]) ∧
      (trial plantTemplates .plain "copy" [("a.yaml", plantText), ("b.yaml", shopText)]).toOption =
        some ([("a.yaml", Text.bytes plantText), ("b.yaml", Text.bytes shopText)],
          "a", Text.bytes "a\x7b\n    \"g\": \"t\"\n\x7db", ["b"]) ∧
      (trial plantTemplates .plain "two" [("a.yaml", plantText ++ "b.yaml" ++ shopText)]).toOption =
        some ([("a.yaml", Text.bytes (plantText ++ "b.yaml" ++ shopText))],
          "a", Text.bytes "a\x7b\n    \"g\": \"t\"\n\x7d", []) :=
  ⟨by decide +kernel, by decide +kernel, by decide +kernel⟩

theorem compile_alike_copy : ∃ (c : Compiler) (s : Site) (docs docs' : List (String × Document)),
    c.cache = none ∧ c.templates.Parsed .plain ∧ documents s.files "one" {} = .ok docs ∧
      documents s.files "copy" {} = .ok docs' ∧ c.preimage docs = c.preimage docs' ∧
        (c.parts docs).map List.length = (c.parts docs').map List.length ∧
          Alike Compiled.SameBuild (c.compile "one" {} s).2 (c.compile "copy" {} s).2 := by
  obtain ⟨ts, parses⟩ := plantTemplates_sound
  obtain ⟨docs, read, data, -⟩ := of_trial parses (by decide) trial_plots.1
  obtain ⟨docs', read', data', -⟩ := of_trial parses (by decide) trial_plots.2.1
  have parsed := Templates.parsed_of_parse parses
  have same : (plant ts).parts docs = (plant ts).parts docs' := by
    rw [parts_eq, parts_eq, data, data']
  have digested : (plant ts).preimage docs = (plant ts).preimage docs' := by
    rw [← flatten_parts, ← flatten_parts, same]
  have cut := congrArg (List.map List.length) same
  exact ⟨plant ts, { files := yard }, docs, docs', rfl, parsed, read, read', digested, cut,
    compile_alike rfl rfl rfl parsed parsed rfl read read' digested cut⟩

theorem digest_of_two_plants : ∃ (c : Compiler) (s : Site) (docs docs' : List (String × Document)),
    c.cache = none ∧ c.validator = .schema ∧ c.templates.Parsed .plain ∧ documents s.files "one" {} = .ok docs ∧
      documents s.files "two" {} = .ok docs' ∧ c.preimage docs = c.preimage docs' ∧
        ¬ Alike Compiled.SameBuild (c.compile "one" {} s).2 (c.compile "two" {} s).2 := by
  obtain ⟨ts, parses⟩ := plantTemplates_sound
  obtain ⟨docs, read, data, compiled⟩ := of_trial parses (by decide) trial_plots.1
  obtain ⟨docs', read', data', compiled'⟩ := of_trial parses (by decide) trial_plots.2.2
  have digested : (plant ts).preimage docs = (plant ts).preimage docs' := by
    have shifted : ([("a.yaml", Text.bytes plantText), ("b.yaml", Text.bytes shopText)].flatMap
          fun p => [Text.bytes p.1, p.2]).flatten =
        ([("a.yaml", Text.bytes (plantText ++ "b.yaml" ++ shopText))].flatMap
          fun p => [Text.bytes p.1, p.2]).flatten := by decide +kernel
    rw [← flatten_parts, ← flatten_parts, parts_eq, parts_eq, data, data', List.flatten_append, shifted,
      ← List.flatten_append]
  refine ⟨plant ts, { files := yard }, docs, docs', rfl, rfl, Templates.parsed_of_parse parses, read, read',
    digested, ?_⟩
  rw [compiled, compiled']
  intro alike
  cases alike with
  | done same =>
    have count : (1 : Int) = 0 := same.processes
    exact absurd count (by decide)

end Compiler

end Flowsheet
