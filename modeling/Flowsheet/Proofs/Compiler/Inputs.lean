import Flowsheet.Proofs.Compiler.Stages
import Flowsheet.Proofs.Document.Identified

set_option autoImplicit false

namespace Flowsheet

structure Document.SameText (d d' : Document) : Prop where
  tree : d.tree = d'.tree
  raw : d.raw = d'.raw

structure Template.SameText (t t' : Template) : Prop where
  library : t.library = t'.library
  nodes : t.nodes = t'.nodes
  steps : t.steps = t'.steps

namespace Document

variable {d d' : Document}

theorem sameText_of_decode {path path' : String} {data : List UInt8} (read : decode path data = .ok d)
    (read' : decode path' data = .ok d') : d.SameText d' := by
  obtain ⟨tree, raw, parses, topped, rfl⟩ := decode_eq_ok.mp read
  obtain ⟨tree', raw', parses', topped', rfl⟩ := decode_eq_ok.mp read'
  obtain rfl : tree = tree' := Option.some.inj (Except.ok.inj (parses.symm.trans parses'))
  exact ⟨rfl, Option.some.inj (Except.ok.inj (topped.symm.trans topped'))⟩

namespace SameText

variable (same : d.SameText d')
include same

theorem kind : Alike Eq d.kind d'.kind := by
  unfold Document.kind
  rw [same.raw]
  cases d'.raw.get? "type" with
  | none => exact .failed
  | some v =>
    dsimp only
    split
    · exact .rfl
    · exact .rfl
    · exact .failed

theorem checkSchema : Alike Eq d.checkSchema d'.checkSchema := by
  refine same.kind.bind fun kind _ equal => ?_
  subst equal
  rw [same.raw]
  split
  · exact .failed
  · split
    · exact .rfl
    · exact .failed

theorem check (v : Validator) : Alike Eq (v.check d) (v.check d') := by
  cases v with
  | schema => exact same.checkSchema
  | acceptAll => exact .rfl
  | rejectAll => exact .failed

theorem process : Alike Eq d.process d'.process := by
  unfold Document.process
  rw [same.tree]
  refine Alike.rfl.mapError.bind fun r _ equal => ?_
  subst equal
  exact .rfl

theorem industry : Alike Eq d.industry d'.industry := by
  unfold Document.industry
  rw [same.tree]
  refine Alike.rfl.mapError.bind fun r _ equal => ?_
  subst equal
  exact .rfl

end SameText

end Document

namespace Template

variable {t t' : Template}

variable {library : Library} {name name' : String} {source : List UInt8}

theorem parse_eq_ok (parsed : parse library name source = .ok t) :
    t.name = name ∧ t.source = source ∧ t.library = library ∧ ∃ a ns, actions (Text.pieces source) = .ok a ∧
      parseNodes? library.knows a.text = some ns ∧ t.nodes = ns ∧ t.steps = 8 * a.text.length + 16 := by
  unfold parse at parsed
  cases read : actions (Text.pieces source) with
  | error e => simp [read] at parsed
  | ok a =>
    cases found : parseNodes? library.knows a.text with
    | none => simp [read, found] at parsed
    | some ns =>
      simp only [read, found] at parsed
      cases parsed
      exact ⟨rfl, rfl, rfl, a, ns, rfl, found, rfl, rfl⟩

theorem parse_of_parse (parsed : parse library name source = .ok t) : parse library t.name t.source = .ok t := by
  obtain ⟨rfl, rfl, -⟩ := parse_eq_ok parsed
  exact parsed

theorem sameText_of_parse (parsed : parse library name source = .ok t)
    (parsed' : parse library name' source = .ok t') : t.SameText t' := by
  obtain ⟨-, -, same, a, ns, read, found, nodes, steps⟩ := parse_eq_ok parsed
  obtain ⟨-, -, same', a', ns', read', found', nodes', steps'⟩ := parse_eq_ok parsed'
  obtain rfl := Except.ok.inj (read.symm.trans read')
  obtain rfl := Option.some.inj (found.symm.trans found')
  exact ⟨same.trans same'.symm, nodes.trans nodes'.symm, steps.trans steps'.symm⟩

theorem SameText.fill (same : t.SameText t') (answers : Answers) (moment : Moment)
    (values : List (String × List UInt8)) : Alike Eq (t.fill answers moment values) (t'.fill answers moment values) := by
  unfold Template.fill execute
  rw [same.library, same.nodes, same.steps]
  split
  · exact .rfl
  · exact .failed

end Template

namespace Templates

variable {library : Template.Library}

/-- Templates that were read from their sources, with the functions of a library. -/
structure Parsed (library : Template.Library) (ts : Templates) : Prop where
  industry : Template.parse library ts.industry.name ts.industry.source = .ok ts.industry
  process : Template.parse library ts.process.name ts.process.source = .ok ts.process
  getter : Template.parse library ts.getter.name ts.getter.source = .ok ts.getter

theorem parsed_of_parse {industry process getter : String × List UInt8} {ts : Templates}
    (parsed : parse library industry process getter = .ok ts) : ts.Parsed library := by
  obtain ⟨i, first, parsed⟩ := bind_eq_ok.mp parsed
  obtain ⟨p, second, parsed⟩ := bind_eq_ok.mp parsed
  obtain ⟨g, third, parsed⟩ := bind_eq_ok.mp parsed
  cases parsed
  exact ⟨Template.parse_of_parse first, Template.parse_of_parse second, Template.parse_of_parse third⟩

theorem parsed_of_load {files : Files} {dir : String} {ts : Templates} (loaded : load library files dir = .ok ts) :
    ts.Parsed library := by
  obtain ⟨i, first, loaded⟩ := bind_eq_ok.mp loaded
  obtain ⟨p, second, loaded⟩ := bind_eq_ok.mp loaded
  obtain ⟨g, third, loaded⟩ := bind_eq_ok.mp loaded
  obtain ⟨_, -, first⟩ := bind_eq_ok.mp first
  obtain ⟨_, -, second⟩ := bind_eq_ok.mp second
  obtain ⟨_, -, third⟩ := bind_eq_ok.mp third
  cases loaded
  exact ⟨Template.parse_of_parse first, Template.parse_of_parse second, Template.parse_of_parse third⟩

structure SameText (ts ts' : Templates) : Prop where
  industry : ts.industry.SameText ts'.industry
  process : ts.process.SameText ts'.process
  getter : ts.getter.SameText ts'.getter

theorem Parsed.sameText {ts ts' : Templates} (parsed : ts.Parsed library) (parsed' : ts'.Parsed library)
    (same : ts.sources = ts'.sources) : ts.SameText ts' := by
  simp only [sources, toList, List.map_cons, List.map_nil, List.cons.injEq, and_true] at same
  obtain ⟨industry, process, getter⟩ := same
  exact ⟨Template.sameText_of_parse parsed.industry (industry ▸ parsed'.industry),
    Template.sameText_of_parse parsed.process (process ▸ parsed'.process),
    Template.sameText_of_parse parsed.getter (getter ▸ parsed'.getter)⟩

end Templates

section Script

variable {N : Type} [Quantity N] {ts ts' : Templates} (answers : Template.Answers)

theorem gettersText_alike {t t' : Template} (same : t.SameText t') (items : List Labels) :
    Alike Eq (gettersText t answers items) (gettersText t' answers items) := by
  refine (Alike.mapM items fun l _ => same.fill _ _ _).bind fun texts _ equal => ?_
  subst equal
  exact .rfl

theorem Process.methodText_alike {t t' : Template} (same : t.SameText t') (id : String) (p : Process N) :
    Alike Eq (p.methodText t answers id) (p.methodText t' answers id) :=
  (same.fill _ _ _).mapError

namespace Industry

theorem processTexts_alike (same : ts.SameText ts') (id : String) (p : Process N) (new : List Labels) :
    Alike Eq (processTexts ts answers id p new) (processTexts ts' answers id p new) := by
  refine (Process.methodText_alike answers same.process id p).bind fun method _ equal => ?_
  subst equal
  split
  · exact .rfl
  · refine (gettersText_alike answers same.getter new).mapError.bind fun getters _ equal => ?_
    subst equal
    exact .rfl

theorem script_alike (same : ts.SameText ts') (i : Industry N) : Alike Eq (i.script ts answers) (i.script ts' answers) := by
  refine Alike.rfl.bind fun m _ equal => ?_
  subst equal
  refine Alike.rfl.bind fun queue _ equal => ?_
  subst equal
  refine (gettersText_alike answers same.getter _).mapError.bind fun getters _ equal => ?_
  subst equal
  refine (Alike.mapM _ fun p _ => processTexts_alike answers same p.1.1 p.1.2 p.2).bind fun texts _ equal => ?_
  subst equal
  exact (same.industry.fill _ _ _).mapError

end Industry

end Script

namespace Compiler

variable {c c' : Compiler} {dir dir' : String} (answers : Template.Answers)

/-- What compilers agree on when they make the same of documents. -/
structure SameMaking (c c' : Compiler) : Prop where
  validator : c.validator = c'.validator
  least : c.settings.minUnits = c'.settings.minUnits
  most : c.settings.maxUnits = c'.settings.maxUnits
  verify : c.settings.verify = c'.settings.verify
  templates : c.templates.SameText c'.templates

structure Gathered.Same (g g' : Gathered) : Prop where
  industry : g.industry.map (·.2) = g'.industry.map (·.2)
  processes : g.processes = g'.processes

theorem gather_alike (v : Validator) {g g' : Gathered} {d d' : Document} (gathered : g.Same g')
    (same : d.SameText d') : Alike Gathered.Same (gather v g d) (gather v g' d') := by
  refine (same.check v).bind fun _ _ _ => same.kind.bind fun kind _ equal => ?_
  subst equal
  cases kind with
  | process =>
    refine same.process.bind fun r _ equal => ?_
    subst equal
    exact .done ⟨gathered.industry, by rw [gathered.processes]⟩
  | industry =>
    have known := gathered.industry
    obtain ⟨_ | ⟨path, r⟩, processes⟩ := g <;> obtain ⟨_ | ⟨path', r'⟩, processes'⟩ := g'
    · refine same.industry.bind fun r _ equal => ?_
      subst equal
      exact .done ⟨rfl, gathered.processes⟩
    · simp at known
    · simp at known
    · exact .failed

theorem gatherAll_alike (v : Validator) {ds ds' : List Document} (same : List.Forall₂ Document.SameText ds ds')
    {g g' : Gathered} (gathered : g.Same g') :
    Alike Gathered.Same (gatherAll v g ds).2 (gatherAll v g' ds').2 := by
  induction same generalizing g g' with
  | nil => exact .done gathered
  | @cons d d' ds ds' first rest ih =>
    have gathers := gather_alike v gathered first
    simp only [gatherAll]
    generalize gather v g d = x, gather v g' d' = y at gathers ⊢
    cases gathers with
    | failed => exact .failed
    | done related => exact ih related

theorem assemble_alike (same : SameMaking c c') {g g' : Gathered} (gathered : g.Same g') :
    Alike Eq (c.assemble dir g) (c'.assemble dir' g') := by
  obtain ⟨industry, processes⟩ := g
  obtain ⟨industry', processes'⟩ := g'
  obtain ⟨known, rfl⟩ := gathered
  obtain _ | ⟨path, r⟩ := industry <;> obtain _ | ⟨path', r'⟩ := industry'
  · exact .failed
  · simp at known
  · simp at known
  · obtain rfl : r = r' := by simpa using known
    unfold assemble
    rw [same.least, same.most]
    exact .rfl

theorem build_alike (same : SameMaking c c') {ds ds' : List Document}
    (docs : List.Forall₂ Document.SameText ds ds') : Alike Eq (c.build dir ds).2 (c'.build dir' ds').2 := by
  unfold build
  rw [same.validator]
  exact (gatherAll_alike _ docs ⟨rfl, rfl⟩).bind fun g g' gathered => assemble_alike same gathered

theorem finish_alike (same : SameMaking c c') (i : Industry Float) : Alike Eq (c.finish answers i) (c'.finish answers i) := by
  refine Alike.rfl.bind fun queue _ equal => ?_
  subst equal
  have script := (Industry.script_alike answers same.templates i).bind fun script _ equal => by
    subst equal
    exact @Alike.rfl _ _ (.ok ((i.metaProcess.map (·.shortName)).getD "", script, queue))
  rw [same.verify]
  cases c'.settings.verify with
  | false => exact script
  | true => exact Alike.rfl.bind fun _ _ _ => script

theorem product_alike (same : SameMaking c c') {ds ds' : List Document}
    (docs : List.Forall₂ Document.SameText ds ds') : Alike Eq (c.product answers dir ds) (c'.product answers dir' ds') := by
  refine (build_alike same docs).bind fun i _ equal => ?_
  subst equal
  exact finish_alike answers same i

end Compiler

end Flowsheet
