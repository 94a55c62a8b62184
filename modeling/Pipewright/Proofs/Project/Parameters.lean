import Pipewright.Proofs.Composition.Parameters
import Pipewright.Proofs.Project.Agreement
import Pipewright.Proofs.Project.Runtimes

/-!
# Parameters of a generated project

The workflow gives a value to each parameter of each step: texts of the document, the path of a file
below the home directory, or the path of an environment that has been made.  Texts are put between
double quotes as they are.  A text without double quotes and line feeds stays in its place, and then
the number of lines that the parameters take is told by the numbers of steps and files.  A text with
a line feed takes a line more.

* `Attributes.Quotable`, `Provisioners.GiveQuotable`: where the values come from, without double
  quotes and line feeds.
* `GenerationSettings.Run.quotable_parameters`: the values, then.
* `GenerationSettings.ParametersSet`: the entries and their lines, whatever the values are.
* `GenerationSettings.ParametersQuoted`: each entry is one line with a value in double quotes.
* `GenerationSettings.generate_parameters`: the main statement.
-/

namespace Pipewright

/-- Two texts make a path that can stand between double quotes, when they can. -/
theorem Path.quotable_join {directory file : Path} (hdirectory : Text.Quotable directory)
    (hfile : Text.Quotable file) : Text.Quotable (directory.join file) := by
  have hslash : Text.Quotable "/" := by
    constructor <;> simp
  rw [join]
  split
  · exact hfile
  · split
    · exact Text.quotable_append.mpr ⟨hdirectory, hfile⟩
    · exact Text.quotable_append.mpr ⟨Text.quotable_append.mpr ⟨hdirectory, hslash⟩, hfile⟩

/-- What a step says of its files and its environment can stand between double quotes. -/
structure Attributes.Quotable (a : Attributes) : Prop where
  filename : ∀ file ∈ a.sourceFile?, Text.Quotable file
  runtime : Text.Quotable a.runtimeEnvironment
  inputs : ∀ file ∈ a.inputFiles, Text.Quotable file
  outputs : ∀ file ∈ a.outputFiles, Text.Quotable file

instance : DecidablePred Attributes.Quotable := fun a =>
  decidable_of_iff ((∀ file ∈ a.sourceFile?, Text.Quotable file) ∧
      Text.Quotable a.runtimeEnvironment ∧ (∀ file ∈ a.inputFiles, Text.Quotable file) ∧
      ∀ file ∈ a.outputFiles, Text.Quotable file)
    ⟨fun h => ⟨h.1, h.2.1, h.2.2.1, h.2.2.2⟩, fun h => ⟨h.1, h.2, h.3, h.4⟩⟩

/-- An environment whose name can stand between double quotes has a path that can. -/
def Provisioners.GiveQuotable (p : Provisioners) : Prop :=
  ∀ name description h path h', Text.Quotable name →
    p.environment name description h = (.ok path, h') → Text.Quotable path

/-- The number of entries for the parameters of steps: three for each step, one for each of its
files, and an empty one between two steps. -/
def entryCount (nodes : List Node) : Nat :=
  (nodes.map fun n => 3 + n.attributes.inputFiles.length + n.attributes.outputFiles.length).sum +
    (nodes.length - 1)

namespace GenerationSettings

variable {settings : GenerationSettings} {p : Provisioners} {g : Graph} {order : List Node}
  {input : Path} {steps : List EmittedStep} {report : GenerationReport} {j j' : Journal}
  {s : EmittedStep}

/-! ## Values -/

theorem quotable_filename (hhome : Text.Quotable settings.home)
    (ha : s.node.attributes.Quotable) (h : settings.sourcePath s.node = .ok s.filename) :
    Text.Quotable s.filename := by
  rw [sourcePath] at h
  split at h
  · next file hfile =>
    rw [← Except.ok.inj h]
    exact Path.quotable_join hhome (ha.filename file hfile)
  · cases h

theorem RuntimeProvided.quotable {name : StepName} {n : Node} {h h' : Host} {rs : List Request}
    {runtime : String} (hprovided : settings.RuntimeProvided p n name h rs runtime h')
    (hp : p.GiveQuotable) (hname : name.Lettered) (ha : n.attributes.Quotable) :
    Text.Quotable runtime := by
  cases hprovided with
  | declared hneeds => exact ha.runtime
  | made hneeds hdirectory hdescription hanswer =>
    have hbehind : Text.Quotable "_env" := by
      constructor <;> simp
    have henvironment := Text.quotable_append.mpr ⟨Text.quotable_of_isAlphanum hname, hbehind⟩
    exact hp _ _ _ _ _ henvironment hanswer

/-- The values of a step can stand between double quotes, when the texts that they come from can. -/
theorem Run.quotable_parameters (hrun : settings.Run p input j g steps report j')
    (hs : s ∈ steps) (hhome : Text.Quotable settings.home) (hp : p.GiveQuotable)
    (ha : s.node.attributes.Quotable) : ∀ q ∈ s.composed.parameters, Text.Quotable q.2 := by
  obtain ⟨order, hemitted⟩ := hrun.exists_emitted
  obtain ⟨h, rs, h', hprovided, -⟩ := hrun.runtimeProvided hs
  intro q hq
  obtain rfl | rfl | rfl | ⟨-, -, hfile⟩ | ⟨-, -, hfile⟩ := ComposedStep.mem_parameters hq
  · exact quotable_filename hhome ha (hemitted.emittedAs s hs).filename_eq
  · exact hprovided.quotable hp (hemitted.lettered hs) ha
  · show Text.Quotable ((s.node.attributes.cpu.map Text.decimal).getD "")
    cases s.node.attributes.cpu with
    | none => exact ⟨List.not_mem_nil, List.not_mem_nil⟩
    | some n => exact Text.quotable_decimal n
  · exact ha.inputs _ hfile
  · exact ha.outputs _ hfile

/-! ## Entries -/

/-- Whatever the values of the steps are, each entry is empty or gives a parameter its value.  The
entries take the lines that their number tells, and one more for each line feed in a value. -/
structure ParametersSet (sections : Sections) (steps : List EmittedStep) : Prop where
  entry : ∀ entry ∈ sections.params, entry = "" ∨ ∃ s ∈ steps, ∃ q ∈ s.composed.parameters,
    entry = "params." ++ s.name.text ++ "_" ++ q.1 ++ "=\"" ++ q.2 ++ "\"" ∧
      Text.feeds entry = Text.feeds q.2 ∧ entry.toList.count '"' = q.2.toList.count '"' + 2
  length_eq : sections.params.length = entryCount (steps.map EmittedStep.node)
  takes : Skeleton.Takes sections .params (entryCount (steps.map EmittedStep.node) +
    (steps.map fun s => (s.composed.parameters.map fun q => Text.feeds q.2).sum).sum)

/-- Each entry is one line: an empty one, or one that gives a parameter a value between double quotes
that has no double quote in it.  The entries take the lines that their number tells. -/
structure ParametersQuoted (sections : Sections) (steps : List EmittedStep) : Prop where
  entry : ∀ entry ∈ sections.params, '\n' ∉ entry.toList ∧
    (entry = "" ∨ ∃ s ∈ steps, ∃ q ∈ s.composed.parameters, Text.Quotable q.2 ∧
      entry = "params." ++ s.name.text ++ "_" ++ q.1 ++ "=\"" ++ q.2 ++ "\"")
  takes : Skeleton.Takes sections .params (entryCount (steps.map EmittedStep.node))

/-- The sections that steps make. -/
def sectionsOf (steps : List EmittedStep) : Sections :=
  (Composition.ofSteps (steps.map EmittedStep.composed)).sections

theorem length_params_sectionsOf (steps : List EmittedStep) :
    (sectionsOf steps).params.length = entryCount (steps.map EmittedStep.node) := by
  rw [sectionsOf, Composition.length_params_ofSteps, List.map_map, List.length_map, entryCount,
    List.map_map, List.length_map]
  rfl

theorem Emitted.parametersSet (h : settings.Emitted g order steps) :
    ParametersSet (sectionsOf steps) steps := by
  have hlettered : ∀ c ∈ steps.map EmittedStep.composed, c.name.Lettered := by
    intro c hc
    obtain ⟨s, hs, rfl⟩ := List.mem_map.mp hc
    exact h.lettered hs
  refine ⟨fun entry hentry => ?_, length_params_sectionsOf steps, ?_⟩
  · obtain rfl | ⟨c, hc, q, hq, rfl⟩ := Composition.mem_params_ofSteps hentry
    · exact .inl rfl
    · obtain ⟨s, hs, rfl⟩ := List.mem_map.mp hc
      exact .inr ⟨s, hs, q, hq, rfl, ComposedStep.feeds_paramLine (hlettered _ hc) hq,
        ComposedStep.quotes_paramLine (hlettered _ hc) hq⟩
  · have htakes := Skeleton.takes (sectionsOf steps) .params
    have hfeeds := Composition.sum_feeds_params hlettered
    rw [List.map_map] at hfeeds
    rw [Sections.of, length_params_sectionsOf, sectionsOf, hfeeds] at htakes
    exact htakes

/-- When the values can stand between double quotes, each entry is one line. -/
theorem ParametersSet.quoted {sections : Sections} (h : ParametersSet sections steps)
    (hquotable : ∀ s ∈ steps, ∀ q ∈ s.composed.parameters, Text.Quotable q.2) :
    ParametersQuoted sections steps := by
  refine ⟨fun entry hentry => ?_, ?_⟩
  · obtain rfl | ⟨s, hs, q, hq, heq, hfeeds, -⟩ := h.entry entry hentry
    · exact ⟨List.not_mem_nil, .inl rfl⟩
    · have hvalue := hquotable s hs q hq
      refine ⟨?_, .inr ⟨s, hs, q, hq, hvalue, heq⟩⟩
      rw [← List.count_eq_zero]
      exact hfeeds.trans (List.count_eq_zero.mpr hvalue.2)
  · have hnone : (steps.map fun s => (s.composed.parameters.map fun q => Text.feeds q.2).sum).sum =
        0 := by
      refine List.sum_eq_zero fun n hn => ?_
      obtain ⟨s, hs, rfl⟩ := List.mem_map.mp hn
      refine List.sum_eq_zero fun n hn => ?_
      obtain ⟨q, hq, rfl⟩ := List.mem_map.mp hn
      exact List.count_eq_zero.mpr (hquotable s hs q hq).2
    have htakes := h.takes
    rwa [hnone, Nat.add_zero] at htakes

/-- The parameters of a generated project.  Each entry gives a parameter its value as it is, so the
entries take a line more for each line feed in a value.  When there are neither double quotes nor
line feeds in the texts that the values come from, each entry is one line with a value that has no
double quote in it, and the number of the lines is told by the numbers of steps and files. -/
theorem generate_parameters (h : (settings.generate p input j).1 = .ok report) :
    ∃ g steps, settings.Run p input j g steps report (settings.generate p input j).2 ∧
      g.stepNodes = .ok (steps.map EmittedStep.node) ∧
      (baseName input ≠ mainFile → ∃ d skeleton, settings.loadSkeleton d = .ok skeleton ∧
        (settings.generate p input j).2.host.disk.readText settings.mainPath =
          .ok (skeleton.render (sectionsOf steps))) ∧
      ParametersSet (sectionsOf steps) steps ∧
      (Text.Quotable settings.home → p.GiveQuotable →
        (∀ s ∈ steps, s.node.attributes.Quotable) → ParametersQuoted (sectionsOf steps) steps) := by
  obtain ⟨g, steps, hrun⟩ := generate_ok (Prod.ext h rfl)
  obtain ⟨order, hemitted⟩ := hrun.exists_emitted
  have hset := hemitted.parametersSet
  refine ⟨g, steps, hrun, hemitted.stepNodes_eq, hrun.readText_main, hset, fun hhome hp ha => ?_⟩
  exact hset.quoted fun s hs => hrun.quotable_parameters hs hhome hp (ha s hs)

/-! ### The small document -/

theorem giveQuotable_idleProvisioners : idleProvisioners.GiveQuotable := by
  rintro name description h path h' hname ⟨⟩
  exact hname

/-- The entries for the two steps of the small document are one line each, and nine lines of the
workflow. -/
theorem generate_smallJournal_parameters :
    (smallSettings.generate idleProvisioners "doc.json" smallJournal).1 = .ok smallReport ∧
    ∃ sections : Sections, (∀ entry ∈ sections.params, '\n' ∉ entry.toList) ∧
      Skeleton.Takes sections .params 9 ∧
      ∃ d skeleton, smallSettings.loadSkeleton d = .ok skeleton ∧
        (smallSettings.generate idleProvisioners "doc.json" smallJournal).2.host.disk.readText
          "out/main.nf" = .ok (skeleton.render sections) := by
  refine ⟨generate_smallJournal, ?_⟩
  obtain ⟨g, steps, hrun, hnodes, hmain, -, hquoted⟩ := generate_parameters generate_smallJournal
  obtain rfl : g = smallGraph := Except.ok.inj (hrun.loaded.symm.trans loadGraph_smallDisk)
  have hall : smallGraph.stepNodes = .ok (smallDocument.nodes.take 2).reverse := rfl
  have hsteps : steps.map EmittedStep.node = (smallDocument.nodes.take 2).reverse :=
    Except.ok.inj (hnodes.symm.trans hall)
  have hnode : ∀ n ∈ (smallDocument.nodes.take 2).reverse, n.attributes.Quotable := by
    decide +kernel
  have hcount : entryCount (steps.map EmittedStep.node) = 9 := by
    rw [hsteps]
    rfl
  have hparams := hquoted (by decide) giveQuotable_idleProvisioners fun s hs =>
    hnode _ (hsteps ▸ List.mem_map_of_mem hs)
  exact ⟨sectionsOf steps, fun entry hentry => (hparams.entry entry hentry).1,
    hcount ▸ hparams.takes, hmain (by decide)⟩

end GenerationSettings

end Pipewright
