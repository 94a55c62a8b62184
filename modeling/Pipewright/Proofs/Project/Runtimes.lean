import Pipewright.Proofs.Diagnostics.Reports
import Pipewright.Proofs.Project.Requests
import Pipewright.Proofs.Project.Wiring

/-!
# Environments of steps

What the rule about environments reports and what environment a step gets are decided apart.  The
rule looks whether what the step declares is blank, and the emitter whether it is empty.  So the two
agree on every step but one that declares blanks and comes with a description: nothing is reported,
no environment is made, and its process gets the blanks.

* `GenerationSettings.StepsServed.exists_served`: one of the steps that have been dealt with.
* `GenerationSettings.Run.runtimeProvided`, `GenerationSettings.Run.runtime_eq`: where the
  environment of a step comes from, and that its process has it.
* `GenerationSettings.Provisioned`: the environment has been made from the description.
* `GenerationSettings.RuntimeAgrees`, `GenerationSettings.generate_runtimes`: the main statement.
-/

namespace Pipewright

/-- The environments that are made have paths that are not blank. -/
def Provisioners.GivePaths (p : Provisioners) : Prop :=
  ∀ name description h path h', p.environment name description h = (.ok path, h') →
    Text.isBlank path = false

/-- The step declares an environment that is made of white space alone. -/
def DeclaresBlanks (n : Node) : Prop :=
  n.attributes.runtimeEnvironment ≠ "" ∧ Text.isBlank n.attributes.runtimeEnvironment = true

instance : DecidablePred DeclaresBlanks := fun _ => inferInstanceAs (Decidable (_ ∧ _))

namespace GenerationSettings

variable {settings : GenerationSettings} {p : Provisioners} {g : Graph} {handled : Handled}
  {order : List Node} {input : Path} {steps : List EmittedStep} {report : GenerationReport}
  {j j' : Journal} {s : EmittedStep}

/-! ## Where an environment comes from -/

/-- Each of the steps that have been dealt with has been dealt with in its turn. -/
theorem StepsServed.exists_served {h h' : Host} {rs : List Request}
    (hserved : settings.StepsServed p steps h rs h') (hs : s ∈ steps) :
    ∃ h₁ more h₂, settings.StepServed p s h₁ more h₂ ∧ more ⊆ rs := by
  induction hserved with
  | nil h => cases hs
  | @cons t rest h h₁ h' rs more hstep _ ih =>
    obtain rfl | hs := List.mem_cons.mp hs
    · exact ⟨h, rs, h₁, hstep, List.subset_append_left _ _⟩
    · obtain ⟨h₂, asked, h₃, hserved, hsub⟩ := ih hs
      exact ⟨h₂, asked, h₃, hserved, List.Subset.trans hsub (List.subset_append_right _ _)⟩

/-- The environment of a step of a run is known: the step declares it, or it has been asked for. -/
theorem Run.runtimeProvided (hrun : settings.Run p input j g steps report j') (hs : s ∈ steps) :
    ∃ h rs h', settings.RuntimeProvided p s.node s.name h rs s.runtime h' ∧ rs ⊆ j'.requests := by
  obtain ⟨rs, h', hunderway, hrequests⟩ := hrun.underway
  obtain ⟨d, -, hserved⟩ := hunderway.served
  obtain ⟨h₁, more, h₂, hstep, hsub⟩ := hserved.exists_served hs
  obtain ⟨environments, kernels, h₃, -, -, rfl, hprovided, -⟩ := hstep.served
  refine ⟨h₁, environments, h₃, hprovided, fun r hr => ?_⟩
  rw [hrequests]
  exact List.mem_append_right _ (hsub (List.mem_append_left _ hr))

theorem StepRun.runtime_eq {n : Node} (h : settings.StepRun p g handled n j s j') :
    s.process.runtime = s.runtime := by
  obtain ⟨j₁, j₂, -, hprocess, -⟩ := h.ran
  obtain ⟨command, more, hp⟩ := Emission.processFor_ok hprocess
  rw [hp]
  rfl

theorem emitSteps_runtime {nodes : List Node}
    (h : settings.emitSteps p g handled nodes j = (.ok steps, j')) :
    ∀ s ∈ steps, s.process.runtime = s.runtime := by
  induction nodes generalizing handled j steps with
  | nil =>
    obtain ⟨rfl, -⟩ := Act.pure_eq_ok_iff.mp h
    exact fun s hs => absurd hs List.not_mem_nil
  | cons n rest ih =>
    obtain ⟨step, others, j₁, rfl, hstep, hothers⟩ := emitSteps_cons_ok h
    exact List.forall_mem_cons.mpr ⟨hstep.runtime_eq, ih hothers⟩

/-- The process of a step has the environment of the step. -/
theorem Run.runtime_eq (hrun : settings.Run p input j g steps report j') (hs : s ∈ steps) :
    s.process.runtime = s.runtime := by
  obtain ⟨nodes, j₁, j₂, j₃, -, -, hsteps, -, -⟩ := hrun.ran
  exact emitSteps_runtime hsteps s hs

/-! ## The rule and the emitter -/

/-- The steps that have been dealt with are those that generating has to deal with. -/
theorem Emitted.stepNodes_eq (h : settings.Emitted g order steps) :
    g.stepNodes = .ok (steps.map EmittedStep.node) := by
  rw [Graph.stepNodes, h.ordered, ← h.nodes_eq]
  rfl

/-- A step that has been dealt with is an execution node of the graph. -/
theorem Emitted.mem_executionNodes (h : settings.Emitted g order steps) (hs : s ∈ steps) :
    s.node ∈ g.executionNodes := by
  have hmem : s.node ∈ order.filter isStep := h.nodes_eq ▸ List.mem_map_of_mem hs
  obtain ⟨horder, hstep⟩ := List.mem_filter.mp hmem
  have hneeded := (Graph.mem_executionOrder_iff h.accepted h.ordered).mp horder
  have hfound := hneeded.node?_id h.accepted
  exact Graph.mem_executionNodes_of_isStep (Graph.mem_of_node? hfound) hstep

/-- The environment of the step has been made from its description, and its process has it. -/
def Provisioned (settings : GenerationSettings) (p : Provisioners) (s : EmittedStep) : Prop :=
  ∃ (d : Disk) (h h' : Host),
    d.writeText (settings.descriptionPath s.name) (descriptionText s.node.attributes) =
      .ok h.disk ∧
    p.environment (s.name.text ++ "_env") (settings.descriptionPath s.name) h =
      (.ok s.process.runtime, h')

/-- What is reported about the environment of a step, and what environment its process has. -/
structure RuntimeAgrees (settings : GenerationSettings) (p : Provisioners) (g : Graph)
    (requests : List Request) (s : EmittedStep) : Prop where
  reported_iff : g.ReportedAs .runtimePresent s.node ↔
    Text.isBlank s.node.attributes.runtimeEnvironment = true ∧
      s.node.attributes.hasEnvironmentYaml = false
  /-- What the step declares is its environment, if it declares anything. -/
  declared : s.node.attributes.runtimeEnvironment ≠ "" →
    s.process.runtime = s.node.attributes.runtimeEnvironment
  /-- When it declares nothing and is not reported, its environment has been asked for and made. -/
  made : s.node.attributes.runtimeEnvironment = "" → ¬ g.ReportedAs .runtimePresent s.node →
    settings.Provisioned p s ∧
      .environment (s.name.text ++ "_env") (settings.descriptionPath s.name) ∈ requests
  /-- When it is not reported, its environment is not blank, unless it declares blanks. -/
  blank_iff : p.GivePaths → ¬ g.ReportedAs .runtimePresent s.node →
    (Text.isBlank s.process.runtime = true ↔ DeclaresBlanks s.node)

theorem Run.runtimeAgrees (hrun : settings.Run p input j g steps report j') (hs : s ∈ steps) :
    settings.RuntimeAgrees p g j'.requests s := by
  obtain ⟨order, hemitted⟩ := hrun.exists_emitted
  have hreported := Graph.reportedAs_runtimePresent_iff hemitted.accepted
    (hemitted.mem_executionNodes hs)
  obtain ⟨h, rs, h', hprovided, hsub⟩ := hrun.runtimeProvided hs
  rw [← hrun.runtime_eq hs] at hprovided
  generalize hruntime : s.process.runtime = runtime at hprovided
  cases hprovided with
  | declared hneeds =>
    -- a step that declares nothing has no description here, so it is reported
    have hmissing : s.node.attributes.runtimeEnvironment = "" →
        g.ReportedAs .runtimePresent s.node := by
      intro hempty
      refine hreported.mpr ⟨by rw [hempty]; rfl, ?_⟩
      rw [Attributes.hasEnvironmentYaml, decide_eq_false_iff_not]
      exact fun hyaml => hneeds ⟨hempty, hyaml⟩
    refine ⟨hreported, fun _ => hruntime, fun hempty hnot => absurd (hmissing hempty) hnot,
      fun _ hnot => ?_⟩
    rw [hruntime, DeclaresBlanks]
    exact (and_iff_right fun hempty => hnot (hmissing hempty)).symm
  | @made hneeds d d' _ _ _ hdescription hanswer =>
    refine ⟨hreported, fun hdeclared => absurd hneeds.1 hdeclared, fun _ _ => ?_, fun hp _ => ?_⟩
    · rw [← hruntime] at hanswer
      exact ⟨⟨d, { h with disk := d' }, h', hdescription, hanswer⟩,
        hsub (List.mem_singleton_self _)⟩
    · rw [hruntime, hp _ _ _ _ _ hanswer]
      exact iff_of_false Bool.false_ne_true fun hblanks => hblanks.1 hneeds.1

/-- The rule about environments and the emitter agree, but for steps that declare blanks.  A step
that is not reported has the environment that it declares, or one that has been made from its
description; and when the provisioners give paths, that environment is not blank. -/
theorem generate_runtimes (h : (settings.generate p input j).1 = .ok report) :
    ∃ g steps, settings.Run p input j g steps report (settings.generate p input j).2 ∧
      report.diagnostics = g.diagnostics ∧ g.stepNodes = .ok (steps.map EmittedStep.node) ∧
      ∀ s ∈ steps, settings.RuntimeAgrees p g (settings.generate p input j).2.requests s := by
  obtain ⟨g, steps, hrun⟩ := generate_ok (Prod.ext h rfl)
  obtain ⟨order, hemitted⟩ := hrun.exists_emitted
  exact ⟨g, steps, hrun, by rw [hrun.report_eq], hemitted.stepNodes_eq,
    fun s hs => hrun.runtimeAgrees hs⟩

/-! ### Three steps -/

/-- A step that declares nothing, one that declares its environment, and one that declares a blank.
The first one and the last one come with a description. -/
def blankDocument : Document := ⟨[⟨"", [
  { id := "b", kind := .execution, operator := some .r,
    attributes := { filename := some "b", environmentYaml := "dependencies" } },
  { id := "c", kind := .execution, operator := some .r,
    attributes := { filename := some "c", runtimeEnvironment := "e" } },
  { id := "d", kind := .execution, operator := some .r,
    attributes := {
      filename := some "d", runtimeEnvironment := " ", environmentYaml := "dependencies" } }]⟩]⟩

/-- The document as a text, with records as arrays. -/
def blankText : String :=
  "[[[\"\",[[\"b\",\"execution_node\",\"r-node\",[null,\"b\",\"\",\"dependencies\"]]," ++
  "[\"c\",\"execution_node\",\"r-node\",[null,\"c\",\"e\"]]," ++
  "[\"d\",\"execution_node\",\"r-node\",[null,\"d\",\" \",\"dependencies\"]]]]]]"

/-- A state with the document, and with a skeleton in an output directory. -/
def blankJournal : Journal where
  host := { disk := {
    children := [
      ("doc.json", .file blankText.toUTF8 false),
      ("out", .directory [("template.nf",
        .file (Text.unlines (Slot.all.map Slot.marker)).toUTF8 false)])]
    workingDirectory := [] } }

/-- Provisioners whose environments have a directory of their own. -/
def pathProvisioners : Provisioners where
  kernel _ family h := (.ok family.toText, h)
  environment name _ h := (.ok ("/envs/" ++ name), h)

theorem givePaths_pathProvisioners : pathProvisioners.GivePaths := by
  rintro name description h path h' ⟨⟩
  have hslash : '/' ∈ ("/envs/" ++ name).toList := by simp
  rw [Bool.eq_false_iff, ne_eq, Text.isBlank_iff]
  exact fun hblank => absurd (hblank '/' hslash) (by decide)

/-- The graph of the document. -/
def blankGraph : Graph := .ofDocument blankDocument Graph.defaultOutlet

theorem loadGraph_blankJournal :
    smallSettings.loadGraph "doc.json" blankJournal.host.disk = .ok blankGraph :=
  loadGraph_of_parse (Disk.readText_eq_ok_iff.mpr ⟨["doc.json"], false, rfl, rfl, rfl⟩)
    (eq_ok_of_toOption (by decide +kernel))

/-- What is reported of the project. -/
def blankReport : GenerationReport where
  main := "out/main.nf"
  modules := ["out/modules/bB.nf", "out/modules/cC.nf", "out/modules/dD.nf"]
  order := [⟨"bB"⟩, ⟨"cC"⟩, ⟨"dD"⟩]
  diagnostics := []

theorem generate_blankJournal :
    (smallSettings.generate pathProvisioners "doc.json" blankJournal).1 = .ok blankReport := by
  have hload : Journal.ask (smallSettings.loadGraph "doc.json") blankJournal =
      (.ok blankGraph, blankJournal) := Journal.ask_eq_ok_iff.mpr ⟨loadGraph_blankJournal, rfl⟩
  rw [generate, Act.bind_of_ok hload]
  exact eq_ok_of_toOption (by decide +kernel)

/-- Nothing is reported about the three steps, and only the one that declares a blank gets one for
its environment. -/
theorem generate_blankJournal_runtimes :
    (smallSettings.generate pathProvisioners "doc.json" blankJournal).1 = .ok blankReport ∧
    ∃ steps : List EmittedStep, steps.map EmittedStep.node = blankDocument.nodes ∧
      (∀ s ∈ steps, ¬ blankGraph.ReportedAs .runtimePresent s.node) ∧
      steps.map (fun s => Text.isBlank s.process.runtime) = [false, false, true] := by
  refine ⟨generate_blankJournal, ?_⟩
  obtain ⟨g, steps, hrun, hreports, hnodes, hagrees⟩ := generate_runtimes generate_blankJournal
  obtain rfl : g = blankGraph := Except.ok.inj (hrun.loaded.symm.trans loadGraph_blankJournal)
  have hall : blankGraph.stepNodes = .ok blankDocument.nodes := rfl
  have hsteps : steps.map EmittedStep.node = blankDocument.nodes :=
    Except.ok.inj (hnodes.symm.trans hall)
  have hnot : ∀ s ∈ steps, ¬ blankGraph.ReportedAs .runtimePresent s.node := by
    rintro s - ⟨d, hd, -⟩
    rw [← hreports] at hd
    cases hd
  have hblank : ∀ s ∈ steps,
      Text.isBlank s.process.runtime = decide (DeclaresBlanks s.node) := fun s hs =>
    Bool.eq_iff_iff.mpr (((hagrees s hs).blank_iff givePaths_pathProvisioners (hnot s hs)).trans
      decide_eq_true_iff.symm)
  refine ⟨steps, hsteps, hnot, ?_⟩
  calc steps.map (fun s => Text.isBlank s.process.runtime)
      = (steps.map EmittedStep.node).map fun n => decide (DeclaresBlanks n) := by
        rw [List.map_map]
        exact List.map_congr_left hblank
    _ = [false, false, true] := by
        rw [hsteps]
        rfl

end GenerationSettings

end Pipewright
