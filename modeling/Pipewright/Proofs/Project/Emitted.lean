import Pipewright.Project.Generate
import Pipewright.Proofs.Plan.Planned
import Pipewright.Proofs.Runs

/-!
# Steps that have been dealt with

When generating succeeds, each step of the execution order has been dealt with in its turn.  What
has become of a step is told by the graph but for what the provisioners have answered: the name, the
file and the bindings of the step, and the label, the inputs and the declared outputs of its process.

* `Emission.processFor_ok`: what the process of a step has in common with other processes.
* `GenerationSettings.StepRun`, `GenerationSettings.emitStep_ok`: dealing with one step.
* `GenerationSettings.EmittedAs`: what the graph says of a step that has been dealt with.
* `GenerationSettings.emitSteps_ok`: all steps, one for each node.
* `GenerationSettings.Run`, `GenerationSettings.generate_ok`: the run as a whole.
* `GenerationSettings.Emitted`, `GenerationSettings.Run.exists_emitted`: the steps and their nodes.
-/

namespace Pipewright

/-! ## Processes -/

/-- Whatever the operator, a process tells the label and the inputs of its step and starts with the
declared outputs. -/
theorem Emission.processFor_ok {e : Emission} {s : StepSource} {j j' : Journal} {p : ProcessModule}
    (h : e.processFor s j = (.ok p, j')) : ∃ command more, p = s.processOf command more := by
  rw [processFor] at h
  rcases hoperator : s.node.operator with _ | (_ | _ | _ | word) <;> rw [hoperator] at h
  · cases h
  · obtain ⟨rfl, -⟩ := Act.pure_eq_ok_iff.mp h
    exact ⟨_, _, rfl⟩
  · obtain ⟨rfl, -⟩ := Act.pure_eq_ok_iff.mp h
    exact ⟨_, _, rfl⟩
  · obtain ⟨family, j₁, -, h⟩ := Act.bind_eq_ok_iff.mp h
    obtain ⟨kernel, j₂, -, h⟩ := Act.bind_eq_ok_iff.mp h
    obtain ⟨rfl, -⟩ := Act.pure_eq_ok_iff.mp h
    exact ⟨_, _, rfl⟩
  · cases h

namespace GenerationSettings

variable {settings : GenerationSettings} {provisioners : Provisioners} {g : Graph} {n : Node}
  {order done : List Node} {handled : Handled} {j j' : Journal} {step : EmittedStep}

/-! ## One step -/

/-- Dealing with a step has taken its course: all that is known of the step has been settled or
answered, and in the end its module has been written. -/
structure StepRun (settings : GenerationSettings) (provisioners : Provisioners) (g : Graph)
    (handled : Handled) (n : Node) (j : Journal) (step : EmittedStep) (j' : Journal) : Prop where
  node_eq : step.node = n
  name_eq : StepName.of n = .ok step.name
  filename_eq : settings.sourcePath n = .ok step.filename
  bindings_eq : g.bindStep settings.policy handled n step.name = .ok step.bindings
  modulePath_eq : step.modulePath = settings.modulePath step.name
  ran : ∃ j₁ j₂, settings.runtimeFor provisioners n step.name j = (.ok step.runtime, j₁) ∧
    (settings.emission provisioners).processFor
      ⟨n, step.name, step.filename, step.runtime, step.bindings.length⟩ j₁ =
        (.ok step.process, j₂) ∧
    Journal.change (fun d => d.writeText step.modulePath step.process.render) j₂ = (.ok (), j')

theorem emitStep_ok (h : settings.emitStep provisioners g handled n j = (.ok step, j')) :
    settings.StepRun provisioners g handled n j step j' := by
  simp only [emitStep, Act.bind_eq_ok_iff, Act.settle_eq_ok_iff, Act.pure_eq_ok_iff] at h
  obtain ⟨name, _, ⟨hname, rfl⟩, filename, _, ⟨hfilename, rfl⟩, runtime, j₁, hruntime, bindings, _,
    ⟨hbindings, rfl⟩, process, j₂, hprocess, _, _, hwrite, rfl, rfl⟩ := h
  exact ⟨rfl, hname, hfilename, hbindings, rfl, _, _, hruntime, hprocess, hwrite⟩

/-- The step of a node as the graph tells it, once it has been dealt with. -/
structure EmittedAs (settings : GenerationSettings) (g : Graph) (n : Node) (step : EmittedStep) :
    Prop where
  node_eq : step.node = n
  name_eq : StepName.of n = .ok step.name
  filename_eq : settings.sourcePath n = .ok step.filename
  bindings_eq : ∃ suppliers, (g.stepSources n).mapM Supplier.named = .ok suppliers ∧
    bindInputs n step.name suppliers settings.policy = .ok step.bindings
  label_eq : step.process.label = step.name.label
  inputCount_eq : step.process.inputCount = step.bindings.length
  outputs_eq : ∃ more, step.process.outputs = n.attributes.outputFiles ++ more
  modulePath_eq : step.modulePath = settings.modulePath step.name

theorem StepRun.emittedAs (h : settings.StepRun provisioners g handled n j step j')
    (hg : g.Accepted) (horder : g.executionOrder = .ok order) {rest : List Node}
    (hsplit : order.filter isStep = done ++ n :: rest) (hdone : handled.Records done) :
    settings.EmittedAs g n step := by
  obtain ⟨suppliers, hnamed, heq⟩ :=
    Graph.bindStep_eq hg horder hsplit hdone settings.policy step.name
  obtain ⟨j₁, j₂, -, hprocess, -⟩ := h.ran
  obtain ⟨command, more, hp⟩ := Emission.processFor_ok hprocess
  exact {
    node_eq := h.node_eq
    name_eq := h.name_eq
    filename_eq := h.filename_eq
    bindings_eq := ⟨suppliers, hnamed, heq ▸ h.bindings_eq⟩
    label_eq := by rw [hp]; rfl
    inputCount_eq := by rw [hp]; rfl
    outputs_eq := ⟨more, by rw [hp]; rfl⟩
    modulePath_eq := h.modulePath_eq }

/-! ## All steps -/

/-- Dealing with steps deals with the first one, and then with the others. -/
theorem emitSteps_cons_ok {rest : List Node} {steps : List EmittedStep}
    (h : settings.emitSteps provisioners g handled (n :: rest) j = (.ok steps, j')) :
    ∃ step others j₁, steps = step :: others ∧
      settings.StepRun provisioners g handled n j step j₁ ∧
      settings.emitSteps provisioners g ((n.id, step.name) :: handled) rest j₁ =
        (.ok others, j') := by
  simp only [emitSteps, Act.bind_eq_ok_iff, Act.pure_eq_ok_iff] at h
  obtain ⟨step, j₁, hstep, others, j₂, hothers, rfl, rfl⟩ := h
  exact ⟨step, others, j₁, rfl, emitStep_ok hstep, hothers⟩

/-- The steps are dealt with as the graph tells them, one for each node. -/
theorem emitSteps_ok (hg : g.Accepted) (horder : g.executionOrder = .ok order) {todo : List Node}
    (hsplit : order.filter isStep = done ++ todo) (hdone : handled.Records done)
    {steps : List EmittedStep}
    (h : settings.emitSteps provisioners g handled todo j = (.ok steps, j')) :
    List.Forall₂ (settings.EmittedAs g) todo steps := by
  induction todo generalizing done handled j steps with
  | nil =>
    obtain ⟨rfl, -⟩ := Act.pure_eq_ok_iff.mp h
    exact .nil
  | cons n rest ih =>
    obtain ⟨step, others, j₁, rfl, hstep, hothers⟩ := emitSteps_cons_ok h
    have hemitted := hstep.emittedAs hg horder hsplit hdone
    have hdone' := hdone.concat hemitted.name_eq (Graph.id_notMem_of_split hg horder hsplit)
    exact .cons hemitted (ih (by rw [hsplit, List.append_assoc]; rfl) hdone' hothers)

/-! ## The whole -/

/-- Generating has taken its course: the graph has been loaded, the steps of its order have been
dealt with, and from these the workflow has been composed and written. -/
structure Run (settings : GenerationSettings) (provisioners : Provisioners) (input : Path)
    (j : Journal) (g : Graph) (steps : List EmittedStep) (report : GenerationReport)
    (j' : Journal) : Prop where
  loaded : settings.loadGraph input j.host.disk = .ok g
  report_eq : report = {
    main := settings.mainPath
    modules := steps.map EmittedStep.modulePath
    order := steps.map EmittedStep.name
    diagnostics := g.diagnostics }
  ran : ∃ nodes j₁ j₂ j₃, g.stepNodes = .ok nodes ∧
    Journal.files (DiskAct.makeDirectories settings.modulesPath) j = (.ok (), j₁) ∧
    settings.emitSteps provisioners g [] nodes j₁ = (.ok steps, j₂) ∧
    settings.writeMain (Composition.ofSteps (steps.map EmittedStep.composed)) j₂ = (.ok (), j₃) ∧
    settings.keepInput input j₃ = (.ok (), j')

theorem generate_ok {input : Path} {report : GenerationReport}
    (h : settings.generate provisioners input j = (.ok report, j')) :
    ∃ g steps, settings.Run provisioners input j g steps report j' := by
  simp only [generate, Act.bind_eq_ok_iff, Journal.ask_eq_ok_iff, Act.settle_eq_ok_iff,
    Act.pure_eq_ok_iff] at h
  obtain ⟨g, _, ⟨hg, rfl⟩, nodes, _, ⟨hnodes, rfl⟩, _, j₁, hmade, steps, j₂, hsteps, _, j₃, hmain,
    _, j₄, hkept, rfl, rfl⟩ := h
  exact ⟨g, steps, hg, rfl, nodes, _, _, _, hnodes, hmade, hsteps, hmain, hkept⟩

/-- A graph that has been loaded is that of a document. -/
theorem accepted_of_loadGraph {input : Path} {d : Disk} (h : settings.loadGraph input d = .ok g) :
    g.Accepted := by
  obtain ⟨document, hdocument, h⟩ := bind_eq_ok_iff.mp h
  obtain ⟨source, -, hparse⟩ := bind_eq_ok_iff.mp hdocument
  cases h
  exact ⟨source, document, hparse, rfl⟩

/-- The graph of a document whose text can be read and is one is loaded. -/
theorem loadGraph_of_parse {input : Path} {d : Disk} {source : String} {document : Document}
    (hread : d.readText input = .ok source) (hparse : Document.parse source = .ok document) :
    settings.loadGraph input d = .ok (.ofDocument document settings.dataOutlet) := by
  have hdocument : loadDocument input d = .ok document :=
    bind_eq_ok_iff.mpr ⟨source, by rw [hread]; rfl, hparse⟩
  exact bind_eq_ok_iff.mpr ⟨document, hdocument, rfl⟩

/-- The steps are those of the nodes that are steps, in execution order, each one as the graph tells
it. -/
structure Emitted (settings : GenerationSettings) (g : Graph) (order : List Node)
    (steps : List EmittedStep) : Prop where
  accepted : g.Accepted
  ordered : g.executionOrder = .ok order
  nodes_eq : order.filter isStep = steps.map EmittedStep.node
  emittedAs : ∀ s ∈ steps, settings.EmittedAs g s.node s

theorem emitted_of_emitSteps (hg : g.Accepted) (horder : g.executionOrder = .ok order)
    {steps : List EmittedStep}
    (h : settings.emitSteps provisioners g [] (order.filter isStep) j = (.ok steps, j')) :
    settings.Emitted g order steps := by
  have hall := emitSteps_ok hg horder (List.nil_append _).symm .nil h
  refine ⟨hg, horder, ?_, fun s hs => ?_⟩
  · rw [← List.forall₂_eq_eq_eq, List.forall₂_map_right_iff]
    exact hall.imp fun n s h => h.node_eq.symm
  · obtain ⟨n, -, hemitted⟩ := exists_mem_of_forall₂ hall hs
    rwa [← hemitted.node_eq] at hemitted

theorem Run.exists_emitted {input : Path} {steps : List EmittedStep} {report : GenerationReport}
    (h : settings.Run provisioners input j g steps report j') :
    ∃ order, settings.Emitted g order steps := by
  obtain ⟨nodes, j₁, j₂, j₃, hnodes, -, hsteps, -, -⟩ := h.ran
  obtain ⟨order, horder, hfilter⟩ := bind_eq_ok_iff.mp hnodes
  cases hfilter
  exact ⟨order, emitted_of_emitSteps (accepted_of_loadGraph h.loaded) horder hsteps⟩

end GenerationSettings

end Pipewright
