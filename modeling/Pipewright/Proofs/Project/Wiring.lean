import Pipewright.Proofs.Composition.Sections
import Pipewright.Proofs.Project.Modules
import Pipewright.Proofs.Step.Bindings

/-!
# The wiring of a generated project

The binder numbers the inputs of a step, the emitter declares as many and numbers the outputs, and
the composition puts both into lines of the workflow.  These numbers agree.  Each step has one import
and one call, the call has the variables that have been assigned just for it, and a variable that
takes its files from an output of another process takes them from the output that is the input file,
of a step that has been called earlier.

* `GenerationSettings.exists_producer`: the step that a wired input comes from.
* `GenerationSettings.Wired`: how the lines of the workflow fit the process of a step.
* `GenerationSettings.generate_wired`: every step of a generated project is wired.
-/

namespace Pipewright

namespace GenerationSettings

variable {settings : GenerationSettings} {provisioners : Provisioners} {g : Graph}
  {order : List Node} {j j' : Journal} {steps before after : List EmittedStep}
  {s t : EmittedStep}

namespace Emitted

variable (h : settings.Emitted g order steps)
include h

theorem lettered (hs : s ∈ steps) : s.name.Lettered :=
  StepName.lettered_of (h.emittedAs s hs).name_eq

/-- The suppliers of a step are the steps before it that its data links lead to. -/
theorem exists_step_of_supplier (hsplit : steps = before ++ s :: after) {suppliers : List Supplier}
    (hnamed : (g.stepSources s.node).mapM Supplier.named = .ok suppliers) {u : Supplier}
    (hu : u ∈ suppliers) : ∃ t ∈ before, u = Supplier.of t.node t.name := by
  obtain ⟨v, hv, hsource⟩ := exists_mem_of_forall₂ (mapM_eq_ok_iff.mp hnamed) hu
  have hnodes := h.nodes_eq
  rw [hsplit, List.map_append, List.map_cons] at hnodes
  -- the links of a step lead back in the order, so what they lead to is a step before
  have hback := Graph.linksBack_executionOrder h.accepted h.ordered
  have hdone := Graph.mem_of_mem_stepSources hback hnodes hv
  obtain ⟨t, ht, hnode⟩ := List.mem_map.mp hdone
  have hname := (h.emittedAs t (hsplit ▸ List.mem_append_left _ ht)).name_eq
  obtain ⟨name, hname', heq⟩ := bind_eq_ok_iff.mp hsource
  rw [← hnode, hname] at hname'
  cases hname'
  refine ⟨t, ht, ?_⟩
  rw [← Except.ok.inj heq, hnode]

/-- A wired input comes from a step before, whose process declares the input file at the place that
the binding names. -/
theorem exists_producer (hsplit : steps = before ++ s :: after) {b : Binding} (hb : b ∈ s.bindings)
    {p : Producer} (hsource : b.source = .wired p) :
    ∃ t ∈ before, t.name.label = p.process ∧
      (b.filename, p.output) ∈ t.process.outputs.zipIdx 1 := by
  have hs : s ∈ steps := by simp [hsplit]
  obtain ⟨suppliers, hnamed, hbindings⟩ := (h.emittedAs s hs).bindings_eq
  obtain ⟨u, hu, hprocess, houtput⟩ := exists_supplier_of_wired hbindings hb hsource
  obtain ⟨t, ht, rfl⟩ := h.exists_step_of_supplier hsplit hnamed hu
  obtain ⟨more, hmore⟩ := (h.emittedAs t (hsplit ▸ List.mem_append_left _ ht)).outputs_eq
  refine ⟨t, ht, hprocess.symm, ?_⟩
  rw [hmore, List.zipIdx_append]
  exact List.mem_append_left _ houtput

/-- The lines of the steps can be told apart. -/
theorem proper : ∀ c ∈ steps.map EmittedStep.composed, c.Proper := by
  intro c hc
  obtain ⟨s, hs, rfl⟩ := List.mem_map.mp hc
  refine ⟨h.lettered hs, fun b hb p hp => ?_⟩
  obtain ⟨before, after, hsplit⟩ := List.append_of_mem hs
  obtain ⟨t, ht, hlabel, -⟩ := h.exists_producer hsplit hb hp
  have hlettered := h.lettered (hsplit ▸ List.mem_append_left _ ht)
  rw [← hlabel]
  exact fun c hc => hlettered.isAlphanum_of_mem_label hc

theorem positions_eq (hs : s ∈ steps) : s.bindings.map Binding.position =
    List.range' 1 s.node.attributes.inputFiles.length := by
  obtain ⟨suppliers, -, hbindings⟩ := (h.emittedAs s hs).bindings_eq
  exact positions_of_bindInputs hbindings

end Emitted

/-! ## The lines of a step -/

/-- How the lines composed for the skeleton fit the process of a step: what the workflow includes,
calls and assigns under the name of the step is what its process declares. -/
structure Wired (sections : Sections) (steps : List EmittedStep) (s : EmittedStep) : Prop where
  /-- One line includes the process, and takes it from the module that is named after the step. -/
  included : sections.imports.filter (Text.begins ("include  \x7b " ++ s.name.label ++ " \x7d")) =
    ["include  \x7b " ++ s.name.label ++ " \x7d from \"./modules/" ++ s.name.text ++ "\""]
  label_eq : s.process.label = s.name.label
  /-- One line calls the process, with a variable for each input file of the node. -/
  called : sections.workflow.filter (Text.begins (s.name.label ++ "(")) = [s.composed.callLine]
  callLine_eq : s.composed.callLine = s.name.label ++ "(" ++ String.intercalate ", "
    ((List.range' 1 s.node.attributes.inputFiles.length).map s.name.channel) ++ ")"
  inputCount_eq : s.process.inputCount = s.node.attributes.inputFiles.length
  /-- One line assigns each of the variables, before the call. -/
  assigned : ∀ i ∈ List.range' 1 s.node.attributes.inputFiles.length, ∃ statement,
    sections.workflow.filter (Text.begins (s.name.channel i ++ "=")) = [statement] ∧
      [statement, s.composed.callLine].Sublist sections.workflow
  /-- An output that a variable is assigned from is that of one step, which has been called before
  and whose process declares the input file there. -/
  wired : ∀ i process output, ∀ line ∈ sections.workflow,
    line = s.name.channel i ++ "=" ++ process ++ ".out.output" ++ Text.decimal output ++
      ".collect()" →
    ∃ t, steps.filter (fun u => u.name.label = process) = [t] ∧
      [t.composed.callLine, line].Sublist sections.workflow ∧
      ∃ file, (file, i) ∈ s.node.attributes.inputFiles.zipIdx 1 ∧
        (file, output) ∈ t.process.outputs.zipIdx 1

namespace Emitted

section Lines

variable (h : settings.Emitted g order steps)
include h

/-- The call of a process has a variable for each input file. -/
theorem callLine_eq (hs : s ∈ steps) : s.composed.callLine =
    s.name.label ++ "(" ++ String.intercalate ", "
      ((List.range' 1 s.node.attributes.inputFiles.length).map s.name.channel) ++ ")" := by
  rw [← h.positions_eq hs, List.map_map]
  rfl

/-- A line about a step before another one stands before a line about the latter. -/
theorem sublist_of_split (hsplit : steps = before ++ s :: after) (ht : t ∈ before)
    {line line' : String} (hline : line ∈ t.composed.workflowLines)
    (hline' : line' ∈ s.composed.workflowLines) :
    [line, line'].Sublist
      (Composition.ofSteps (steps.map EmittedStep.composed)).sections.workflow := by
  refine List.Sublist.trans ?_ (Composition.sublist_workflow h.proper)
  have hfirst : line ∈ (before.map EmittedStep.composed).flatMap ComposedStep.workflowLines :=
    List.mem_flatMap.mpr ⟨_, List.mem_map_of_mem ht, hline⟩
  rw [hsplit, List.map_append, List.map_cons, List.flatMap_append, List.flatMap_cons]
  exact (List.singleton_sublist.mpr hfirst).append
    (List.singleton_sublist.mpr (List.mem_append_left _ hline'))

/-- The lines about a step stand together in the workflow. -/
theorem workflowLines_sublist (hs : s ∈ steps) : s.composed.workflowLines.Sublist
    (Composition.ofSteps (steps.map EmittedStep.composed)).sections.workflow := by
  refine List.Sublist.trans ?_ (Composition.sublist_workflow h.proper)
  obtain ⟨before, after, rfl⟩ := List.append_of_mem hs
  rw [List.map_append, List.map_cons, List.flatMap_append, List.flatMap_cons]
  exact (List.sublist_append_left _ _).trans (List.sublist_append_right _ _)

end Lines

section Wiring

variable (h : settings.Emitted g order steps)
  (hnodup : (steps.map fun s => s.name.label).Nodup) (hs : s ∈ steps)
include h hnodup hs

/-- The lines that assign the variable of an input are the declarations of the bindings at its
position. -/
theorem filter_channels (i : Nat) :
    (Composition.ofSteps (steps.map EmittedStep.composed)).sections.workflow.filter
        (Text.begins (s.name.channel i ++ "=")) =
      (s.bindings.filter fun b => b.position = i).map fun b => b.statement s.name :=
  Composition.filter_channels (s := s.composed) h.proper (by rwa [List.map_map])
    (List.mem_map_of_mem hs) i

/-- Each input of a step is assigned once, before the call. -/
theorem exists_statement {i : Nat}
    (hi : i ∈ List.range' 1 s.node.attributes.inputFiles.length) : ∃ statement,
    (Composition.ofSteps (steps.map EmittedStep.composed)).sections.workflow.filter
        (Text.begins (s.name.channel i ++ "=")) = [statement] ∧
      [statement, s.composed.callLine].Sublist
        (Composition.ofSteps (steps.map EmittedStep.composed)).sections.workflow := by
  have hpositions : (s.bindings.map Binding.position).Nodup := by
    rw [h.positions_eq hs]
    exact List.nodup_range'
  rw [← h.positions_eq hs] at hi
  obtain ⟨b, hb, rfl⟩ := List.mem_map.mp hi
  refine ⟨b.statement s.name, ?_, ?_⟩
  · rw [h.filter_channels hnodup hs, filter_eq_singleton_of_nodup hpositions hb]
    rfl
  · refine List.Sublist.trans ?_ (h.workflowLines_sublist hs)
    have hstatement : b.statement s.name ∈ s.composed.channelLines := List.mem_map_of_mem hb
    exact (List.singleton_sublist.mpr hstatement).append (List.Sublist.refl [s.composed.callLine])

/-- An input that is assigned from an output of a process comes from a step before, whose process
declares the input file there. -/
theorem exists_step_of_line {i output : Nat} {process line : String}
    (hmem : line ∈ (Composition.ofSteps (steps.map EmittedStep.composed)).sections.workflow)
    (hline : line = s.name.channel i ++ "=" ++ process ++ ".out.output" ++ Text.decimal output ++
      ".collect()") :
    ∃ t, steps.filter (fun u => u.name.label = process) = [t] ∧
      [t.composed.callLine, line].Sublist
        (Composition.ofSteps (steps.map EmittedStep.composed)).sections.workflow ∧
      ∃ file, (file, i) ∈ s.node.attributes.inputFiles.zipIdx 1 ∧
        (file, output) ∈ t.process.outputs.zipIdx 1 := by
  have hbegins : Text.begins (s.name.channel i ++ "=") line = true := by
    rw [hline]
    simp only [String.append_assoc, Text.begins_append_left_iff]
    exact Text.begins_append_self _ _
  have hfound := List.mem_filter.mpr ⟨hmem, hbegins⟩
  rw [h.filter_channels hnodup hs] at hfound
  obtain ⟨b, hfiltered, hstatement⟩ := List.mem_map.mp hfound
  obtain ⟨hb, hposition⟩ := List.mem_filter.mp hfiltered
  obtain rfl := of_decide_eq_true hposition
  have hsource := ComposedStep.source_of_statement_eq (hstatement.trans hline)
  obtain ⟨before, after, hsplit⟩ := List.append_of_mem hs
  obtain ⟨t, ht, hlabel, houtput⟩ := h.exists_producer hsplit hb hsource
  have ht' : t ∈ steps := hsplit ▸ List.mem_append_left _ ht
  refine ⟨t, ?_, ?_, b.filename, ?_, houtput⟩
  · rw [← show t.name.label = process from hlabel]
    exact filter_eq_singleton_of_nodup hnodup ht'
  · refine h.sublist_of_split hsplit ht (List.mem_append_right _ (List.mem_singleton_self _)) ?_
    exact List.mem_append_left _ (List.mem_map.mpr ⟨b, hb, hstatement⟩)
  · obtain ⟨suppliers, -, hbindings⟩ := (h.emittedAs s hs).bindings_eq
    exact (binding_of_bindInputs hbindings hb).1

/-- One line of the imports includes the process of a step. -/
theorem filter_imports :
    (Composition.ofSteps (steps.map EmittedStep.composed)).sections.imports.filter
        (Text.begins ("include  \x7b " ++ s.name.label ++ " \x7d")) =
      ["include  \x7b " ++ s.name.label ++ " \x7d from \"./modules/" ++ s.name.text ++ "\""] := by
  have hlines := Composition.filter_imports h.proper (by rwa [List.map_map])
    (List.mem_map_of_mem hs)
  rw [StepName.includeStart, ComposedStep.importLine] at hlines
  exact hlines

/-- One line of the body calls the process of a step. -/
theorem filter_calls :
    (Composition.ofSteps (steps.map EmittedStep.composed)).sections.workflow.filter
        (Text.begins (s.name.label ++ "(")) = [s.composed.callLine] :=
  Composition.filter_calls (s := s.composed) h.proper (by rwa [List.map_map])
    (List.mem_map_of_mem hs)

/-- The lines of the composition fit the process of each step. -/
theorem wired : Wired (Composition.ofSteps (steps.map EmittedStep.composed)).sections steps s where
  included := h.filter_imports hnodup hs
  label_eq := (h.emittedAs s hs).label_eq
  called := h.filter_calls hnodup hs
  callLine_eq := h.callLine_eq hs
  inputCount_eq := by
    have hlength := congrArg List.length (h.positions_eq hs)
    rw [List.length_map, List.length_range'] at hlength
    rw [(h.emittedAs s hs).inputCount_eq, hlength]
  assigned i hi := h.exists_statement hnodup hs hi
  wired i process output line hmem hline := h.exists_step_of_line hnodup hs hmem hline

end Wiring

end Emitted

/-! ## Generated projects -/

/-- In a generated project whose processes have different labels, every step is wired: the lines
that have been composed for the skeleton fit its process, and the module that they take it from holds
that process, so long as the provisioners leave the modules alone. -/
theorem generate_wired {input : Path} {report : GenerationReport}
    (h : (settings.generate provisioners input j).1 = .ok report) :
    ∃ g steps,
      settings.Run provisioners input j g steps report (settings.generate provisioners input j).2 ∧
      g.stepNodes = .ok (steps.map EmittedStep.node) ∧
      ((steps.map fun s => s.name.label).Nodup → ∀ s ∈ steps,
        Wired (Composition.ofSteps (steps.map EmittedStep.composed)).sections steps s ∧
        (provisioners.LeaveAlone settings.modulesPath →
          (settings.generate provisioners input j).2.host.disk.readText
            (settings.modulePath s.name) = .ok s.process.render)) := by
  obtain ⟨g, steps, hrun⟩ := generate_ok (Prod.ext h rfl)
  obtain ⟨order, hemitted⟩ := hrun.exists_emitted
  refine ⟨g, steps, hrun, ?_, fun hnodup s hs => ⟨hemitted.wired hnodup hs, fun hp => ?_⟩⟩
  · rw [Graph.stepNodes, hemitted.ordered, ← hemitted.nodes_eq]
    rfl
  · have hnames : (steps.map EmittedStep.name).Nodup := by
      have hlabels : (steps.map EmittedStep.name).map StepName.label =
          steps.map fun s => s.name.label := List.map_map
      exact List.Nodup.of_map _ (hlabels ▸ hnodup)
    exact hrun.readText_module hp hnames hs (hemitted.lettered hs)

/-! ## The project of the small document -/

/-- A disk with the small document, and with a skeleton of three lines in an output directory. -/
def smallDisk : Disk where
  children := [
    ("doc.json", .file smallText.toUTF8 false),
    ("out", .directory [("template.nf",
      .file (Text.unlines (Slot.all.map Slot.marker)).toUTF8 false)])]
  workingDirectory := []

/-- The state before the project of the small document is generated. -/
def smallJournal : Journal where
  host := { disk := smallDisk }

/-- The settings with the output directory of the small disk. -/
def smallSettings : GenerationSettings where
  output := "out"

/-- Provisioners that have an answer and do nothing. -/
def idleProvisioners : Provisioners where
  kernel _ family h := (.ok family.toText, h)
  environment name _ h := (.ok name, h)

theorem leaveAlone_idleProvisioners (directory : Path) : idleProvisioners.LeaveAlone directory where
  kernel _ _ _ _ _ h := h
  environment _ _ _ _ _ h := h

/-- What is reported of the project of the small document. -/
def smallReport : GenerationReport where
  main := "out/main.nf"
  modules := ["out/modules/bB.nf", "out/modules/dD.nf"]
  order := [⟨"bB"⟩, ⟨"dD"⟩]
  diagnostics := smallGraph.diagnostics

theorem loadGraph_smallDisk : smallSettings.loadGraph "doc.json" smallDisk = .ok smallGraph :=
  loadGraph_of_parse (Disk.readText_eq_ok_iff.mpr ⟨["doc.json"], false, rfl, rfl, rfl⟩)
    parse_smallText

theorem generate_smallJournal :
    (smallSettings.generate idleProvisioners "doc.json" smallJournal).1 = .ok smallReport := by
  have hload : Journal.ask (smallSettings.loadGraph "doc.json") smallJournal =
      (.ok smallGraph, smallJournal) := Journal.ask_eq_ok_iff.mpr ⟨loadGraph_smallDisk, rfl⟩
  rw [generate, Act.bind_of_ok hload]
  exact eq_ok_of_toOption (by decide +kernel)

/-- The two steps of the small document are wired, and their modules hold their processes. -/
theorem generate_smallJournal_wired :
    (smallSettings.generate idleProvisioners "doc.json" smallJournal).1 = .ok smallReport ∧
    ∃ steps : List EmittedStep, steps.map EmittedStep.name = [⟨"bB"⟩, ⟨"dD"⟩] ∧
      ∀ s ∈ steps,
        Wired (Composition.ofSteps (steps.map EmittedStep.composed)).sections steps s ∧
        (smallSettings.generate idleProvisioners "doc.json" smallJournal).2.host.disk.readText
          (smallSettings.modulePath s.name) = .ok s.process.render := by
  refine ⟨generate_smallJournal, ?_⟩
  obtain ⟨g, steps, hrun, -, hwired⟩ := generate_wired generate_smallJournal
  have hnames : steps.map EmittedStep.name = [⟨"bB"⟩, ⟨"dD"⟩] :=
    (congrArg GenerationReport.order hrun.report_eq).symm
  have hnodup : (steps.map fun s => s.name.label).Nodup := by
    have hlabels : (steps.map EmittedStep.name).map StepName.label =
        steps.map fun s => s.name.label := List.map_map
    rw [← hlabels, hnames]
    decide
  refine ⟨steps, hnames, fun s hs => ?_⟩
  obtain ⟨hs, hmodule⟩ := hwired hnodup s hs
  exact ⟨hs, hmodule (leaveAlone_idleProvisioners _)⟩

end GenerationSettings

end Pipewright
