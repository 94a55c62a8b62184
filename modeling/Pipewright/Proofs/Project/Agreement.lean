import Pipewright.Proofs.Failures
import Pipewright.Proofs.Plan.Existence
import Pipewright.Proofs.Project.Kept
import Pipewright.Proofs.Project.Wiring

/-!
# Generating agrees with planning

Planning and generating go through the same steps, one only to tell them and the other to deal with
them.  When generating succeeds, so does planning, and the project is made of the plan.  When there
is no plan, nothing is generated: the workflow is not written.

* `EmittedStep.planned`: what the plan says of a step; `GenerationSettings.Emitted.plan_eq`: the
  steps that have been dealt with are those of the plan.
* `PlannedStep.composed`, `GenerationSettings.workflow_planned`: the body of the workflow is that of
  the plan.
* `GenerationSettings.Run.readText_main`: the workflow that is written.
* `GenerationSettings.exists_error_of_plan`, `GenerationSettings.file?_main_of_plan_error`: without
  a plan.
* `GenerationSettings.generate_agrees`: the main statement.
-/

namespace Pipewright

/-- What the plan says of a step that has been dealt with. -/
def EmittedStep.planned (s : EmittedStep) : PlannedStep where
  node := s.node.id
  name := s.name
  operator := (s.node.operator.map Operator.toText).getD ""
  bindings := s.bindings

/-- A step of a plan for the composition, which needs no more of it for the body of the workflow
than the name and the bindings. -/
def PlannedStep.composed (s : PlannedStep) : ComposedStep where
  name := s.name
  filename := ""
  runtime := ""
  cpu := none
  inputs := []
  outputs := []
  bindings := s.bindings

namespace GenerationSettings

variable {settings : GenerationSettings} {provisioners : Provisioners} {g : Graph} {n : Node}
  {order : List Node} {input : Path} {steps : List EmittedStep} {report : GenerationReport}
  {j j' : Journal} {e : Error}

/-! ## The steps are those of the plan -/

theorem EmittedAs.plannedAs {s : EmittedStep} (h : settings.EmittedAs g n s)
    (hstep : isStep n = true) : g.PlannedAs settings.policy n s.planned := by
  obtain ⟨operator, hoperator⟩ := Option.isSome_iff_exists.mp (Bool.and_eq_true_iff.mp hstep).2
  exact {
    node_eq := congrArg Node.id h.node_eq
    name_eq := h.name_eq
    operator_eq := by rw [EmittedStep.planned, h.node_eq, hoperator]; rfl
    bindings_eq := h.bindings_eq }

/-- The steps that have been dealt with are those of the plan. -/
theorem Emitted.plan_eq (h : settings.Emitted g order steps) :
    g.plan settings.policy = .ok (steps.map EmittedStep.planned) := by
  refine (Graph.plan_eq_ok_iff h.accepted).mpr ⟨order, h.ordered, ?_⟩
  rw [h.nodes_eq, List.forall₂_map_left_iff, List.forall₂_map_right_iff, List.forall₂_same]
  intro s hs
  have hmem : s.node ∈ order.filter isStep := h.nodes_eq ▸ List.mem_map_of_mem hs
  exact (h.emittedAs s hs).plannedAs (List.mem_filter.mp hmem).2

/-- The body of the workflow is composed of the plan. -/
theorem workflow_planned (steps : List EmittedStep) :
    (Composition.ofSteps (steps.map EmittedStep.composed)).sections.workflow =
      (Composition.ofSteps
        ((steps.map EmittedStep.planned).map PlannedStep.composed)).sections.workflow := by
  have hblocks : (Composition.ofSteps (steps.map EmittedStep.composed)).blocks =
      (Composition.ofSteps ((steps.map EmittedStep.planned).map PlannedStep.composed)).blocks := by
    rw [Composition.blocks_ofSteps, Composition.blocks_ofSteps, List.map_map, List.flatMap_map,
      List.flatMap_map]
    rfl
  rw [Composition.sections, Composition.sections, hblocks]

/-! ## The workflow that is written -/

/-- A file of the output directory can be read as before when another one has changed. -/
theorem readText_of_changed_file {d d' : Disk} {name other text : String} {place : Location}
    (hname : Path.Plain name) (hother : Path.Plain other) (hne : name ≠ other)
    (hplace : d.Names (settings.output.join other) place) (hd : Disk.ChangedAt {place} d d')
    (h : d.readText (settings.output.join name) = .ok text) :
    d'.readText (settings.output.join name) = .ok text := by
  refine Disk.readText_of_changedAt hd (fun q hq hmem => ?_) h
  obtain ⟨above, habove, rfl⟩ := hq.exists_leads hname
  obtain ⟨above', habove', rfl⟩ := hplace.exists_leads hother
  rw [habove.eq habove', Set.mem_singleton_iff] at hmem
  exact hne (List.cons.inj (List.append_cancel_left hmem)).1

/-- The workflow that has been written is there in the end, unless the document is kept in its
place. -/
theorem Run.readText_main (hrun : settings.Run provisioners input j g steps report j')
    (hinput : baseName input ≠ mainFile) : ∃ d skeleton, settings.loadSkeleton d = .ok skeleton ∧
      j'.host.disk.readText settings.mainPath = .ok
        (skeleton.render (Composition.ofSteps (steps.map EmittedStep.composed)).sections) := by
  obtain ⟨nodes, j₁, j₂, j₃, -, -, -, hmain, hkept⟩ := hrun.ran
  simp only [writeMain, Act.bind_eq_ok_iff, Journal.ask_eq_ok_iff, Journal.change_eq_ok_iff]
    at hmain
  obtain ⟨skeleton, _, ⟨hskeleton, rfl⟩, _, _, ⟨d, hwritten, rfl⟩, d', hremoved, rfl⟩ := hmain
  refine ⟨_, skeleton, hskeleton, ?_⟩
  have hread := Disk.readText_writeText hwritten
  obtain ⟨place, hplace, hchanged⟩ := Disk.changedAt_remove hremoved
  have hread' := readText_of_changed_file plain_mainFile plain_skeletonFile (by decide) hplace
    hchanged hread
  simp only [keepInput, Act.bind_eq_ok_iff, Act.get_eq_ok_iff] at hkept
  obtain ⟨_, _, ⟨rfl, rfl⟩, hkept⟩ := hkept
  split at hkept
  · obtain ⟨-, rfl⟩ := Act.pure_eq_ok_iff.mp hkept
    exact hread'
  · obtain ⟨d'', hcopied, rfl⟩ := Journal.change_eq_ok_iff.mp hkept
    obtain ⟨place', hplace', hends, hchanged'⟩ := Disk.changedAt_copyFile hcopied
    have hplain := Disk.plain_of_names_join hplace' (hchanged'.notDirectory place' rfl) hends
      (noSlash_baseName input)
    exact readText_of_changed_file plain_mainFile hplain hinput.symm hplace' hchanged' hread'

/-! ## Without a plan -/

/-- Loading the graph of the document at a path, and planning it. -/
def loadPlan (settings : GenerationSettings) (input : Path) (d : Disk) :
    Except Error (List PlannedStep) := do
  (← settings.loadGraph input d).plan settings.policy

/-- What has been generated has been planned. -/
theorem Run.loadPlan_eq (hrun : settings.Run provisioners input j g steps report j') :
    settings.loadPlan input j.host.disk = .ok (steps.map EmittedStep.planned) := by
  obtain ⟨order, hemitted⟩ := hrun.exists_emitted
  exact bind_eq_ok_iff.mpr ⟨g, hrun.loaded, hemitted.plan_eq⟩

/-- Without a plan, generating fails. -/
theorem exists_error_of_plan_error (h : settings.loadPlan input j.host.disk = .error e) :
    ∃ e', (settings.generate provisioners input j).1 = .error e' := by
  rcases hrun : settings.generate provisioners input j with ⟨e' | report, j'⟩
  · exact ⟨e', rfl⟩
  · obtain ⟨g, steps, hrun⟩ := generate_ok hrun
    rw [hrun.loadPlan_eq] at h
    cases h

/-- Once the directory of the modules has been made, the output directory is there. -/
theorem exists_leads_of_made
    (h : Journal.files (DiskAct.makeDirectories settings.modulesPath) j = (.ok (), j')) :
    ∃ above, j'.host.disk.Leads settings.output above := by
  obtain ⟨d, hmade, rfl⟩ := Journal.files_eq_ok_iff.mp h
  obtain ⟨inner, hinner⟩ := DiskAct.leads_of_makeDirectories (Path.join_ne_empty plain_modulesDirectory) hmade
  obtain ⟨above, habove, -⟩ := hinner.exists_leads plain_modulesDirectory
  exact ⟨above, habove⟩

/-- Where generating can stop before it comes to the workflow: at the start, while directories are
made, or while steps are dealt with. -/
inductive Stopped (settings : GenerationSettings) (provisioners : Provisioners) (j : Journal) :
    Journal → Prop where
  | start : Stopped settings provisioners j j
  | making {e : Error} {j' : Journal}
      (h : Journal.files (DiskAct.makeDirectories settings.modulesPath) j = (.error e, j')) :
      Stopped settings provisioners j j'
  | dealing {g : Graph} {nodes : List Node} {e : Error} {j₁ j' : Journal}
      (hmade : Journal.files (DiskAct.makeDirectories settings.modulesPath) j = (.ok (), j₁))
      (h : settings.emitSteps provisioners g [] nodes j₁ = (.error e, j')) :
      Stopped settings provisioners j j'

theorem stopped_of_plan_error (h : settings.loadPlan input j.host.disk = .error e) :
    settings.Stopped provisioners j (settings.generate provisioners input j).2 := by
  rcases hload : settings.loadGraph input j.host.disk with e₁ | g
  · have hasked : Journal.ask (settings.loadGraph input) j = (.error e₁, j) :=
      Journal.ask_eq_error_iff.mpr ⟨hload, rfl⟩
    rw [generate, Act.bind_of_error hasked]
    exact .start
  have hasked : Journal.ask (settings.loadGraph input) j = (.ok g, j) :=
    Journal.ask_eq_ok_iff.mpr ⟨hload, rfl⟩
  have hplan : g.plan settings.policy = .error e := by
    rw [loadPlan, hload] at h
    exact h
  rw [generate, Act.bind_of_ok hasked]
  rcases horder : g.executionOrder with e₁ | order
  · rw [Graph.stepNodes, horder]
    exact .start
  have hnodes : g.stepNodes = .ok (order.filter isStep) := by
    rw [Graph.stepNodes, horder]
    rfl
  rw [hnodes, Act.settle_ok_bind]
  rcases hmade : Journal.files (DiskAct.makeDirectories settings.modulesPath) j with ⟨e₁ | u, j₁⟩
  · rw [Act.bind_of_error hmade]
    exact .making hmade
  rw [Act.bind_of_ok hmade]
  rcases hsteps : settings.emitSteps provisioners g [] (order.filter isStep) j₁ with
    ⟨e₁ | steps, j₂⟩
  · rw [Act.bind_of_error hsteps]
    exact .dealing hmade hsteps
  · -- dealing with all steps would make a plan
    have hemitted := emitted_of_emitSteps (accepted_of_loadGraph hload) horder hsteps
    rw [hemitted.plan_eq] at hplan
    cases hplan

/-- Where generating has stopped before the workflow, the workflow is what it was. -/
theorem Stopped.file?_main (h : settings.Stopped provisioners j j')
    (hp : provisioners.Along (Disk.Keeps settings.output mainFile)) {q : Location}
    (hq : j.host.disk.Names settings.mainPath q ∨ j'.host.disk.Names settings.mainPath q) :
    j'.host.disk.file? q = j.host.disk.file? q := by
  have hmake : Disk.ChangedAt ∅ j.host.disk
      (Journal.files (DiskAct.makeDirectories settings.modulesPath) j).2.host.disk :=
    DiskAct.changedAt_makeDirectories _ _
  cases h with
  | start => rfl
  | making h =>
    rw [h] at hmake
    exact hmake.file? q (Set.notMem_empty q)
  | @dealing g nodes e j₁ _ hmade h =>
    rw [hmade] at hmake
    obtain ⟨place, hplace⟩ := exists_leads_of_made hmade
    have hkept : Disk.Keeps settings.output mainFile j₁.host.disk
        (settings.emitSteps provisioners g [] nodes j₁).2.host.disk :=
      along_emitSteps (permits_keeps settings mainFile) hp nodes j₁
    rw [h] at hkept
    rw [← hmake.file? q (Set.notMem_empty q)]
    rcases hq with hq | hq
    · obtain ⟨above, habove, rfl⟩ := hq.exists_leads plain_mainFile
      exact Disk.file?_eq_of_keeps hkept hplace (.inl (habove.of_changedAt hmake))
    · obtain ⟨above, habove, rfl⟩ := hq.exists_leads plain_mainFile
      exact Disk.file?_eq_of_keeps hkept hplace (.inr habove)

/-! ## The main statement -/

/-- Generating agrees with planning.  When it succeeds, the graph that is loaded has a plan, of
which the project is made: the modules in its order, and the body of the workflow that is written.
When there is no plan, generating fails and the workflow is not written. -/
theorem generate_agrees (settings : GenerationSettings) (provisioners : Provisioners)
    (input : Path) (j : Journal) :
    (∀ report, (settings.generate provisioners input j).1 = .ok report →
      ∃ g plan steps, settings.Run provisioners input j g steps report
          (settings.generate provisioners input j).2 ∧
        settings.loadGraph input j.host.disk = .ok g ∧ g.plan settings.policy = .ok plan ∧
        report.order = plan.map PlannedStep.name ∧
        report.modules = plan.map (fun s => settings.modulePath s.name) ∧
        report.diagnostics = g.diagnostics ∧
        (Composition.ofSteps (steps.map EmittedStep.composed)).sections.workflow =
          (Composition.ofSteps (plan.map PlannedStep.composed)).sections.workflow ∧
        (baseName input ≠ mainFile → ∃ d skeleton, settings.loadSkeleton d = .ok skeleton ∧
          (settings.generate provisioners input j).2.host.disk.readText settings.mainPath = .ok
            (skeleton.render (Composition.ofSteps (steps.map EmittedStep.composed)).sections))) ∧
    ∀ e, settings.loadPlan input j.host.disk = .error e →
      (∃ e', (settings.generate provisioners input j).1 = .error e') ∧
      (provisioners.Along (Disk.Keeps settings.output mainFile) →
        ∀ q, j.host.disk.Names settings.mainPath q ∨
            (settings.generate provisioners input j).2.host.disk.Names settings.mainPath q →
          (settings.generate provisioners input j).2.host.disk.file? q = j.host.disk.file? q) := by
  constructor
  · intro report hreport
    obtain ⟨g, steps, hrun⟩ := generate_ok (Prod.ext hreport rfl)
    obtain ⟨order, hemitted⟩ := hrun.exists_emitted
    refine ⟨g, _, steps, hrun, hrun.loaded, hemitted.plan_eq, ?_, ?_, ?_, workflow_planned steps,
      hrun.readText_main⟩
    · rw [hrun.report_eq, List.map_map]
      rfl
    · rw [hrun.report_eq, List.map_map]
      exact List.map_congr_left fun s hs => (hemitted.emittedAs s hs).modulePath_eq
    · rw [hrun.report_eq]
  · intro e h
    exact ⟨exists_error_of_plan_error h, fun hp q hq => (stopped_of_plan_error h).file?_main hp hq⟩

/-! ### The small document, and one with a circle -/

/-- A state with a document whose links lead in a circle, and an output directory. -/
def circleJournal : Journal where
  host := { disk := {
    children := [
      ("doc.json", .file Graph.circleText.toUTF8 false),
      ("out", .directory [("main.nf", .file "kept".toUTF8 false)])]
    workingDirectory := [] } }

theorem loadPlan_circleJournal : smallSettings.loadPlan "doc.json" circleJournal.host.disk =
    .error (.cyclicGraph "a" ["a", "b", "a"]) := by
  have hload : smallSettings.loadGraph "doc.json" circleJournal.host.disk = .ok Graph.circleGraph :=
    loadGraph_of_parse (Disk.readText_eq_ok_iff.mpr ⟨["doc.json"], false, rfl, rfl, rfl⟩)
      Graph.parse_circleText
  rw [loadPlan, hload]
  rfl

/-- The project of the small document is that of its plan; for the circle none is generated, and
what stands in the place of the workflow stays. -/
theorem generate_smallJournal_agrees :
    (∃ plan, smallGraph.plan .firstMatch = .ok plan ∧
      smallReport.order = plan.map PlannedStep.name ∧
      ∃ d skeleton sections, smallSettings.loadSkeleton d = .ok skeleton ∧
        sections.workflow =
          (Composition.ofSteps (plan.map PlannedStep.composed)).sections.workflow ∧
        (smallSettings.generate idleProvisioners "doc.json" smallJournal).2.host.disk.readText
          "out/main.nf" = .ok (skeleton.render sections)) ∧
    (∃ e, (smallSettings.generate idleProvisioners "doc.json" circleJournal).1 = .error e) ∧
    (smallSettings.generate idleProvisioners "doc.json" circleJournal).2.host.disk.file?
      ["out", "main.nf"] = some ("kept".toUTF8, false) := by
  constructor
  · obtain ⟨hok, -⟩ := generate_agrees smallSettings idleProvisioners "doc.json" smallJournal
    obtain ⟨g, plan, steps, -, hload, hplan, horder, -, -, hworkflow, hmain⟩ :=
      hok smallReport generate_smallJournal
    obtain rfl : g = smallGraph := Except.ok.inj (hload.symm.trans loadGraph_smallDisk)
    obtain ⟨d, skeleton, hskeleton, hread⟩ := hmain (by decide)
    exact ⟨plan, hplan, horder, d, skeleton, _, hskeleton, hworkflow, hread⟩
  · obtain ⟨-, herror⟩ := generate_agrees smallSettings idleProvisioners "doc.json" circleJournal
    obtain ⟨hfails, hkept⟩ := herror _ loadPlan_circleJournal
    refine ⟨hfails, hkept ⟨fun _ _ h => ?_, fun _ _ h => ?_⟩ _ (.inl rfl)⟩
    · exact refl_of _ h.disk
    · exact refl_of _ h.disk

end GenerationSettings

end Pipewright
