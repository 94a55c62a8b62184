import Pipewright.Proofs.Alike
import Pipewright.Proofs.Project.EntryFiles

/-!
# Generating side by side

Two runs of generating that both succeed, from hosts that are alike outside the output directory and
with the same skeleton, keep step: whatever the output directory holds besides, they read the same
document, deal with the same steps and write the same texts.

* `GenerationSettings.runtimeFor_alike`, `GenerationSettings.processFor_alike`: what depends on the
  provisioners and on the notebooks.
* `GenerationSettings.StepRun.alike`, `GenerationSettings.emitSteps_alike`: dealing with steps.
* `GenerationSettings.writeMain_alike`, `GenerationSettings.keepInput_alike`: finishing the project.
* `GenerationSettings.Run.alike`: the two runs as a whole.
-/

namespace Pipewright

namespace GenerationSettings

open Disk

variable {settings : GenerationSettings} {p p' : Provisioners} {base : Disk}
  {Commands : List Command → List Command → Prop} {written : Set Path} {g : Graph} {n : Node}
  {handled : Handled} {m : StepName} {j j' k k' : Journal} {step step' : EmittedStep}

/-! ## Places of a project -/

theorem prefix_placeOf_below {d : Disk} {directory file : String} (hdirectory : Path.Plain directory)
    (hfile : Path.Plain file) :
    d.placeOf settings.output <+: d.placeOf ((settings.output.join directory).join file) :=
  (prefix_placeOf_join hdirectory _).trans (prefix_placeOf_join hfile _)

/-- Paths that name the same have the same place. -/
theorem placeOf_of_samePlace {d : Disk} {q r : Path} (h : d.samePlace q r = true) :
    d.placeOf q = d.placeOf r := by
  rw [samePlace] at h
  split at h
  · next a _ b _ hq hr =>
    obtain ⟨hq, -, -⟩ := found_eq_ok_iff.mp hq
    obtain ⟨hr, -, -⟩ := found_eq_ok_iff.mp hr
    rw [← hq.eq_placeOf, ← hr.eq_placeOf]
    exact of_decide_eq_true h
  · cases h

/-! ## One step -/

/-- The language of a notebook outside the output directory is the same. -/
theorem notebookLanguage_alike {d d' : Disk} {file : Path} {language language' : Option String}
    (hfile : ¬ base.placeOf settings.output <+: base.placeOf file)
    (h : Disk.Alike base settings.output written d d')
    (hread : notebookLanguage file d = .ok language)
    (hread' : notebookLanguage file d' = .ok language') : language' = language := by
  rw [notebookLanguage] at hread hread'
  split at hread
  · next text htext =>
    split at hread'
    · next text' htext' =>
      obtain rfl := h.readText_eq (.inr hfile) htext htext'
      exact Except.ok.inj (hread'.symm.trans hread)
    · cases hread'
  · cases hread

/-- The kernel of a notebook outside the output directory is of the same family. -/
theorem family_alike {s : StepSource} {mapping : KernelMapping} {d d' : Disk}
    {family family' : KernelFamily}
    (hfile : ¬ base.placeOf settings.output <+: base.placeOf s.filename)
    (h : Disk.Alike base settings.output written d d') (hfamily : s.family mapping d = .ok family)
    (hfamily' : s.family mapping d' = .ok family') : family' = family := by
  obtain ⟨language, hlanguage, hrest⟩ := bind_eq_ok_iff.mp hfamily
  obtain ⟨language', hlanguage', hrest'⟩ := bind_eq_ok_iff.mp hfamily'
  obtain rfl := notebookLanguage_alike hfile h (mapError_eq_ok_iff.mp hlanguage)
    (mapError_eq_ok_iff.mp hlanguage')
  exact Except.ok.inj (hrest'.symm.trans hrest)

section Steps

variable (hagree : p.Agree p' base settings.output Commands)
include hagree

/-- On hosts that are alike the environment of a step is the same, and they stay alike. -/
theorem runtimeFor_alike {runtime runtime' : String} (hm : m.Lettered)
    (h : j.host.Alike base settings.output Commands written j'.host)
    (hrun : settings.runtimeFor p n m j = (.ok runtime, k))
    (hrun' : settings.runtimeFor p' n m j' = (.ok runtime', k')) :
    runtime' = runtime ∧ k.host.Alike base settings.output Commands written k'.host := by
  rw [runtimeFor] at hrun hrun'
  split at hrun
  · next hgiven =>
    rw [if_pos hgiven] at hrun'
    obtain ⟨rfl, rfl⟩ := Act.pure_eq_ok_iff.mp hrun
    obtain ⟨rfl, rfl⟩ := Act.pure_eq_ok_iff.mp hrun'
    exact ⟨rfl, h⟩
  · next hgiven =>
    rw [if_neg hgiven] at hrun'
    simp only [Act.bind_eq_ok_iff, Journal.files_eq_ok_iff, Journal.change_eq_ok_iff,
      Journal.environment_eq_ok_iff] at hrun hrun'
    obtain ⟨_, _, ⟨d, hmade, rfl⟩, _, _, ⟨e, hwritten, rfl⟩, i, hanswer, rfl⟩ := hrun
    obtain ⟨_, _, ⟨d', hmade', rfl⟩, _, _, ⟨e', hwritten', rfl⟩, i', hanswer', rfl⟩ := hrun'
    have hdescribed : Disk.Alike base settings.output
        (insert (settings.descriptionPath m) written) e e' :=
      (h.disk.makeDirectories (prefix_placeOf_join plain_environmentsDirectory _) hmade
        hmade').writeText
        (prefix_placeOf_below plain_environmentsDirectory (plain_descriptionFile hm)) hwritten
        hwritten'
    -- the description is the same, and so is what is made from it
    have hasked : Host.Alike base settings.output Commands
        (insert (settings.descriptionPath m) written) ⟨e, j.host.commands⟩ ⟨e', j'.host.commands⟩ :=
      ⟨hdescribed, h.commands⟩
    obtain ⟨rfl, hafter⟩ :=
      hagree.environment_alike (Set.mem_insert _ written) hasked hanswer hanswer'
    exact ⟨rfl, hafter.disk.mono (Set.subset_insert _ _), hafter.commands⟩

/-- On hosts that are alike the process of a step is the same, and they stay alike, so long as the
notebook and the environment of a notebook step are outside the output directory. -/
theorem processFor_alike {s : StepSource} {process process' : ProcessModule}
    (hnotebook : s.node.operator = some .notebook →
      ¬ base.placeOf settings.output <+: base.placeOf s.filename ∧
        ¬ base.placeOf settings.output <+: base.placeOf s.runtime)
    (h : j.host.Alike base settings.output Commands written j'.host)
    (hrun : (settings.emission p).processFor s j = (.ok process, k))
    (hrun' : (settings.emission p').processFor s j' = (.ok process', k')) :
    process' = process ∧ k.host.Alike base settings.output Commands written k'.host := by
  rw [Emission.processFor] at hrun hrun'
  rcases hoperator : s.node.operator with _ | (_ | _ | _ | word) <;>
    rw [hoperator] at hrun hrun'
  · cases hrun
  · obtain ⟨rfl, rfl⟩ := Act.pure_eq_ok_iff.mp hrun
    obtain ⟨rfl, rfl⟩ := Act.pure_eq_ok_iff.mp hrun'
    exact ⟨rfl, h⟩
  · obtain ⟨rfl, rfl⟩ := Act.pure_eq_ok_iff.mp hrun
    obtain ⟨rfl, rfl⟩ := Act.pure_eq_ok_iff.mp hrun'
    exact ⟨rfl, h⟩
  · obtain ⟨hfile, hruntime⟩ := hnotebook hoperator
    simp only [Emission.notebookProcess, Act.bind_eq_ok_iff, Journal.ask_eq_ok_iff,
      Journal.kernel_eq_ok_iff, Act.pure_eq_ok_iff] at hrun hrun'
    obtain ⟨family, j₁, ⟨hfamily, rfl⟩, kernel, _, ⟨i, hanswer, rfl⟩, rfl,
      rfl⟩ := hrun
    obtain ⟨family', j₁', ⟨hfamily', rfl⟩, kernel', _, ⟨i', hanswer', rfl⟩, rfl,
      rfl⟩ := hrun'
    obtain rfl := family_alike hfile h.disk hfamily hfamily'
    obtain ⟨rfl, hafter⟩ := hagree.kernel_alike hruntime h hanswer hanswer'
    exact ⟨rfl, hafter⟩
  · cases hrun

/-- Dealing with a step on hosts that are alike deals with the same step, writes the same module,
and keeps them alike. -/
theorem StepRun.alike (hrun : settings.StepRun p g handled n j step k)
    (hrun' : settings.StepRun p' g handled n j' step' k')
    (hnotebook : step.node.operator = some .notebook →
      ¬ base.placeOf settings.output <+: base.placeOf step.filename ∧
        ¬ base.placeOf settings.output <+: base.placeOf step.runtime)
    (h : j.host.Alike base settings.output Commands written j'.host) :
    step' = step ∧
      k.host.Alike base settings.output Commands (insert step.modulePath written) k'.host := by
  have hnode : step'.node = step.node := hrun'.node_eq.trans hrun.node_eq.symm
  have hname : step'.name = step.name := Except.ok.inj (hrun'.name_eq.symm.trans hrun.name_eq)
  have hfile : step'.filename = step.filename :=
    Except.ok.inj (hrun'.filename_eq.symm.trans hrun.filename_eq)
  have hbindings : step'.bindings = step.bindings := by
    have hbound := hrun'.bindings_eq
    rw [hname, hrun.bindings_eq] at hbound
    exact (Except.ok.inj hbound).symm
  have hpath : step'.modulePath = step.modulePath := by
    rw [hrun'.modulePath_eq, hname, hrun.modulePath_eq]
  have hlettered := StepName.lettered_of hrun.name_eq
  obtain ⟨j₁, j₂, hruntime, hprocess, hwrite⟩ := hrun.ran
  obtain ⟨j₁', j₂', hruntime', hprocess', hwrite'⟩ := hrun'.ran
  rw [hname] at hruntime'
  obtain ⟨hsame, h₁⟩ := runtimeFor_alike hagree hlettered h hruntime hruntime'
  rw [hname, hfile, hbindings, hsame] at hprocess'
  rw [hrun.node_eq] at hnotebook
  obtain ⟨hmade, h₂⟩ := processFor_alike hagree hnotebook h₁ hprocess hprocess'
  rw [hpath, hmade] at hwrite'
  obtain ⟨d, hwritten, rfl⟩ := Journal.change_eq_ok_iff.mp hwrite
  obtain ⟨d', hwritten', rfl⟩ := Journal.change_eq_ok_iff.mp hwrite'
  have hbelow : base.placeOf settings.output <+: base.placeOf step.modulePath := by
    rw [hrun.modulePath_eq]
    exact prefix_placeOf_below plain_modulesDirectory (plain_moduleFile hlettered)
  refine ⟨?_, h₂.disk.writeText hbelow hwritten hwritten', h₂.commands⟩
  cases step
  cases step'
  rw [EmittedStep.mk.injEq]
  exact ⟨hnode, hname, hfile, hsame, hbindings, hmade, hpath⟩

/-- Dealing with steps on hosts that are alike deals with the same steps, writes the same modules, and
keeps them alike. -/
theorem emitSteps_alike {nodes : List Node} {steps steps' : List EmittedStep}
    (hrun : settings.emitSteps p g handled nodes j = (.ok steps, k))
    (hrun' : settings.emitSteps p' g handled nodes j' = (.ok steps', k'))
    (hnotebooks : ∀ s ∈ steps, s.node.operator = some .notebook →
      ¬ base.placeOf settings.output <+: base.placeOf s.filename ∧
        ¬ base.placeOf settings.output <+: base.placeOf s.runtime)
    (h : j.host.Alike base settings.output Commands written j'.host) :
    steps' = steps ∧ k.host.Alike base settings.output Commands
      (written ∪ {q | q ∈ steps.map EmittedStep.modulePath}) k'.host := by
  induction nodes generalizing handled j j' steps steps' written with
  | nil =>
    obtain ⟨rfl, rfl⟩ := Act.pure_eq_ok_iff.mp hrun
    obtain ⟨rfl, rfl⟩ := Act.pure_eq_ok_iff.mp hrun'
    exact ⟨rfl, by simpa using h⟩
  | cons n rest ih =>
    obtain ⟨step, others, j₁, rfl, hstep, hothers⟩ := emitSteps_cons_ok hrun
    obtain ⟨step', others', j₁', rfl, hstep', hothers'⟩ := emitSteps_cons_ok hrun'
    obtain ⟨hfirst, hrest⟩ := List.forall_mem_cons.mp hnotebooks
    obtain ⟨rfl, h₁⟩ := hstep.alike hagree hstep' hfirst h
    obtain ⟨rfl, h₂⟩ := ih hothers hothers' hrest h₁
    have hwritten : written ∪ {q | q ∈ (step' :: others').map EmittedStep.modulePath} =
        insert step'.modulePath written ∪ {q | q ∈ others'.map EmittedStep.modulePath} := by
      ext q
      simp [or_left_comm, or_assoc]
    rw [hwritten]
    exact ⟨rfl, h₂⟩

end Steps

/-! ## Finishing the project -/

section Finish

variable (h : j.host.Alike base settings.output Commands written j'.host)
include h

/-- Filling the same skeleton writes the same workflow. -/
theorem writeMain_alike {composition : Composition} (hskeleton : settings.skeletonPath ∈ written)
    (hrun : settings.writeMain composition j = (.ok (), k))
    (hrun' : settings.writeMain composition j' = (.ok (), k')) :
    k.host.Alike base settings.output Commands {q ∈ insert settings.mainPath written |
      base.placeOf q ≠ base.placeOf settings.skeletonPath} k'.host := by
  simp only [writeMain, Act.bind_eq_ok_iff, Journal.ask_eq_ok_iff, Journal.change_eq_ok_iff]
    at hrun hrun'
  obtain ⟨skeleton, i, ⟨hload, rfl⟩, _, _, ⟨d, hwritten, rfl⟩, e, hremoved, rfl⟩ := hrun
  obtain ⟨skeleton', i', ⟨hload', rfl⟩, _, _, ⟨d', hwritten', rfl⟩, e', hremoved', rfl⟩ := hrun'
  obtain rfl : skeleton' = skeleton := by
    obtain ⟨source, hread, hparse⟩ := bind_eq_ok_iff.mp hload
    obtain ⟨source', hread', hparse'⟩ := bind_eq_ok_iff.mp hload'
    obtain rfl := h.disk.readText_eq (.inl hskeleton) (mapError_eq_ok_iff.mp hread)
      (mapError_eq_ok_iff.mp hread')
    exact Except.ok.inj (hparse'.symm.trans hparse)
  have hmain := h.disk.writeText (prefix_placeOf_join plain_mainFile settings.output) hwritten
    hwritten'
  exact ⟨hmain.remove (prefix_placeOf_join plain_skeletonFile settings.output) hremoved hremoved',
    h.commands⟩

/-- A document from outside the output directory is copied there. -/
theorem keepInput_alike {input : Path} (hname : Path.Plain (baseName input))
    (hinput : ¬ base.placeOf settings.output <+: base.placeOf input)
    (hrun : settings.keepInput input j = (.ok (), k))
    (hrun' : settings.keepInput input j' = (.ok (), k')) :
    k.host.Alike base settings.output Commands written k'.host := by
  have hkept : base.placeOf settings.output <+: base.placeOf (settings.keptPath input) :=
    prefix_placeOf_join hname settings.output
  have hother : ∀ {d : Disk}, (∀ q, d.placeOf q = base.placeOf q) →
      d.samePlace input (settings.keptPath input) = false := by
    intro d hd
    rw [Bool.eq_false_iff]
    intro hsame
    have hplace := placeOf_of_samePlace hsame
    rw [hd, hd] at hplace
    rw [hplace] at hinput
    exact hinput hkept
  simp only [keepInput, Act.bind_eq_ok_iff, Act.get_eq_ok_iff] at hrun hrun'
  obtain ⟨i, _, ⟨rfl, rfl⟩, hrun⟩ := hrun
  obtain ⟨i', _, ⟨rfl, rfl⟩, hrun'⟩ := hrun'
  rw [hother h.disk.placeOf_eq] at hrun
  rw [hother h.disk.placeOf_eq'] at hrun'
  obtain ⟨d, hcopied, rfl⟩ := Journal.change_eq_ok_iff.mp hrun
  obtain ⟨d', hcopied', rfl⟩ := Journal.change_eq_ok_iff.mp hrun'
  exact ⟨(h.disk.copyFile hinput hkept hcopied hcopied').mono (Set.subset_insert _ _), h.commands⟩

end Finish

/-! ## The whole -/

/-- The text of a document whose graph is loaded is read. -/
theorem exists_text_of_loadGraph {input : Path} {d : Disk}
    (h : settings.loadGraph input d = .ok g) : ∃ source document, d.readText input = .ok source ∧
      Document.parse source = .ok document ∧ g = .ofDocument document settings.dataOutlet := by
  obtain ⟨document, hdocument, hg⟩ := bind_eq_ok_iff.mp h
  obtain ⟨source, hread, hparse⟩ := bind_eq_ok_iff.mp hdocument
  cases hg
  exact ⟨source, document, mapError_eq_ok_iff.mp hread, hparse, rfl⟩

/-- The graph of a document from outside the output directory is the same. -/
theorem loadGraph_alike {input : Path} {g' : Graph} {d d' : Disk}
    (hinput : ¬ base.placeOf settings.output <+: base.placeOf input)
    (h : Disk.Alike base settings.output written d d') (hload : settings.loadGraph input d = .ok g)
    (hload' : settings.loadGraph input d' = .ok g') : g' = g := by
  obtain ⟨source, document, hread, hparse, rfl⟩ := exists_text_of_loadGraph hload
  obtain ⟨source', document', hread', hparse', rfl⟩ := exists_text_of_loadGraph hload'
  obtain rfl := h.readText_eq (.inr hinput) hread hread'
  rw [Except.ok.inj (hparse'.symm.trans hparse)]

/-- The modules are not where the skeleton is. -/
theorem placeOf_module_ne_skeleton (hm : m.Lettered) :
    base.placeOf (settings.modulePath m) ≠ base.placeOf settings.skeletonPath := by
  rw [modulePath, placeOf_join (plain_moduleFile hm), modulesPath,
    placeOf_join plain_modulesDirectory, skeletonPath, placeOf_join plain_skeletonFile,
    List.append_assoc]
  intro hplace
  exact absurd (congrArg List.length (List.append_cancel_left hplace)) (by simp)

theorem placeOf_main_ne_skeleton :
    base.placeOf settings.mainPath ≠ base.placeOf settings.skeletonPath := by
  rw [mainPath, placeOf_join plain_mainFile, skeletonPath, placeOf_join plain_skeletonFile]
  intro hplace
  exact absurd (List.cons.inj (List.append_cancel_left hplace)).1 (by decide)

/-- Two runs from hosts that are alike, with the same skeleton, report the same, and in the end the
workflow and the modules have the same bytes. -/
theorem Run.alike {input : Path} {g' : Graph} {steps steps' : List EmittedStep}
    {report report' : GenerationReport}
    (hrun : settings.Run p input j g steps report k)
    (hrun' : settings.Run p' input j' g' steps' report' k')
    (hagree : p.Agree p' base settings.output Commands)
    (hinput : ¬ base.placeOf settings.output <+: base.placeOf input)
    (hnotebooks : ∀ s ∈ steps, s.node.operator = some .notebook →
      ¬ base.placeOf settings.output <+: base.placeOf s.filename ∧
        ¬ base.placeOf settings.output <+: base.placeOf s.runtime)
    (h : j.host.Alike base settings.output Commands {settings.skeletonPath} j'.host) :
    report' = report ∧ k.host.Alike base settings.output Commands
      {q | q ∈ report.main :: report.modules} k'.host := by
  obtain ⟨source, -, hread, -, -⟩ := exists_text_of_loadGraph hrun.loaded
  obtain rfl := loadGraph_alike hinput h.disk hrun.loaded hrun'.loaded
  obtain ⟨order, hemitted⟩ := hrun.exists_emitted
  obtain ⟨nodes, j₁, j₂, j₃, hnodes, hmade, hsteps, hmain, hkept⟩ := hrun.ran
  obtain ⟨nodes', j₁', j₂', j₃', hnodes', hmade', hsteps', hmain', hkept'⟩ := hrun'.ran
  obtain rfl : nodes' = nodes := Except.ok.inj (hnodes'.symm.trans hnodes)
  obtain ⟨d, hdirectory, rfl⟩ := Journal.files_eq_ok_iff.mp hmade
  obtain ⟨d', hdirectory', rfl⟩ := Journal.files_eq_ok_iff.mp hmade'
  have h₁ : Host.Alike base settings.output Commands {settings.skeletonPath}
      ⟨d, j.host.commands⟩ ⟨d', j'.host.commands⟩ :=
    ⟨h.disk.makeDirectories (prefix_placeOf_join plain_modulesDirectory settings.output) hdirectory
      hdirectory', h.commands⟩
  obtain ⟨rfl, h₂⟩ := emitSteps_alike hagree hsteps hsteps' hnotebooks h₁
  have h₃ := writeMain_alike h₂ (.inl rfl) hmain hmain'
  have h₄ := keepInput_alike h₃ (plain_baseName hread) hinput hkept hkept'
  obtain rfl : report' = report := by rw [hrun.report_eq, hrun'.report_eq]
  refine ⟨rfl, h₄.disk.mono ?_, h₄.commands⟩
  rw [hrun.report_eq]
  intro q hq
  rcases List.mem_cons.mp hq with rfl | hq
  · exact ⟨.inl rfl, placeOf_main_ne_skeleton⟩
  · refine ⟨.inr (.inr hq), ?_⟩
    obtain ⟨s, hs, rfl⟩ := List.mem_map.mp hq
    rw [(hemitted.emittedAs s hs).modulePath_eq]
    exact placeOf_module_ne_skeleton (hemitted.lettered hs)

end GenerationSettings

end Pipewright
