import Pipewright.Proofs.Disk.Paths
import Pipewright.Proofs.Project.Emitted
import Pipewright.Proofs.Step.Names

/-!
# Modules stay as they have been written

The files of a project are at places of their own: the modules and the descriptions of environments
in two directories below the output directory, and the other files in the output directory itself.
All of them are reached by way of the output directory, so whatever path leads to that directory,
two files of the project are at one place only if they have the same names behind it.  What is
written after a module therefore does not touch it, and neither may the provisioners.

* `Provisioners.LeaveAlone`: what provides kernels and environments leaves a directory alone.
* `GenerationSettings.exists_place_module`: the place of a module.
* `GenerationSettings.readText_module_of_changedAt`: a module after a change elsewhere.
* `GenerationSettings.Run.readText_module`: the modules of a generated project.
-/

namespace Pipewright

/-! ## Provisioners that keep away -/

/-- After the action, files of the directory can be read as they could before. -/
def Host.LeavesAlone {α : Type} (directory : Path) (action : Act Host α) : Prop :=
  ∀ (h : Host) (name text : String), h.disk.readText (directory.join name) = .ok text →
    (action h).2.disk.readText (directory.join name) = .ok text

theorem Host.LeavesAlone.readText_of_run {α : Type} {directory : Path} {action : Act Host α}
    (ha : Host.LeavesAlone directory action) {h h' : Host} {result : Except Error α}
    (hrun : action h = (result, h')) {name text : String}
    (hread : h.disk.readText (directory.join name) = .ok text) :
    h'.disk.readText (directory.join name) = .ok text := by
  have hafter := ha h name text hread
  rwa [hrun] at hafter

/-- Neither of the provisioners touches the files of the directory. -/
structure Provisioners.LeaveAlone (provisioners : Provisioners) (directory : Path) : Prop where
  kernel : ∀ runtime family, Host.LeavesAlone directory (provisioners.kernel runtime family)
  environment : ∀ name description,
    Host.LeavesAlone directory (provisioners.environment name description)

namespace GenerationSettings

variable {settings : GenerationSettings} {provisioners : Provisioners} {g : Graph} {n : Node}
  {handled : Handled} {d d' : Disk} {j j' : Journal} {place : Location} {name m : StepName}
  {step : EmittedStep} {text : String}

/-! ## Places -/

theorem plain_of_append_extension (hname : name.Lettered) {extension : String}
    (hslash : '/' ∉ extension.toList) (hlength : 2 < extension.toList.length) :
    Path.Plain (name.text ++ extension) := by
  have hlong : ∀ special : String, special.toList.length ≤ 2 →
      name.text ++ extension ≠ special := by
    intro special hspecial heq
    rw [← heq, String.toList_append, List.length_append] at hspecial
    omega
  refine ⟨?_, hlong "" (by decide), hlong "." (by decide), hlong ".." (by decide)⟩
  rw [String.toList_append, List.mem_append, not_or]
  exact ⟨fun hmem => absurd (hname _ hmem) (by decide), hslash⟩

theorem plain_moduleFile (hname : name.Lettered) : Path.Plain (name.text ++ ".nf") :=
  plain_of_append_extension hname (by decide) (by decide)

theorem plain_descriptionFile (hname : name.Lettered) :
    Path.Plain (environmentName name ++ ".yaml") := by
  have htext : environmentName name ++ ".yaml" = name.text ++ "_env.yaml" := by
    rw [environmentName, String.append_assoc]
    rfl
  rw [htext]
  exact plain_of_append_extension hname (by decide) (by decide)

theorem plain_modulesDirectory : Path.Plain modulesDirectory :=
  ⟨by decide, by decide, by decide, by decide⟩

theorem plain_environmentsDirectory : Path.Plain environmentsDirectory :=
  ⟨by decide, by decide, by decide, by decide⟩

theorem plain_mainFile : Path.Plain mainFile :=
  ⟨by decide, by decide, by decide, by decide⟩

theorem plain_skeletonFile : Path.Plain skeletonFile :=
  ⟨by decide, by decide, by decide, by decide⟩

/-- A file in a directory of the output directory is two names below the latter. -/
theorem exists_place_of_names {directory file : String} (hdirectory : Path.Plain directory)
    (hfile : Path.Plain file) (h : d.Names ((settings.output.join directory).join file) place) :
    ∃ above, d.Leads settings.output above ∧ place = above ++ [directory, file] := by
  obtain ⟨inner, hinner, rfl⟩ := h.exists_leads hfile
  obtain ⟨above, habove, rfl⟩ := hinner.exists_leads hdirectory
  exact ⟨above, habove, by rw [List.append_assoc, List.singleton_append]⟩

/-- The place of a module. -/
theorem exists_place_module (hname : name.Lettered) (h : d.Names (settings.modulePath name) place) :
    ∃ above, d.Leads settings.output above ∧
      place = above ++ [modulesDirectory, name.text ++ ".nf"] :=
  exists_place_of_names plain_modulesDirectory (plain_moduleFile hname) h

/-! ## Modules after a change -/

/-- A module can be read as before when something has changed elsewhere. -/
theorem readText_module_of_changedAt (hname : name.Lettered) (hd : Disk.ChangedAt {place} d d')
    (hplace : ∀ above, d.Leads settings.output above →
      place ≠ above ++ [modulesDirectory, name.text ++ ".nf"])
    (h : d.readText (settings.modulePath name) = .ok text) :
    d'.readText (settings.modulePath name) = .ok text := by
  refine Disk.readText_of_changedAt hd (fun q hq heq => ?_) h
  obtain ⟨above, habove, rfl⟩ := exists_place_module hname hq
  exact hplace above habove (Set.mem_singleton_iff.mp heq).symm

/-- Writing a file in a directory of the output directory leaves the modules with other names as
they are. -/
theorem readText_module_of_write_below (hname : name.Lettered) {directory file content : String}
    (hdirectory : Path.Plain directory) (hfile : Path.Plain file)
    (hne : [directory, file] ≠ [modulesDirectory, name.text ++ ".nf"])
    (hd : d.writeText ((settings.output.join directory).join file) content = .ok d')
    (h : d.readText (settings.modulePath name) = .ok text) :
    d'.readText (settings.modulePath name) = .ok text := by
  obtain ⟨q, executable, hq, -, hchanged, -⟩ := Disk.changedAt_write hd
  refine readText_module_of_changedAt hname hchanged (fun above habove heq => ?_) h
  obtain ⟨above', habove', rfl⟩ := exists_place_of_names hdirectory hfile hq
  rw [habove.eq habove'] at heq
  exact hne (List.append_cancel_left heq)

/-- A change of a file in the output directory itself leaves the modules as they are. -/
theorem readText_module_of_changed_file (hname : name.Lettered) {file : String}
    (hfile : Path.Plain file) (hplace : d.Names (settings.output.join file) place)
    (hd : Disk.ChangedAt {place} d d') (h : d.readText (settings.modulePath name) = .ok text) :
    d'.readText (settings.modulePath name) = .ok text := by
  refine readText_module_of_changedAt hname hd (fun above habove heq => ?_) h
  obtain ⟨above', habove', rfl⟩ := hplace.exists_leads hfile
  have hlength := congrArg List.length heq
  rw [habove.eq habove'] at hlength
  simp at hlength

/-! ## Modules while steps are dealt with -/

/-- Providing an environment for a step leaves the modules as they are. -/
theorem readText_module_of_runtimeFor (hp : provisioners.LeaveAlone settings.modulesPath)
    (hname : name.Lettered) (hm : m.Lettered) {runtime : String}
    (hrun : settings.runtimeFor provisioners n m j = (.ok runtime, j'))
    (h : j.host.disk.readText (settings.modulePath name) = .ok text) :
    j'.host.disk.readText (settings.modulePath name) = .ok text := by
  rw [runtimeFor] at hrun
  split at hrun
  · obtain ⟨-, rfl⟩ := Act.pure_eq_ok_iff.mp hrun
    exact h
  · simp only [Act.bind_eq_ok_iff, Journal.files_eq_ok_iff, Journal.change_eq_ok_iff,
      Journal.environment_eq_ok_iff] at hrun
    obtain ⟨_, _, ⟨d, hmade, rfl⟩, _, _, ⟨d', hwritten, rfl⟩, h', henvironment, rfl⟩ := hrun
    have hchanged := DiskAct.changedAt_makeDirectories settings.environmentsPath j.host.disk
    rw [hmade] at hchanged
    have h₁ := Disk.readText_of_changedAt hchanged (fun _ _ => Set.notMem_empty _) h
    have hdirectory : environmentsDirectory ≠ modulesDirectory := by decide
    have hne : [environmentsDirectory, environmentName m ++ ".yaml"] ≠
        [modulesDirectory, name.text ++ ".nf"] :=
      fun heq => hdirectory (List.cons.inj heq).1
    have h₂ := readText_module_of_write_below hname plain_environmentsDirectory
      (plain_descriptionFile hm) hne hwritten h₁
    exact (hp.environment _ _).readText_of_run henvironment h₂

/-- Making a process leaves the modules as they are. -/
theorem readText_module_of_processFor (hp : provisioners.LeaveAlone settings.modulesPath)
    {source : StepSource} {p : ProcessModule}
    (hrun : (settings.emission provisioners).processFor source j = (.ok p, j'))
    (h : j.host.disk.readText (settings.modulePath name) = .ok text) :
    j'.host.disk.readText (settings.modulePath name) = .ok text := by
  rw [Emission.processFor] at hrun
  rcases hoperator : source.node.operator with _ | (_ | _ | _ | word) <;> rw [hoperator] at hrun
  · cases hrun
  · obtain ⟨-, rfl⟩ := Act.pure_eq_ok_iff.mp hrun
    exact h
  · obtain ⟨-, rfl⟩ := Act.pure_eq_ok_iff.mp hrun
    exact h
  · simp only [Emission.notebookProcess, Act.bind_eq_ok_iff, Journal.ask_eq_ok_iff,
      Journal.kernel_eq_ok_iff, Act.pure_eq_ok_iff] at hrun
    obtain ⟨family, _, ⟨-, rfl⟩, kernel, _, ⟨h', hkernel, rfl⟩, -, rfl⟩ := hrun
    exact (hp.kernel _ _).readText_of_run hkernel h
  · cases hrun

/-- Dealing with a step leaves the modules of steps with other names as they are, and writes its
own. -/
theorem StepRun.readText_module (hrun : settings.StepRun provisioners g handled n j step j')
    (hp : provisioners.LeaveAlone settings.modulesPath) (hname : name.Lettered)
    (hne : name ≠ step.name) (h : j.host.disk.readText (settings.modulePath name) = .ok text) :
    j'.host.disk.readText (settings.modulePath name) = .ok text := by
  have hstep := StepName.lettered_of hrun.name_eq
  obtain ⟨j₁, j₂, hruntime, hprocess, hwrite⟩ := hrun.ran
  have h₁ := readText_module_of_runtimeFor hp hname hstep hruntime h
  have h₂ := readText_module_of_processFor hp hprocess h₁
  obtain ⟨d, hd, rfl⟩ := Journal.change_eq_ok_iff.mp hwrite
  rw [hrun.modulePath_eq] at hd
  refine readText_module_of_write_below hname plain_modulesDirectory (plain_moduleFile hstep)
    (fun heq => hne ?_) hd h₂
  have hfile := (List.cons.inj (List.cons.inj heq).2).1
  exact congrArg StepName.mk (String.append_left_inj _ |>.mp hfile).symm

/-- The module of a step holds its process once the step has been dealt with. -/
theorem StepRun.readText_own (hrun : settings.StepRun provisioners g handled n j step j') :
    j'.host.disk.readText (settings.modulePath step.name) = .ok step.process.render := by
  obtain ⟨j₁, j₂, -, -, hwrite⟩ := hrun.ran
  obtain ⟨d, hd, rfl⟩ := Journal.change_eq_ok_iff.mp hwrite
  rw [hrun.modulePath_eq] at hd
  exact Disk.readText_writeText hd

/-- Dealing with steps leaves the modules of steps with other names as they are. -/
theorem readText_module_of_emitSteps (hp : provisioners.LeaveAlone settings.modulesPath)
    {nodes : List Node} {steps : List EmittedStep}
    (hrun : settings.emitSteps provisioners g handled nodes j = (.ok steps, j'))
    (hname : name.Lettered) (hne : name ∉ steps.map EmittedStep.name)
    (h : j.host.disk.readText (settings.modulePath name) = .ok text) :
    j'.host.disk.readText (settings.modulePath name) = .ok text := by
  induction nodes generalizing handled j steps with
  | nil =>
    obtain ⟨-, rfl⟩ := Act.pure_eq_ok_iff.mp hrun
    exact h
  | cons n rest ih =>
    obtain ⟨step, others, j₁, rfl, hstep, hothers⟩ := emitSteps_cons_ok hrun
    rw [List.map_cons, List.mem_cons, not_or] at hne
    exact ih hothers hne.2 (hstep.readText_module hp hname hne.1 h)

/-- When the names of the steps differ, each module holds the process of its step once all steps
have been dealt with. -/
theorem readText_own_of_emitSteps (hp : provisioners.LeaveAlone settings.modulesPath)
    {nodes : List Node} {steps : List EmittedStep}
    (hrun : settings.emitSteps provisioners g handled nodes j = (.ok steps, j'))
    (hnodup : (steps.map EmittedStep.name).Nodup) :
    ∀ step ∈ steps,
      j'.host.disk.readText (settings.modulePath step.name) = .ok step.process.render := by
  induction nodes generalizing handled j steps with
  | nil =>
    obtain ⟨rfl, -⟩ := Act.pure_eq_ok_iff.mp hrun
    intro step hstep
    cases hstep
  | cons n rest ih =>
    obtain ⟨first, others, j₁, rfl, hfirst, hothers⟩ := emitSteps_cons_ok hrun
    rw [List.map_cons, List.nodup_cons] at hnodup
    intro step hstep
    rcases List.mem_cons.mp hstep with rfl | hstep
    · -- the steps that follow have other names
      exact readText_module_of_emitSteps hp hothers (StepName.lettered_of hfirst.name_eq)
        hnodup.1 hfirst.readText_own
    · exact ih hothers hnodup.2 step hstep

/-! ## Modules while the project is finished -/

/-- Writing the workflow and removing the skeleton leaves the modules as they are. -/
theorem readText_module_of_writeMain (hname : name.Lettered) {composition : Composition}
    (hrun : settings.writeMain composition j = (.ok (), j'))
    (h : j.host.disk.readText (settings.modulePath name) = .ok text) :
    j'.host.disk.readText (settings.modulePath name) = .ok text := by
  simp only [writeMain, Act.bind_eq_ok_iff, Journal.ask_eq_ok_iff, Journal.change_eq_ok_iff] at hrun
  obtain ⟨skeleton, _, ⟨-, rfl⟩, _, _, ⟨d, hwritten, rfl⟩, d', hremoved, rfl⟩ := hrun
  obtain ⟨place, executable, hplace, -, hchanged, -⟩ := Disk.changedAt_write hwritten
  have hafter := readText_module_of_changed_file hname plain_mainFile hplace hchanged h
  obtain ⟨place', hplace', hchanged'⟩ := Disk.changedAt_remove hremoved
  exact readText_module_of_changed_file hname plain_skeletonFile hplace' hchanged' hafter

/-- The last component of a path has no slash in it. -/
theorem noSlash_baseName (path : String) : '/' ∉ (baseName path).toList := by
  rw [baseName, String.toList_ofList, Text.afterLastOf, List.mem_reverse]
  intro hmem
  have hne := List.all_eq_true.mp (List.all_takeWhile (l := path.toList.reverse)) '/' hmem
  exact absurd hne (by decide)

/-- Keeping the document leaves the modules as they are. -/
theorem readText_module_of_keepInput (hname : name.Lettered) {input : Path}
    (hrun : settings.keepInput input j = (.ok (), j'))
    (h : j.host.disk.readText (settings.modulePath name) = .ok text) :
    j'.host.disk.readText (settings.modulePath name) = .ok text := by
  simp only [keepInput, Act.bind_eq_ok_iff, Act.get_eq_ok_iff] at hrun
  obtain ⟨_, _, ⟨rfl, rfl⟩, hrun⟩ := hrun
  split at hrun
  · obtain ⟨-, rfl⟩ := Act.pure_eq_ok_iff.mp hrun
    exact h
  · obtain ⟨d, hcopied, rfl⟩ := Journal.change_eq_ok_iff.mp hrun
    obtain ⟨place, hplace, hends, hchanged⟩ := Disk.changedAt_copyFile hcopied
    have hplain := Disk.plain_of_names_join hplace (hchanged.notDirectory place rfl) hends
      (noSlash_baseName input)
    exact readText_module_of_changed_file hname hplain hplace hchanged h

/-- In a generated project each module holds the process of its step, when the names of the steps
differ and the provisioners leave the modules alone. -/
theorem Run.readText_module {input : Path} {steps : List EmittedStep} {report : GenerationReport}
    (hrun : settings.Run provisioners input j g steps report j')
    (hp : provisioners.LeaveAlone settings.modulesPath)
    (hnodup : (steps.map EmittedStep.name).Nodup) (hstep : step ∈ steps)
    (hname : step.name.Lettered) :
    j'.host.disk.readText (settings.modulePath step.name) = .ok step.process.render := by
  obtain ⟨nodes, j₁, j₂, j₃, -, -, hsteps, hmain, hkept⟩ := hrun.ran
  have h₂ := readText_own_of_emitSteps hp hsteps hnodup step hstep
  have h₃ := readText_module_of_writeMain hname hmain h₂
  exact readText_module_of_keepInput hname hkept h₃

end GenerationSettings

end Pipewright
