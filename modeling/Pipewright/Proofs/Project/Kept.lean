import Pipewright.Proofs.Disk.Kept
import Pipewright.Proofs.Frames
import Pipewright.Proofs.Project.Modules

/-!
# What dealing with steps keeps

Of itself, dealing with a step makes the directory of the descriptions, writes a description there
and writes a module.  What these three keep is kept by all steps, whether all goes well or not, as
long as the provisioners keep it.  The files in the output directory itself are kept, for the steps
are dealt with in the directories below it.

* `GenerationSettings.Permits`: the three changes are within a relation of disks.
* `GenerationSettings.along_emitStep`, `GenerationSettings.along_emitSteps`: dealing with steps.
* `GenerationSettings.permits_keeps`: the files in the output directory.
-/

namespace Pipewright

namespace GenerationSettings

variable {settings : GenerationSettings} {provisioners : Provisioners} {g : Graph} {n : Node}
  {handled : Handled} {m : StepName} {R : Disk → Disk → Prop}

/-- All that dealing with a step changes of itself is within the relation. -/
structure Permits (settings : GenerationSettings) (R : Disk → Disk → Prop) : Prop where
  makeEnvironments : ∀ d, R d (DiskAct.makeDirectories settings.environmentsPath d).2
  writeDescription : ∀ {m : StepName} {text : String} {d d' : Disk}, m.Lettered →
    d.writeText (settings.descriptionPath m) text = .ok d' → R d d'
  writeModule : ∀ {m : StepName} {text : String} {d d' : Disk}, m.Lettered →
    d.writeText (settings.modulePath m) text = .ok d' → R d d'

/-! ## Steps -/

section Steps

variable [IsPreorder Disk R]

theorem along_runtimeFor (hR : settings.Permits R) (hp : provisioners.Along R)
    (hm : m.Lettered) :
    (settings.runtimeFor provisioners n m).Along (Journal.OnDisk R) := by
  rw [runtimeFor]
  split
  · exact .pure _
  · refine (Journal.along_files hR.makeEnvironments).bind fun _ => .bind ?_ fun _ =>
      Journal.along_environment hp _ _
    exact Journal.along_change fun _ _ => hR.writeDescription hm

theorem along_processFor (hp : provisioners.Along R) (s : StepSource) :
    ((settings.emission provisioners).processFor s).Along (Journal.OnDisk R) := by
  rw [Emission.processFor]
  split
  · exact .pure _
  · exact .pure _
  · exact (Journal.along_ask _).bind fun family =>
      (Journal.along_kernel hp _ _).bind fun kernel => .pure _
  · exact .throw _
  · exact .throw _

theorem along_emitStep (hR : settings.Permits R) (hp : provisioners.Along R) :
    (settings.emitStep provisioners g handled n).Along (Journal.OnDisk R) := by
  refine .bind_settle fun m hm => .bind_settle fun file _ => ?_
  have hlettered := StepName.lettered_of hm
  refine (along_runtimeFor hR hp hlettered).bind fun runtime => .bind_settle fun bindings _ => ?_
  refine (along_processFor hp _).bind fun process => .bind ?_ fun _ => .pure _
  exact Journal.along_change fun _ _ => hR.writeModule hlettered

theorem along_emitSteps (hR : settings.Permits R) (hp : provisioners.Along R)
    (nodes : List Node) :
    (settings.emitSteps provisioners g handled nodes).Along (Journal.OnDisk R) := by
  induction nodes generalizing handled with
  | nil => exact .pure _
  | cons n rest ih => exact (along_emitStep hR hp).bind fun step => ih.bind fun others => .pure _

end Steps

/-! ## Files in the output directory -/

/-- Writing a file in a directory of the output directory keeps the files of the latter. -/
theorem keeps_of_write_below {name directory file content : String} {d d' : Disk}
    (hdirectory : Path.Plain directory) (hfile : Path.Plain file)
    (h : d.writeText ((settings.output.join directory).join file) content = .ok d') :
    Disk.Keeps settings.output name d d' := by
  obtain ⟨place, executable, hplace, -, hchanged, -⟩ := Disk.changedAt_write h
  refine hchanged.keeps fun above habove hmem => ?_
  obtain ⟨above', habove', rfl⟩ := exists_place_of_names hdirectory hfile hplace
  rw [habove.eq habove', Set.mem_singleton_iff] at hmem
  exact absurd (congrArg List.length (List.append_cancel_left hmem)) (by simp)

/-- Dealing with a step keeps the files in the output directory. -/
theorem permits_keeps (settings : GenerationSettings) (name : String) :
    settings.Permits (Disk.Keeps settings.output name) where
  makeEnvironments d :=
    (DiskAct.changedAt_makeDirectories _ d).keeps fun _ _ => Set.notMem_empty _
  writeDescription hm := keeps_of_write_below plain_environmentsDirectory (plain_descriptionFile hm)
  writeModule hm := keeps_of_write_below plain_modulesDirectory (plain_moduleFile hm)

end GenerationSettings

end Pipewright
