import Pipewright.Proofs.Disk.Places
import Pipewright.Proofs.Project.Kept
import Pipewright.Proofs.Project.Wiring

/-!
# Generating stays in its own places

Whatever a document says, a run writes modules and descriptions under names made of letters and
digits, and three more files in the output directory: the workflow, the skeleton that it removes,
and the copy of the document.  No other file is changed, and no directory is made but those for the
modules and descriptions and the output directory with what it is in, whether the run ends well or
not.

* `Disk.Within`: files have changed, and directories have been made, at the places of some paths
  only.
* `Disk.Touched.within`, `Disk.Made.within`: single operations.
* `GenerationSettings.OwnFile`, `GenerationSettings.OwnDirectory`: the places of a project.
* `GenerationSettings.generate_within`: the main statement.
-/

namespace Pipewright

namespace Disk

variable {d d' d'' : Disk} {places : Set Location} {paths files directories : Set Path}

/-- From one disk to the other files have been made, changed or removed at the places of certain
paths only, directories have been made at the places of others only, and none has been removed. -/
structure Within (files directories : Set Path) (d d' : Disk) : Prop where
  workingDirectory : d'.workingDirectory = d.workingDirectory
  file? : ∀ q, d'.file? q ≠ d.file? q → ∃ p ∈ files, q = d.placeOf p
  made : ∀ q cs, d'.at? q = some (.directory cs) →
    (∃ cs, d.at? q = some (.directory cs)) ∨ ∃ p ∈ directories, q = d.placeOf p
  kept : ∀ q cs, d.at? q = some (.directory cs) → ∃ cs', d'.at? q = some (.directory cs')

instance : IsPreorder Disk (Within files directories) where
  refl _ := {
    workingDirectory := rfl
    file? _ h := absurd rfl h
    made _ cs h := .inl ⟨cs, h⟩
    kept _ cs h := ⟨cs, h⟩ }
  trans d d' d'' h h' := {
    workingDirectory := h'.workingDirectory.trans h.workingDirectory
    file? := by
      intro q hq
      by_cases hfirst : d'.file? q = d.file? q
      · rw [← hfirst] at hq
        obtain ⟨p, hp, rfl⟩ := h'.file? q hq
        exact ⟨p, hp, placeOf_congr h.workingDirectory p⟩
      · exact h.file? q hfirst
    made := by
      intro q cs hcs
      rcases h'.made q cs hcs with ⟨cs', hcs'⟩ | ⟨p, hp, rfl⟩
      · exact h.made q cs' hcs'
      · exact .inr ⟨p, hp, placeOf_congr h.workingDirectory p⟩
    kept := by
      intro q cs hcs
      obtain ⟨cs', hcs'⟩ := h.kept q cs hcs
      exact h'.kept q cs' hcs' }

/-- What touches the places of such files only is within them. -/
theorem Touched.within (h : Touched places d d')
    (hplaces : ∀ q ∈ places, ∃ p ∈ files, q = d.placeOf p) : Within files directories d d' where
  workingDirectory := h.workingDirectory
  file? q hq := by
    by_cases hmem : q ∈ places
    · exact hplaces q hmem
    · exact absurd (h.changedAt.file? q hmem) hq
  made q cs hcs := by
    have hlook := look_eq_directory_iff.mpr ⟨cs, hcs⟩
    have hmem : q ∉ places := fun hmem => h.notMade q hmem hlook
    exact .inl (look_eq_directory_iff.mp ((h.look q hmem).symm.trans hlook))
  kept := h.changedAt.directory

/-- An operation that touches the place of one such file is within them. -/
theorem Touched.within_of_path {p : Path} (h : Touched {d.placeOf p} d d') (hp : p ∈ files) :
    Within files directories d d' :=
  h.within fun _ hq => ⟨p, hp, Set.mem_singleton_iff.mp hq⟩

/-- Making such directories only is within them. -/
theorem Made.within (h : Made paths d d') (hpaths : paths ⊆ directories) :
    Within files directories d d' where
  workingDirectory := h.workingDirectory
  file? q hq := absurd (h.changedAt.file? q (Set.notMem_empty q)) hq
  made q cs hcs := by
    rcases h.look q with hq | ⟨⟨p, hp, hq⟩, -, -⟩
    · exact .inl (look_eq_directory_iff.mp (hq.symm.trans (look_eq_directory_iff.mpr ⟨cs, hcs⟩)))
    · exact .inr ⟨p, hpaths hp, hq⟩
  kept := h.changedAt.directory

end Disk

namespace GenerationSettings

variable {settings : GenerationSettings} {provisioners : Provisioners} {input : Path}

/-! ## The places of a project -/

/-- The files of a project that a run may make, change or remove.  The names of modules and
descriptions are made of ASCII letters and digits. -/
inductive OwnFile (settings : GenerationSettings) (input : Path) : Path → Prop where
  | module (x : String) (hx : ∀ c ∈ x.toList, c.isAlphanum = true) :
      OwnFile settings input (settings.modulesPath.join (x ++ ".nf"))
  | description (x : String) (hx : ∀ c ∈ x.toList, c.isAlphanum = true) :
      OwnFile settings input (settings.environmentsPath.join (x ++ "_env.yaml"))
  | main : OwnFile settings input settings.mainPath
  | skeleton : OwnFile settings input settings.skeletonPath
  | kept : OwnFile settings input (settings.keptPath input)

/-- The directories of a project that a run may make: the output directory and what it is in, and
the two directories for modules and descriptions. -/
inductive OwnDirectory (settings : GenerationSettings) : Path → Prop where
  | output : OwnDirectory settings settings.output
  | above (n : Nat) (hn : n < settings.output.components.length) :
      OwnDirectory settings (settings.output.upTo n)
  | modules : OwnDirectory settings settings.modulesPath
  | environments : OwnDirectory settings settings.environmentsPath

/-- Whatever has been done from one disk to the other has been done in the places of the project. -/
abbrev InOwnPlaces (settings : GenerationSettings) (input : Path) : Disk → Disk → Prop :=
  Disk.Within {p | settings.OwnFile input p} {p | settings.OwnDirectory p}

/-- On the way to a directory of the project is the output directory, and what that is in. -/
theorem within_makeDirectories {name : String} (hname : Path.Plain name)
    (hown : settings.OwnDirectory (settings.output.join name)) (d : Disk) :
    settings.InOwnPlaces input d (DiskAct.makeDirectories (settings.output.join name) d).2 := by
  have hmade := DiskAct.made_makeDirectories (settings.output.join name) d
  -- the output directory is made under another path of the same place
  have hplaces : ∀ p ∈ insert (settings.output.join name) (settings.output.join name).above,
      ∃ own, settings.OwnDirectory own ∧ d.placeOf p = d.placeOf own := by
    rintro p (rfl | ha)
    · exact ⟨_, hown, rfl⟩
    · rcases Disk.above_join (d := d) hname ha with hplace | ⟨n, -, hn, rfl⟩
      · exact ⟨_, .output, hplace⟩
      · exact ⟨_, .above n hn, rfl⟩
  have hown : Disk.Made {p | settings.OwnDirectory p} d
      (DiskAct.makeDirectories (settings.output.join name) d).2 := by
    refine ⟨hmade.workingDirectory, fun q => (hmade.look q).imp_right ?_⟩
    rintro ⟨⟨p, hp, rfl⟩, hlook⟩
    obtain ⟨own, hown, hplace⟩ := hplaces p hp
    exact ⟨⟨own, hown, hplace⟩, hlook⟩
  exact hown.within subset_rfl

/-! ## Runs -/

/-- Dealing with steps stays in the places of the project. -/
theorem permits_within (settings : GenerationSettings) (input : Path) :
    settings.Permits (settings.InOwnPlaces input) where
  makeEnvironments := within_makeDirectories plain_environmentsDirectory .environments
  writeDescription {m text d d'} hm h := by
    have htext : environmentName m ++ ".yaml" = m.text ++ "_env.yaml" := by
      rw [environmentName, String.append_assoc]
      rfl
    refine (Disk.touched_write h).within_of_path ?_
    rw [descriptionPath, htext]
    exact .description m.text hm
  writeModule hm h := (Disk.touched_write h).within_of_path (.module _ hm)

/-- For every document, whether generating succeeds or fails, all that it changes is in the places
of the project, so long as the provisioners leave the disk as it is. -/
theorem generate_within (hp : provisioners.Along (· = ·)) (input : Path) (j : Journal) :
    settings.InOwnPlaces input j.host.disk
      (settings.generate provisioners input j).2.host.disk := by
  have hp' : provisioners.Along (settings.InOwnPlaces input) := {
    kernel := fun runtime family h => hp.kernel runtime family h ▸ refl_of _ h.disk
    environment := fun name description h => hp.environment name description h ▸ refl_of _ h.disk }
  have hwrite : ∀ {p : Path} {text : String} {d d' : Disk}, settings.OwnFile input p →
      d.writeText p text = .ok d' → settings.InOwnPlaces input d d' :=
    fun hown h => (Disk.touched_write h).within_of_path hown
  have hrun : (settings.generate provisioners input).Along
      (Journal.OnDisk (settings.InOwnPlaces input)) := by
    refine (Journal.along_ask _).bind fun g => .bind_settle fun nodes _ => ?_
    refine (Journal.along_files (within_makeDirectories plain_modulesDirectory .modules)).bind
      fun _ => ?_
    refine (along_emitSteps (permits_within settings input) hp' nodes).bind fun steps => ?_
    refine .bind ?main fun _ => .bind ?kept fun _ => .pure _
    case main =>
      refine (Journal.along_ask _).bind fun skeleton => .bind ?_ fun _ => ?_
      · exact Journal.along_change fun _ _ => hwrite .main
      · exact Journal.along_change fun _ _ h =>
          (Disk.touched_remove h).2.within_of_path .skeleton
    case kept =>
      refine .bind .get fun j => ?_
      split
      · exact .pure _
      · exact Journal.along_change fun _ _ h => (Disk.touched_copyFile h).within_of_path .kept
  exact hrun j

/-- The project of the small document is generated in its own places. -/
theorem generate_smallJournal_within :
    (smallSettings.generate idleProvisioners "doc.json" smallJournal).1 = .ok smallReport ∧
    smallSettings.InOwnPlaces "doc.json" smallDisk
      (smallSettings.generate idleProvisioners "doc.json" smallJournal).2.host.disk :=
  ⟨generate_smallJournal,
    generate_within ⟨fun _ _ _ => rfl, fun _ _ _ => rfl⟩ "doc.json" smallJournal⟩

end GenerationSettings

end Pipewright
