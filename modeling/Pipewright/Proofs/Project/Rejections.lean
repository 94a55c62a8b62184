import Pipewright.Proofs.Disk.Directories
import Pipewright.Proofs.Failures
import Pipewright.Project.Scaffold

/-!
# Scaffolding that is refused

Scaffolding is refused when the output directory is there already and when the template directory
has no skeleton.  The first is found out before anything is done.  The second is found out when the
output directory has been made, so that a second attempt is refused for the first reason.

* `Rejects`: the two ways in which scaffolding is refused, with the host that is left.
* `scaffold_rejects_iff`: there is no third way.
* `Rejects.left`, `Rejects.again`: what is left behind, and what comes of a second attempt.
* `scaffold_rejected`: all of this for a call of the program.
-/

namespace Pipewright

open Disk

variable {output : Path} {template template' : Template} {force : Bool} {h h' : Host} {e : Error}

/-- The error says that the output directory is there, or what is wrong with the template. -/
inductive Error.IsRejection : Error → Prop where
  | outputExists (p : Path) : IsRejection (.outputExists p)
  | template (fault : TemplateFault) : IsRejection (.template fault)

theorem Error.not_isRejection_disk (fault : DiskFault) : ¬ IsRejection (.disk fault) :=
  fun h => by cases h

/-- Scaffolding is refused on the first host with the error, and leaves the second one. -/
inductive Rejects (output : Path) (template : Template) (force : Bool) (h : Host) :
    Error → Host → Prop where
  /-- The output directory is there, and nothing is done. -/
  | outputExists (hexists : h.disk.exists output = true) (hforce : force = false) :
      Rejects output template force h (.outputExists output) h
  /-- There is no skeleton in the template directory, once the output directory has been made. -/
  | noSkeleton {p : Path} {d : Disk} (htemplate : template = .directory p)
      (hallowed : h.disk.exists output = false ∨ force = true)
      (hmade : DiskAct.makeDirectories output h.disk = (.ok (), d))
      (hskeleton : d.isFile (p.join skeletonFile) = false) :
      Rejects output template force h (.template (.absent p skeletonFile)) { h with disk := d }

/-! ## The two ways -/

theorem scaffold_of_exists (hexists : h.disk.exists output = true) (hforce : force = false) :
    scaffold output template force h = (.error (.outputExists output), h) := by
  subst hforce
  rw [scaffold, Act.bind_of_ok (Act.get_eq_ok_iff.mpr ⟨rfl, rfl⟩), hexists]
  rfl

/-- Where it is not refused at once, scaffolding goes on. -/
theorem scaffold_of_allowed (hallowed : h.disk.exists output = false ∨ force = true) :
    scaffold output template force h =
      (do
        Host.files (DiskAct.makeDirectories output)
        template.place output
        Host.files (DiskAct.makeDirectories (output.join modulesDirectory))
        Host.files (DiskAct.makeDirectories (output.join environmentsDirectory)) : Act Host Unit)
        h := by
  have hcondition : (h.disk.exists output && !force) = false := by
    rcases hallowed with hexists | hforce
    · rw [hexists, Bool.false_and]
    · rw [hforce, Bool.not_true, Bool.and_false]
  rw [scaffold, Act.bind_of_ok (Act.get_eq_ok_iff.mpr ⟨rfl, rfl⟩), hcondition]
  rfl

/-- What goes wrong on the disk is no rejection. -/
theorem not_isRejection_of_files {α : Type} {action : DiskAct α}
    (hrun : Host.files action h = (.error e, h')) : ¬ e.IsRejection := by
  obtain ⟨fault, d, -, rfl, -⟩ := Host.files_eq_error_iff.mp hrun
  exact Error.not_isRejection_disk fault

/-- A template is refused for nothing but that it has no skeleton. -/
theorem Template.place_rejects (hrun : template.place output h = (.error e, h'))
    (he : e.IsRejection) : ∃ p, template = .directory p ∧
      h.disk.isFile (p.join skeletonFile) = false ∧ e = .template (.absent p skeletonFile) ∧
      h' = h := by
  cases template with
  | bundled =>
    obtain hfirst | ⟨_, h₁, -, hsecond⟩ := Act.bind_eq_error_iff.mp hrun
    · exact absurd he (not_isRejection_of_files hfirst)
    · exact absurd he (not_isRejection_of_files hsecond)
  | directory p =>
    rw [place, Act.bind_of_ok (Act.get_eq_ok_iff.mpr ⟨rfl, rfl⟩)] at hrun
    split at hrun
    · exact absurd he (not_isRejection_of_files hrun)
    · next hskeleton =>
      cases hrun
      exact ⟨p, rfl, Bool.eq_false_iff.mpr hskeleton, rfl, rfl⟩

theorem Template.place_of_noSkeleton {p : Path}
    (hskeleton : h.disk.isFile (p.join skeletonFile) = false) :
    (Template.directory p).place output h = (.error (.template (.absent p skeletonFile)), h) := by
  rw [place, Act.bind_of_ok (Act.get_eq_ok_iff.mpr ⟨rfl, rfl⟩), hskeleton]
  rfl

/-- Scaffolding ends in a rejection in one of the two ways, and in no other. -/
theorem scaffold_rejects_iff :
    scaffold output template force h = (.error e, h') ∧ e.IsRejection ↔
      Rejects output template force h e h' := by
  constructor
  · rintro ⟨hrun, he⟩
    by_cases hallowed : h.disk.exists output = false ∨ force = true
    · rw [scaffold_of_allowed hallowed] at hrun
      obtain hmade | ⟨_, h₁, hmade, hrun⟩ := Act.bind_eq_error_iff.mp hrun
      · exact absurd he (not_isRejection_of_files hmade)
      obtain hplace | ⟨_, h₂, -, hrun⟩ := Act.bind_eq_error_iff.mp hrun
      · obtain ⟨p, rfl, hskeleton, rfl, rfl⟩ := Template.place_rejects hplace he
        obtain ⟨d, hdirectory, rfl⟩ := Host.files_eq_ok_iff.mp hmade
        exact .noSkeleton rfl hallowed hdirectory hskeleton
      obtain hmodules | ⟨_, h₃, -, hrun⟩ := Act.bind_eq_error_iff.mp hrun
      · exact absurd he (not_isRejection_of_files hmodules)
      · exact absurd he (not_isRejection_of_files hrun)
    · obtain ⟨hexists, hforce⟩ := not_or.mp hallowed
      rw [scaffold_of_exists (Bool.not_eq_false _ ▸ hexists) (Bool.not_eq_true _ ▸ hforce)] at hrun
      cases hrun
      exact .outputExists (Bool.not_eq_false _ ▸ hexists) (Bool.not_eq_true _ ▸ hforce)
  · intro hrejects
    cases hrejects with
    | outputExists hexists hforce =>
      exact ⟨scaffold_of_exists hexists hforce, .outputExists output⟩
    | @noSkeleton p d htemplate hallowed hmade hskeleton =>
      have hdirectory : Host.files (DiskAct.makeDirectories output) h =
          (.ok (), { h with disk := d }) := Host.files_eq_ok_iff.mpr ⟨d, hmade, rfl⟩
      have hplace : template.place output { h with disk := d } =
          (.error (.template (.absent p skeletonFile)), { h with disk := d }) :=
        htemplate ▸ Template.place_of_noSkeleton hskeleton
      refine ⟨?_, .template _⟩
      rw [scaffold_of_allowed hallowed, Act.bind_of_ok hdirectory, Act.bind_of_error hplace]

/-! ## What is left behind -/

/-- A directory is something. -/
theorem Disk.exists_of_isDirectory {d : Disk} {p : Path} (h : d.isDirectory p = true) :
    d.exists p = true := by
  rw [isDirectory] at h
  split at h
  · next hentry =>
    rw [Disk.exists, hentry]
    rfl
  · cases h

/-- The empty path names nothing. -/
theorem Disk.exists_empty (d : Disk) : d.exists "" = false := by
  have hlocate : d.locate "" = .error .notFound := by
    rw [locate, if_neg (by simp)]
    exact if_pos rfl
  rw [Disk.exists, entry, found, hlocate]
  rfl

/-- Of a rejection only directories are left, the output directory and those on the way to it.
Nothing is left exactly when scaffolding was refused because the output directory was there, or when
it was one already, or is the working directory. -/
theorem Rejects.left (hrejects : Rejects output template force h e h') :
    Made (insert output output.above) h.disk h'.disk ∧ h'.commands = h.commands ∧
      (h' = h ↔ e = .outputExists output ∨ output = "" ∨ h.disk.isDirectory output = true) := by
  cases hrejects with
  | outputExists => exact ⟨.refl _ _, rfl, iff_of_true rfl (.inl rfl)⟩
  | @noSkeleton p d _ _ hmade =>
    have hdirectories := DiskAct.made_makeDirectories output h.disk
    rw [hmade] at hdirectories
    refine ⟨hdirectories, rfl, ?_⟩
    rw [← DiskAct.makeDirectories_eq_self_iff hmade]
    constructor
    · intro hsame
      exact .inr (congrArg Host.disk hsame)
    · rintro (hother | rfl)
      · cases hother
      · rfl

/-- After a rejection the output directory is there, unless it is the working directory, so a second
attempt without force is refused, whatever the template. -/
theorem Rejects.again (hrejects : Rejects output template force h e h') (template' : Template) :
    scaffold output template' false h' = (.error (.outputExists output), h') ↔ output ≠ "" := by
  constructor
  · rintro hrun rfl
    obtain ⟨hexists, -⟩ | _ := scaffold_rejects_iff.mp ⟨hrun, .outputExists _⟩
    rw [Disk.exists_empty] at hexists
    cases hexists
  · intro hne
    refine scaffold_of_exists ?_ rfl
    cases hrejects with
    | outputExists hexists => exact hexists
    | noSkeleton _ _ hmade =>
      exact Disk.exists_of_isDirectory (DiskAct.isDirectory_of_makeDirectories hne hmade)

/-- Scaffolding is refused in two ways.  It leaves nothing behind when the output directory was there
already; otherwise, when there is no skeleton, the output directory that it has made for nothing
stays, and keeps a second attempt without force from being made. -/
theorem scaffold_rejected (output : Path) (template : Template) (force : Bool) (h : Host) :
    (∀ e h', scaffold output template force h = (.error e, h') ∧ e.IsRejection ↔
      Rejects output template force h e h') ∧
    ∀ e h', Rejects output template force h e h' →
      Made (insert output output.above) h.disk h'.disk ∧ h'.commands = h.commands ∧
      (h' = h ↔ e = .outputExists output ∨ output = "" ∨ h.disk.isDirectory output = true) ∧
      ∀ template', scaffold output template' false h' = (.error (.outputExists output), h') ↔
        output ≠ "" := by
  refine ⟨fun e h' => scaffold_rejects_iff, fun e h' hrejects => ?_⟩
  obtain ⟨hmade, hcommands, hsame⟩ := hrejects.left
  exact ⟨hmade, hcommands, hsame, hrejects.again⟩

end Pipewright
