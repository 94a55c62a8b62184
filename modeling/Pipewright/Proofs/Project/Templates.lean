import Pipewright.Proofs.Disk.Overlays
import Pipewright.Proofs.Project.Modules
import Pipewright.Proofs.Project.Rejections
import Pipewright.Proofs.Project.Scaffolding
import Pipewright.Proofs.Run.Bookkeeping

/-!
# Scaffolding with a template directory

A template directory is put over what the output directory holds, with all that is in it.  The
directories for modules and environments are made after that, so neither the template nor the output
directory may have files in their places.

* `DiskAct.CanCopy.file?_of_copied`: files once a directory has been copied.
* `Template.Leaves`: a directory of the project can be made in the output directory.
* `scaffold_copies`: a project that has been scaffolded with a template directory.
* `scaffold_ne_ok_of_within`: an output directory within the template.
* `Template.Fits`, `scaffold_astray`: templates that fit but do not end up in the output directory
  as they are.
-/

namespace Pipewright

open Disk DiskAct
open GenerationSettings (plain_modulesDirectory plain_environmentsDirectory)

variable {output p source target : Path} {h : Host} {d d' : Disk} {place : Location}
  {name : String}

/-! ## Files afterwards -/

/-- Below the directory that has been copied to, a file is the one of the directory that has been
copied, if that has one, and the one that has been there, if not.  Elsewhere files are what they
were. -/
theorem DiskAct.CanCopy.file?_of_copied (hc : CanCopy source target d)
    (hover : Overlays (d.placeOf source) (d.placeOf target) d d d')
    (hcopied : Copied (d.placeOf source) (d.placeOf target) d [] d') :
    (∀ names, d'.file? (d.placeOf target ++ names) =
      (d.file? (d.placeOf source ++ names)).or (d.file? (d.placeOf target ++ names))) ∧
    ∀ q, ¬ d.placeOf target <+: q → d'.file? q = d.file? q := by
  refine ⟨fun names => ?_, fun q hq => ?_⟩
  · simp only [file?_eq_join]
    by_cases hthere : d.look (d.placeOf source ++ names) = none
    · rw [hthere]
      rcases hover.look (d.placeOf target ++ names) with hsame | ⟨names', hplace, hthere', -⟩
      · rw [hsame]
        rfl
      · rw [← List.append_cancel_left hplace] at hthere'
        exact absurd hthere hthere'
    · have hsame : d'.look (d.placeOf target ++ names) = d.look (d.placeOf source ++ names) :=
        hcopied names hthere
      rw [hsame]
      have hkinds := hc.kinds names hthere
      rcases hlook : d.look (d.placeOf source ++ names) with _ | _ | file
      · exact absurd hlook hthere
      · -- where a directory has been copied there was no file
        rw [hlook] at hkinds
        rcases hlook' : d.look (d.placeOf target ++ names) with _ | _ | file
        · rfl
        · rfl
        · rw [hlook'] at hkinds
          cases (hkinds (Option.some_ne_none _)).mp rfl
      · rfl
  · rw [file?_eq_join, file?_eq_join]
    rcases hover.look q with hsame | ⟨names, rfl, -, -⟩
    · rw [hsame]
    · exact absurd (List.prefix_append _ _) hq

/-- A directory of the project can be made in the output directory: neither that nor the template
has a file in its place. -/
structure Template.Leaves (p output : Path) (d : Disk) (name : String) : Prop where
  usable : (output.join name).Usable
  notInTemplate : d.file? (d.placeOf p ++ [name]) = none
  notInOutput : d.file? (d.placeOf output ++ [name]) = none

/-- A directory of the project is made, and files and directories are what they were. -/
theorem exists_makeDirectories_own (hleads : d.Leads output place) (hname : FileName name)
    (husable : (output.join name).Usable) (hfree : d.file? (place ++ [name]) = none) :
    ∃ d', makeDirectories (output.join name) d = (.ok (), d') ∧
      d'.look (place ++ [name]) = some none ∧ ChangedAt ∅ d d' := by
  obtain ⟨d', hmade, -, hlook, -⟩ := exists_makeDirectories_join hleads hname husable hfree
  have hchanged := changedAt_makeDirectories (output.join name) d
  rw [hmade] at hchanged
  exact ⟨d', hmade, hlook, hchanged⟩

/-! ## Scaffolding -/

/-- When the output directory can be made, and the template can be copied to it and leaves room for
the directories of the project, then scaffolding goes through.  Then the files of the template are
in the output directory under the same names, and all other files are what they were. -/
theorem scaffold_copies (hmade : makeDirectories output h.disk = (.ok (), d))
    (hskeleton : d.isFile (p.join skeletonFile) = true) (hcopy : CanCopy p output d)
    (hmodules : Template.Leaves p output d modulesDirectory)
    (henvironments : Template.Leaves p output d environmentsDirectory) :
    ∃ d', scaffold output (.directory p) true h = (.ok (), { h with disk := d' }) ∧
      (∀ names, d'.file? (h.disk.placeOf output ++ names) =
        (h.disk.file? (h.disk.placeOf p ++ names)).or
          (h.disk.file? (h.disk.placeOf output ++ names))) ∧
      (∀ q, ¬ h.disk.placeOf output <+: q → d'.file? q = h.disk.file? q) ∧
      ∀ name ∈ [modulesDirectory, environmentsDirectory],
        d'.look (h.disk.placeOf output ++ [name]) = some none := by
  have hchanged := changedAt_makeDirectories output h.disk
  rw [hmade] at hchanged
  have hfile : ∀ q, d.file? q = h.disk.file? q := fun q => hchanged.file? q (Set.notMem_empty q)
  obtain ⟨d₁, hcopied, hover, hall⟩ := hcopy.exists_copyTree
  obtain ⟨hbelow, houtside⟩ := hcopy.file?_of_copied hover hall
  have hleads := hcopy.leads hover hcopy.target_there
  have hfree : ∀ {name}, Template.Leaves p output d name →
      d₁.file? (d.placeOf output ++ [name]) = none := fun hleaves => by
    rw [hbelow, hleaves.notInTemplate, hleaves.notInOutput]
    rfl
  obtain ⟨d₂, hmade₂, hlook₂, hchanged₂⟩ := exists_makeDirectories_own hleads
    ⟨plain_modulesDirectory, by decide⟩ hmodules.usable (hfree hmodules)
  obtain ⟨d₃, hmade₃, hlook₃, hchanged₃⟩ := exists_makeDirectories_own
    (hleads.of_changedAt hchanged₂) ⟨plain_environmentsDirectory, by decide⟩ henvironments.usable
    (by rw [hchanged₂.file? _ (Set.notMem_empty _), hfree henvironments])
  have hfile₃ : ∀ q, d₃.file? q = d₁.file? q := fun q => by
    rw [hchanged₃.file? q (Set.notMem_empty q), hchanged₂.file? q (Set.notMem_empty q)]
  simp only [placeOf_congr hchanged.workingDirectory, hfile] at hbelow houtside hlook₂ hlook₃
  refine ⟨d₃, ?_, fun names => (hfile₃ _).trans (hbelow names),
    fun q hq => (hfile₃ q).trans (houtside q hq), ?_⟩
  · have hoperation : ∀ {action : DiskAct Unit} {e e' : Disk}, action e = (.ok (), e') →
        Host.files action { h with disk := e } = (.ok (), { h with disk := e' }) :=
      fun hrun => Host.files_eq_ok_iff.mpr ⟨_, hrun, rfl⟩
    have hplace : (Template.directory p).place output { h with disk := d } =
        (.ok (), { h with disk := d₁ }) := by
      rw [Template.place, Act.bind_of_ok (Act.get_eq_ok_iff.mpr ⟨rfl, rfl⟩), hskeleton]
      exact hoperation hcopied
    rw [scaffold_of_allowed (.inr rfl), Act.bind_of_ok (hoperation hmade), Act.bind_of_ok hplace,
      Act.bind_of_ok (hoperation hmade₂), hoperation hmade₃]
  · obtain ⟨cs, hcs⟩ := look_eq_directory_iff.mp hlook₂
    have hkept := look_eq_directory_iff.mpr (hchanged₃.directory _ cs hcs)
    exact List.forall_mem_cons.mpr ⟨hkept, List.forall_mem_singleton.mpr hlook₃⟩

/-- The failure of the disk in which an action ends. -/
def diskFault? {α : Type} : Except Error α → Option DiskFault
  | .error (.disk fault) => some fault
  | _ => none

theorem eq_error_of_diskFault? {α : Type} {result : Except Error α} {fault : DiskFault}
    (h : diskFault? result = some fault) : result = .error (.disk fault) := by
  unfold diskFault? at h
  split at h
  · rw [Option.some.inj h]
  · cases h

/-- A disk with nothing but a template directory. -/
def templateDisk (entries : List (String × Entry)) : Disk where
  children := [("tpl", .directory entries)]
  workingDirectory := []

/-- A disk with a template directory that is within the output directory. -/
def nestedDisk (entries : List (String × Entry)) : Disk where
  children := [("out", .directory [
    ("tpl", .directory entries),
    ("template.nf", .file "old".toUTF8 false),
    ("keep.txt", .file "k".toUTF8 false)])]
  workingDirectory := []

/-- The entries of a template with nothing but a skeleton. -/
def skeletonEntries : List (String × Entry) :=
  [(skeletonFile, .file "t".toUTF8 false)]

/-- The same with a file in the place of the directory for modules. -/
def modulesFileEntries : List (String × Entry) :=
  (modulesDirectory, .file "m".toUTF8 false) :: skeletonEntries

/-- The same with another skeleton, which comes first, in a directory of the template's name. -/
def twofoldEntries : List (String × Entry) :=
  ("tpl", .directory [(skeletonFile, .file "inner".toUTF8 false)]) :: skeletonEntries

/-- Where the output directory is, but no path leads to the skeleton in it, the skeleton of a
template is not copied. -/
theorem scaffold_of_locate_error {fault : DiskFault} (hd : d = templateDisk skeletonEntries)
    (houtput : d.isDirectory output = true)
    (hlocate : d.locate (output.join skeletonFile) = .error fault) :
    (scaffold output (.directory "tpl") true { disk := d }).1 = .error (.disk fault) := by
  have hmade := makeDirectories_of_isDirectory houtput
  have hfile : d.isFile (Path.join "tpl" skeletonFile) = true := by rw [hd]; rfl
  have hfound : d.found (Path.join "tpl" skeletonFile) =
      .ok (["tpl", skeletonFile], .file "t".toUTF8 false) := by rw [hd]; rfl
  have hcopy : d.copyFile (Path.join "tpl" skeletonFile) (output.join skeletonFile) =
      .error fault := by
    have hfileAt : d.fileAt (output.join skeletonFile) = .error fault := by
      rw [fileAt, hlocate]
      rfl
    rw [copyFile, hfound]
    show (d.fileAt (output.join skeletonFile) >>= _) = _
    rw [hfileAt]
    rfl
  have hasked : DiskAct.ask (fun d => d.list "tpl") d = (.ok skeletonEntries, d) :=
    ask_eq_ok_iff.mpr ⟨by rw [hd]; rfl, rfl⟩
  have hcopied : copyTree "tpl" output d = (.error fault, d) := by
    have hlimit : pathLimit = 4095 + 1 := by decide
    rw [copyTree, hlimit, copyLevels, Act.bind_of_ok hmade, Act.bind_of_ok hasked]
    exact Act.bind_of_error (change_eq_error_iff.mpr ⟨hcopy, rfl⟩) _
  have hoperation : Host.files (copyTree "tpl" output) { disk := d } =
      (.error (.disk fault), { disk := d }) :=
    Host.files_eq_error_iff.mpr ⟨fault, d, hcopied, rfl, rfl⟩
  have hplace : (Template.directory "tpl").place output { disk := d } =
      (.error (.disk fault), { disk := d }) := by
    rw [Template.place, Act.bind_of_ok (Act.get_eq_ok_iff.mpr ⟨rfl, rfl⟩), hfile]
    exact hoperation
  have hstarted : Host.files (makeDirectories output) { disk := d } = (.ok (), { disk := d }) :=
    Host.files_eq_ok_iff.mpr ⟨_, hmade, rfl⟩
  rw [scaffold_of_allowed (.inr rfl), Act.bind_of_ok hstarted, Act.bind_of_error hplace]

/-- Scaffolding never goes through when the output directory is within the template: there is always
one more level to copy. -/
theorem scaffold_ne_ok_of_within {force : Bool} {h' : Host}
    (hproper : Proper (h.disk.placeOf output) h.disk)
    (hwithin : h.disk.placeOf p <+: h.disk.placeOf output)
    (hne : h.disk.placeOf p ≠ h.disk.placeOf output) :
    scaffold output (.directory p) force h ≠ (.ok (), h') := by
  intro hrun
  have hout : (Template.directory p).Outside output h.disk := by
    rintro q ⟨⟩ hback
    exact hne (hwithin.eq_of_length_le hback.length_le)
  obtain ⟨d₁, d₂, d₃, hmade, hplaced, -, -⟩ := (scaffold_ok hrun).1.steps
  have hbeside := hplaced.beside (Scaffolded.ready_of_made hproper hout hmade)
  have hchanged := changedAt_makeDirectories output h.disk
  rw [hmade] at hchanged
  refine hbeside.notAbove ?_
  simpa only [placeOf_congr hchanged.workingDirectory] using hwithin

/-- A template directory with a skeleton is another one than the output directory, and no file of
the one meets a directory of the other. -/
structure Template.Fits (p output : Path) (d : Disk) : Prop where
  skeleton : d.isFile (p.join skeletonFile) = true
  different : d.placeOf p ≠ d.placeOf output
  kinds : NoClash (d.placeOf p) (d.placeOf output) d

/-- The current directory, spelled at such a length that no path leads to a skeleton in it. -/
theorem scaffold_dotted :
    Template.Fits "tpl" (Path.dotted 4085) (templateDisk skeletonEntries) ∧
      (scaffold (Path.dotted 4085) (.directory "tpl") true
        { disk := templateDisk skeletonEntries }).1 = .error (.disk .nameTooLong) := by
  have husable : (Path.dotted 4085).Usable := Path.usable_dotted (by decide)
  have hleads : (templateDisk skeletonEntries).Leads (Path.dotted 4085) [] := by
    refine ⟨[("tpl", .directory skeletonEntries)], ?_⟩
    have hworking : (templateDisk skeletonEntries).workingDirectory = [] := rfl
    rw [way, hworking, Path.names_dotted, ite_self]
    rfl
  have hlocate : (templateDisk skeletonEntries).locate
      ((Path.dotted 4085).join skeletonFile) = .error .nameTooLong := by
    rw [Path.join_dotted 4084 skeletonFile (by decide), locate, if_neg, if_neg, if_pos]
    · rw [String.utf8ByteSize_append, Path.utf8ByteSize_dotted]
      decide
    · simp [skeletonFile]
    · rw [String.toList_append, List.mem_append]
      exact fun hzero => hzero.elim husable.noZero (by decide)
  refine ⟨⟨by decide +kernel, ?_, ?_⟩,
    scaffold_of_locate_error rfl (hleads.isDirectory husable) hlocate⟩
  · rw [← hleads.eq_placeOf]
    decide +kernel
  · rw [← hleads.eq_placeOf]
    exact noClash_of_contents (e := .directory skeletonEntries) rfl (by decide +kernel)

/-- Scaffolding with a template that fits can fail: the template may have a file in the place of
the directory for modules, the path of the skeleton in the output directory may be too long, and the
output directory may be within the template.  Where a template within the output directory is copied
over itself, the skeleton need not be the one that the template has had. -/
theorem scaffold_astray :
    (∃ d, Template.Fits "tpl" "out" d ∧
      (scaffold "out" (.directory "tpl") true { disk := d }).1 = .error (.disk .alreadyExists)) ∧
    (∃ d, Template.Fits "tpl" (Path.dotted 4085) d ∧
      (scaffold (Path.dotted 4085) (.directory "tpl") true { disk := d }).1 =
        .error (.disk .nameTooLong)) ∧
    (∃ d, Template.Fits "tpl" "tpl/out" d ∧
      ∀ h', scaffold "tpl/out" (.directory "tpl") true { disk := d } ≠ (.ok (), h')) ∧
    ∃ d, Template.Fits "out/tpl" "out" d ∧
      (scaffold "out" (.directory "out/tpl") true { disk := d }).2.disk.file?
        ["out", skeletonFile] ≠ d.file? ["out", "tpl", skeletonFile] := by
  refine ⟨⟨templateDisk modulesFileEntries, ⟨by decide +kernel, by decide +kernel, ?_⟩, ?_⟩,
    ⟨templateDisk skeletonEntries, scaffold_dotted⟩,
    ⟨templateDisk skeletonEntries, ⟨by decide +kernel, by decide +kernel, ?_⟩, fun h' => ?_⟩,
    ⟨nestedDisk twofoldEntries, ⟨by decide +kernel, by decide +kernel, ?_⟩, by decide +kernel⟩⟩
  · exact noClash_of_contents (e := .directory modulesFileEntries) rfl (by decide +kernel)
  · exact eq_error_of_diskFault? (by decide +kernel)
  · exact noClash_of_contents (e := .directory skeletonEntries) rfl (by decide +kernel)
  · exact scaffold_ne_ok_of_within (proper_of_contents (by decide) (by decide))
      (by decide +kernel) (by decide +kernel)
  · exact noClash_of_contents (e := .directory twofoldEntries) rfl (by decide +kernel)

/-- The entries of a template with a directory. -/
def libraryEntries : List (String × Entry) :=
  [("template.nf", .file "new".toUTF8 false),
    ("lib", .directory [("a.nf", .file "a".toUTF8 true)])]

theorem canCopy_nestedDisk : CanCopy "out/tpl" "out" (nestedDisk libraryEntries) :=
  canCopy_of_contents (e := .directory libraryEntries)
    (by decide +kernel) (by decide +kernel) (by decide +kernel) rfl (by decide +kernel)

/-- The template is put over what is in the output directory. -/
theorem scaffold_nestedDisk :
    ∃ d', scaffold "out" (.directory "out/tpl") true { disk := nestedDisk libraryEntries } =
        (.ok (), { disk := d' }) ∧
      d'.file? ["out", "template.nf"] = some ("new".toUTF8, false) ∧
      d'.file? ["out", "lib", "a.nf"] = some ("a".toUTF8, true) ∧
      d'.file? ["out", "keep.txt"] = some ("k".toUTF8, false) ∧
      d'.look ["out", "modules"] = some none := by
  have hmade : makeDirectories "out" (nestedDisk libraryEntries) =
      (.ok (), nestedDisk libraryEntries) :=
    makeDirectories_of_isDirectory (by decide +kernel)
  obtain ⟨d', hrun, hbelow, -, hown⟩ := scaffold_copies
    (h := { disk := nestedDisk libraryEntries }) hmade (by decide +kernel) canCopy_nestedDisk
    ⟨by decide, by decide +kernel, by decide +kernel⟩
    ⟨by decide, by decide +kernel, by decide +kernel⟩
  exact ⟨d', hrun, hbelow ["template.nf"], hbelow ["lib", "a.nf"], hbelow ["keep.txt"],
    hown _ List.mem_cons_self⟩

end Pipewright
