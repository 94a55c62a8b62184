import Pipewright.Proofs.Alike
import Pipewright.Proofs.Disk.Copying
import Pipewright.Proofs.Project.Modules

/-!
# Scaffolding over an old directory

Scaffolding puts a skeleton in place whatever the output directory holds: the bundled one, or that of
a template directory outside.  On two disks that agree off the way to the output directory the
skeletons end up with the same bytes, and outside the directory the disks agree.

* `Template.Placed`, `Scaffolded`: a template that has been put into a directory, and a project that
  has been scaffolded.
* `Template.Placed.beside`: a template directory outside has been copied beside itself.
* `Scaffolded.alike`: two disks after scaffolding.
* `Scaffolded.sameAround`: what scaffolding changes.
-/

namespace Pipewright

open Disk
open GenerationSettings (plain_skeletonFile plain_modulesDirectory plain_environmentsDirectory)

/-- The file of the path is there. -/
theorem Disk.exists_file_of_isFile {d : Disk} {p : Path} (h : d.isFile p = true) :
    ∃ bytes executable, d.at? (d.placeOf p) = some (.file bytes executable) := by
  rw [isFile] at h
  split at h
  · next e hentry =>
    rw [Disk.entry, bind_eq_ok_iff] at hentry
    obtain ⟨⟨q, f⟩, hfound, hf⟩ := hentry
    cases hf
    obtain ⟨hnames, hplace, -⟩ := found_eq_ok_iff.mp hfound
    rcases f with ⟨bytes, executable⟩ | cs
    · exact ⟨bytes, executable, hnames.eq_placeOf ▸ hplace⟩
    · cases h
  · cases h

variable {output : Path} {template : Template} {d d' e e' : Disk} {h h' : Host}

theorem plain_configFile : Path.Plain configFile :=
  ⟨by decide, by decide, by decide, by decide⟩

namespace Template

/-- The bytes of the skeleton that the template brings along. -/
def skeleton? (d : Disk) : Template → Option ByteArray
  | bundled => some Skeleton.bundled.toUTF8
  | directory p => d.bytesAt (p.join skeletonFile)

/-- The template is outside the output directory. -/
def Outside (output : Path) (d : Disk) (template : Template) : Prop :=
  ∀ p, template = directory p → ¬ d.placeOf output <+: d.placeOf p

theorem Outside.of_workingDirectory (hout : template.Outside output d)
    (hd : d'.workingDirectory = d.workingDirectory) : template.Outside output d' := by
  intro p hp
  rw [placeOf_congr hd, placeOf_congr hd]
  exact hout p hp

/-- The template has been put into the output directory. -/
inductive Placed (output : Path) : Template → Disk → Disk → Prop where
  | ofBundle {d d₁ d' : Disk}
      (hskeleton : d.writeText (output.join skeletonFile) Skeleton.bundled = .ok d₁)
      (hconfig : d₁.writeText (output.join configFile) Skeleton.bundledConfig = .ok d') :
      Placed output bundled d d'
  | ofDirectory {p : Path} {d d' : Disk} (hfile : d.isFile (p.join skeletonFile) = true)
      (hcopied : DiskAct.copyTree p output d = (.ok (), d')) : Placed output (directory p) d d'

theorem place_ok (hrun : template.place output h = (.ok (), h')) :
    template.Placed output h.disk h'.disk ∧ h'.commands = h.commands := by
  cases template with
  | bundled =>
    simp only [place, Act.bind_eq_ok_iff, Host.change_eq_ok_iff] at hrun
    obtain ⟨_, _, ⟨d₁, hskeleton, rfl⟩, d₂, hconfig, rfl⟩ := hrun
    exact ⟨.ofBundle hskeleton hconfig, rfl⟩
  | directory p =>
    simp only [place, Act.bind_eq_ok_iff, Act.get_eq_ok_iff] at hrun
    obtain ⟨_, _, ⟨rfl, rfl⟩, hrun⟩ := hrun
    split at hrun
    · next hfile =>
      obtain ⟨d₁, hcopied, rfl⟩ := Host.files_eq_ok_iff.mp hrun
      exact ⟨.ofDirectory hfile hcopied, rfl⟩
    · cases hrun

/-- The output directory has been made, so that the template can be put into it. -/
structure Ready (output : Path) (d : Disk) (template : Template) : Prop where
  way : ∀ a ∈ output.above, d.look (d.placeOf a) ≠ none
  proper : Proper (d.placeOf output) d
  outside : template.Outside output d

namespace Placed

variable {p : Path}

/-- A template directory that has been copied to the output directory is not one that holds it. -/
theorem beside (hplaced : Placed output (directory p) d d')
    (hready : (directory p).Ready output d) : DiskAct.Beside p output d := by
  refine ⟨hready.outside p rfl, fun habove => ?_, hready.way, hready.proper⟩
  obtain ⟨below, hbelow⟩ := habove
  cases hplaced with
  | ofDirectory hfile hcopied =>
    obtain ⟨bytes, executable, hthere⟩ := exists_file_of_isFile hfile
    rw [placeOf_join plain_skeletonFile] at hthere
    have hlook : d.look (d.placeOf p ++ [skeletonFile]) ≠ none := by
      rw [look_eq_file_iff.mpr hthere]
      exact Option.some_ne_none _
    have hne : below ≠ [] := by
      rintro rfl
      rw [List.append_nil] at hbelow
      exact hready.outside p rfl (hbelow ▸ List.prefix_rfl)
    exact DiskAct.copyTree_ne_ok_of_within hready.proper hbelow.symm hne hlook hcopied

/-- Outside the output directory nothing is seen to have changed. -/
theorem sameOutside (hplaced : template.Placed output d d') (hready : template.Ready output d) :
    SameOutside (d.placeOf output) d d' := by
  have hwritten : ∀ {name text : String} {e e' : Disk}, Path.Plain name →
      e.writeText (output.join name) text = .ok e' → SameOutside (e.placeOf output) e e' := by
    intro name text e e' hname hrun
    exact (touched_write hrun).sameOutside_of_path (prefix_placeOf_join hname output)
  cases hplaced with
  | ofBundle hskeleton hconfig =>
    have hfirst := hwritten plain_skeletonFile hskeleton
    have hsecond := hwritten plain_configFile hconfig
    rw [placeOf_congr hfirst.workingDirectory] at hsecond
    exact hfirst.trans hsecond
  | ofDirectory hfile hcopied =>
    exact DiskAct.sameOutside_of_copyTree ((ofDirectory hfile hcopied).beside hready) hcopied

/-- The skeleton in the output directory is that of the template. -/
theorem bytesAt_skeleton (hplaced : template.Placed output d d')
    (hready : template.Ready output d) : ∃ bytes, template.skeleton? d = some bytes ∧
      d'.bytesAt (output.join skeletonFile) = some bytes := by
  cases hplaced with
  | @ofBundle d d₁ d' hskeleton hconfig =>
    refine ⟨_, rfl, ?_⟩
    have hother : d₁.placeOf (output.join skeletonFile) ∉
        ({d₁.placeOf (output.join configFile)} : Set Location) := by
      rw [placeOf_join plain_skeletonFile, placeOf_join plain_configFile]
      intro heq
      have hname := List.append_cancel_left (Set.mem_singleton_iff.mp heq)
      exact absurd (List.cons.inj hname).1 (by decide)
    rw [(touched_write hconfig).changedAt.bytesAt_eq hother]
    exact bytesAt_of_write hskeleton
  | @ofDirectory p d d' hfile hcopied =>
    obtain ⟨bytes, executable, hthere⟩ := exists_file_of_isFile hfile
    have hbytes : d.bytesAt (p.join skeletonFile) = some bytes := by
      rw [bytesAt, file?_eq_some_iff.mpr hthere]
      rfl
    exact ⟨bytes, hbytes, DiskAct.bytesAt_of_copyTree ((ofDirectory hfile hcopied).beside hready)
      plain_skeletonFile hbytes hcopied⟩

/-- Where the same is seen outside the output directory, the template brings along the same
skeleton. -/
theorem skeleton?_eq (hplaced : template.Placed output d d') (hready : template.Ready output d)
    (hsame : SameOutside (d.placeOf output) d e) : template.skeleton? e = template.skeleton? d := by
  cases hplaced with
  | ofBundle _ _ => rfl
  | ofDirectory hfile hcopied =>
    refine hsame.bytesAt_eq ?_
    rw [placeOf_join plain_skeletonFile]
    exact ((ofDirectory hfile hcopied).beside hready).not_prefix_append _

end Placed

end Template

/-! ## Projects -/

/-- The project has been scaffolded: the output directory has been made, the template has been put
into it, and the directories for modules and environments have been made. -/
structure Scaffolded (output : Path) (template : Template) (d d' : Disk) : Prop where
  steps : ∃ d₁ d₂ d₃, DiskAct.makeDirectories output d = (.ok (), d₁) ∧
    template.Placed output d₁ d₂ ∧
    DiskAct.makeDirectories (output.join modulesDirectory) d₂ = (.ok (), d₃) ∧
    DiskAct.makeDirectories (output.join environmentsDirectory) d₃ = (.ok (), d')

theorem scaffold_ok {force : Bool} (hrun : scaffold output template force h = (.ok (), h')) :
    Scaffolded output template h.disk h'.disk ∧ h'.commands = h.commands := by
  simp only [scaffold, Act.bind_eq_ok_iff, Act.get_eq_ok_iff] at hrun
  obtain ⟨_, _, ⟨rfl, rfl⟩, hrun⟩ := hrun
  split at hrun
  · cases hrun
  · simp only [Act.bind_eq_ok_iff, Host.files_eq_ok_iff] at hrun
    obtain ⟨_, _, ⟨d₁, hmade, rfl⟩, _, h₂, hplaced, _, _, ⟨d₃, hmodules, rfl⟩, d₄, henvironments,
      rfl⟩ := hrun
    obtain ⟨hplaced, hcommands⟩ := Template.place_ok hplaced
    exact ⟨⟨d₁, h₂.disk, d₃, hmade, hplaced, hmodules, henvironments⟩, hcommands⟩

namespace Scaffolded

/-- Once a directory has been made, what is on the way to it is there. -/
theorem look_of_mem_above (hmade : DiskAct.makeDirectories output d = (.ok (), d')) :
    ∀ a ∈ output.above, d'.look (d'.placeOf a) ≠ none := by
  rintro a ⟨n, hpos, hn, rfl⟩
  have hne : output ≠ "" := by
    rintro rfl
    exact absurd hn (Nat.not_lt_zero n)
  obtain ⟨q, hleads⟩ := DiskAct.leads_of_makeDirectories hne hmade
  rw [hleads.look_upTo n]
  exact Option.some_ne_none _

/-- Once the output directory has been made, a template from outside can be put into it. -/
theorem ready_of_made (hproper : Proper (d.placeOf output) d) (hout : template.Outside output d)
    (hmade : DiskAct.makeDirectories output d = (.ok (), d')) : template.Ready output d' := by
  have hchanged := DiskAct.made_makeDirectories output d
  rw [hmade] at hchanged
  refine ⟨look_of_mem_above hmade, ?_, hout.of_workingDirectory hchanged.workingDirectory⟩
  rw [placeOf_congr hchanged.workingDirectory]
  exact hchanged.proper hproper

/-- Scaffolding changes nothing off the way to the output directory. -/
theorem sameAround (hscaffolded : Scaffolded output template d d')
    (hproper : Proper (d.placeOf output) d) (hout : template.Outside output d) :
    SameAround output d d' := by
  obtain ⟨d₁, d₂, d₃, hmade, hplaced, hmodules, henvironments⟩ := hscaffolded.steps
  have hready := ready_of_made hproper hout hmade
  have hfirst : SameAround output d d₁ := by
    have hchanged := DiskAct.made_makeDirectories output d
    rw [hmade] at hchanged
    refine hchanged.sameAround ?_
    rintro a (rfl | ha)
    · exact .inl List.prefix_rfl
    · exact .inr ha
  have hthird := sameAround_makeDirectories plain_modulesDirectory output d₂
  have hfourth := sameAround_makeDirectories plain_environmentsDirectory output d₃
  rw [hmodules] at hthird
  rw [henvironments] at hfourth
  have hsecond := (hplaced.sameOutside hready).sameAround
  exact trans_of _ (trans_of _ hfirst hsecond) (trans_of _ hthird hfourth)

/-- Two disks that agree off the way to the output directory are alike after scaffolding: whatever
the directory has held, the skeletons have the same bytes. -/
theorem alike (hscaffolded : Scaffolded output template d e)
    (hscaffolded' : Scaffolded output template d' e') (hsame : SameAround output d d')
    (hproper : Proper (d.placeOf output) d) (hout : template.Outside output d) :
    Disk.Alike d output {output.join skeletonFile} e e' := by
  obtain ⟨d₁, d₂, d₃, hmade, hplaced, hmodules, henvironments⟩ := hscaffolded.steps
  obtain ⟨d₁', d₂', d₃', hmade', hplaced', hmodules', henvironments'⟩ := hscaffolded'.steps
  have hready := ready_of_made hproper hout hmade
  -- the output directory is there on both disks, so they agree on the way to it
  have hsame₁ : SameOutside (d.placeOf output) d₁ d₁' :=
    DiskAct.sameOutside_of_makeDirectories List.prefix_rfl hsame.workingDirectory hsame.look hmade
      hmade'
  have hworking : d₁.workingDirectory = d.workingDirectory := by
    have hchanged := DiskAct.made_makeDirectories output d
    rw [hmade] at hchanged
    exact hchanged.workingDirectory
  have hworking' := hsame₁.workingDirectory
  have hplace := placeOf_congr hworking output
  have hplace' := placeOf_congr (hworking'.trans hworking) output
  rw [← hplace] at hsame₁
  have hready' : template.Ready output d₁' := by
    refine ⟨look_of_mem_above hmade', ?_, hready.outside.of_workingDirectory hworking'⟩
    rw [hplace', ← hplace]
    exact hready.proper.of_sameOutside hsame₁
  have hplaced₂ := hplaced.sameOutside hready
  have hplaced₂' := hplaced'.sameOutside hready'
  rw [hplace', ← hplace] at hplaced₂'
  have hsame₂ := hsame₁.of_sides hplaced₂ hplaced₂'
  obtain ⟨bytes, hskeleton, hbytes⟩ := hplaced.bytesAt_skeleton hready
  obtain ⟨bytes', hskeleton', hbytes'⟩ := hplaced'.bytesAt_skeleton hready'
  obtain rfl : bytes' = bytes := by
    rw [hplaced.skeleton?_eq hready hsame₁, hskeleton] at hskeleton'
    exact (Option.some.inj hskeleton').symm
  have halike : Disk.Alike d output {output.join skeletonFile} d₂ d₂' := {
    workingDirectory := hplaced₂.workingDirectory.trans hworking
    outside := hplace ▸ hsame₂
    below := by
      rintro p rfl
      exact prefix_placeOf_join plain_skeletonFile output
    bytes := by
      rintro p rfl
      exact ⟨bytes', hbytes, hbytes'⟩ }
  have hmodules := halike.makeDirectories (prefix_placeOf_join plain_modulesDirectory output)
    hmodules hmodules'
  exact hmodules.makeDirectories (prefix_placeOf_join plain_environmentsDirectory output)
    henvironments henvironments'

end Scaffolded

end Pipewright
