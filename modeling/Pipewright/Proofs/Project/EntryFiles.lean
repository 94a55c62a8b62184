import Pipewright.Proofs.Disk.Places
import Pipewright.Proofs.Project.Agreement

/-!
# Failing leaves the entry files alone

The workflow is written, the skeleton removed and the document kept only once everything that can go
wrong apart from the disk has gone well.  So when generating fails over anything else, the workflow,
the skeleton and the copy of the document are what they were, and one can try again.  When already
the document cannot be loaded or its order not be found, nothing at all has happened.

* `Disk.SameFile`: the file of a path is the same on two disks.
* `plain_baseName`: a file that can be read has a plain name.
* `GenerationSettings.permits_sameFile`: dealing with steps keeps the files in the output directory.
* `GenerationSettings.generate_error_sameFile`: the main statement.
-/

namespace Pipewright

namespace Disk

variable {d d' : Disk} {places : Set Location} {p : Path}

/-- The file of the path is the same on both disks, or there is none on either.  The path has the
same place on both. -/
structure SameFile (p : Path) (d d' : Disk) : Prop where
  workingDirectory : d'.workingDirectory = d.workingDirectory
  file? : d'.file? (d.placeOf p) = d.file? (d.placeOf p)

instance : IsPreorder Disk (SameFile p) where
  refl _ := ⟨rfl, rfl⟩
  trans d d' d'' h h' := by
    refine ⟨h'.workingDirectory.trans h.workingDirectory, ?_⟩
    have hfile := h'.file?
    rw [placeOf_congr h.workingDirectory] at hfile
    exact hfile.trans h.file?

/-- Changes at other places keep the file of a path. -/
theorem ChangedAt.sameFile (h : ChangedAt places d d') (hp : d.placeOf p ∉ places) :
    SameFile p d d' :=
  ⟨h.workingDirectory, h.file? _ hp⟩

end Disk

/-! ## Names of files -/

/-- A path is its last component, taken from what is before that. -/
theorem exists_join_baseName (p : Path) : ∃ directory, p = Path.join directory (baseName p) := by
  let before := (p.toList.reverse.dropWhile (· ≠ '/')).reverse
  have hsplit : before ++ Text.afterLastOf '/' p.toList = p.toList := by
    rw [Text.afterLastOf, ← List.reverse_append, List.takeWhile_append_dropWhile,
      List.reverse_reverse]
  have hends : before = [] ∨ before.getLast? = some '/' := by
    rcases hrest : p.toList.reverse.dropWhile (· ≠ '/') with _ | ⟨c, rest⟩
    · exact .inl (congrArg List.reverse hrest)
    · right
      have hc : c = '/' := by
        have hhead := List.head?_dropWhile_not (· ≠ '/') p.toList.reverse
        rw [hrest] at hhead
        simpa using hhead
      simp only [before, hrest, hc, List.getLast?_reverse, List.head?_cons]
  refine ⟨String.ofList before, ?_⟩
  have hjoin : Path.join (String.ofList before) (baseName p) =
      String.ofList before ++ baseName p := by
    rw [Path.join, if_neg (by simp [Path.isAbsolute_of_noSlash (GenerationSettings.noSlash_baseName p)]), if_pos]
    rcases hends with hnil | hlast
    · simp [hnil]
    · simp [Path.endsInSlash, hlast]
  rw [hjoin, baseName]
  refine String.toList_injective ?_
  rw [String.toList_append, String.toList_ofList, String.toList_ofList, hsplit]

/-- A file that can be read has a plain name. -/
theorem plain_baseName {d : Disk} {p : Path} {text : String} (h : d.readText p = .ok text) :
    Path.Plain (baseName p) := by
  obtain ⟨place, executable, hnames, hslash, hfile⟩ := Disk.readText_eq_ok_iff.mp h
  have hplace := Disk.file?_eq_some_iff.mp hfile
  obtain ⟨directory, hjoin⟩ := exists_join_baseName p
  rw [hjoin] at hnames hslash
  exact Disk.plain_of_names_join hnames (by simp [hplace]) hslash (GenerationSettings.noSlash_baseName p)

/-- A change fails over the disk only. -/
theorem Journal.change_eq_error {f : Disk → Except DiskFault Disk} {j j' : Journal} {e : Error}
    (h : change f j = (.error e, j')) : ∃ fault, e = .disk fault := by
  obtain ⟨fault, -, he, -⟩ := change_eq_error_iff.mp h
  exact ⟨fault, he⟩

namespace GenerationSettings

variable {settings : GenerationSettings} {provisioners : Provisioners} {input : Path}
  {j j' : Journal} {e : Error}

/-! ## Steps -/

/-- Writing a file in a directory of the output directory keeps the files of the latter. -/
theorem sameFile_of_write_below {name directory file content : String} {d d' : Disk}
    (hname : Path.Plain name) (hdirectory : Path.Plain directory) (hfile : Path.Plain file)
    (h : d.writeText ((settings.output.join directory).join file) content = .ok d') :
    Disk.SameFile (settings.output.join name) d d' := by
  refine (Disk.touched_write h).changedAt.sameFile fun hmem => ?_
  rw [Set.mem_singleton_iff, Disk.placeOf_join hname, Disk.placeOf_join hfile,
    Disk.placeOf_join hdirectory, List.append_assoc] at hmem
  exact absurd (congrArg List.length (List.append_cancel_left hmem)) (by simp)

/-- Dealing with steps keeps the files in the output directory. -/
theorem permits_sameFile (settings : GenerationSettings) {name : String} (hname : Path.Plain name) :
    settings.Permits (Disk.SameFile (settings.output.join name)) where
  makeEnvironments d :=
    (DiskAct.changedAt_makeDirectories _ d).sameFile (Set.notMem_empty _)
  writeDescription hm :=
    sameFile_of_write_below hname plain_environmentsDirectory (plain_descriptionFile hm)
  writeModule hm := sameFile_of_write_below hname plain_modulesDirectory (plain_moduleFile hm)

/-! ## Failures -/

/-- Finishing the project fails over the disk, or before anything has been done. -/
theorem writeMain_error {composition : Composition}
    (h : settings.writeMain composition j = (.error e, j')) :
    (∃ fault, e = .disk fault) ∨ j' = j := by
  obtain hasked | ⟨skeleton, j₁, -, h⟩ := Act.bind_eq_error_iff.mp h
  · exact .inr (Journal.ask_eq_error_iff.mp hasked).2
  · obtain hwritten | ⟨_, j₂, -, h⟩ := Act.bind_eq_error_iff.mp h
    · exact .inl (Journal.change_eq_error hwritten)
    · exact .inl (Journal.change_eq_error h)

/-- Keeping the document fails over the disk. -/
theorem keepInput_error (h : settings.keepInput input j = (.error e, j')) :
    ∃ fault, e = .disk fault := by
  obtain hget | ⟨k, j₁, -, h⟩ := Act.bind_eq_error_iff.mp h
  · cases hget
  · split at h
    · exact absurd h Act.pure_ne_error
    · exact Journal.change_eq_error h

/-- When the graph cannot be loaded or its order not be found, generating fails over that, and
nothing has happened. -/
theorem generate_of_order_error
    (h : (do (← settings.loadGraph input j.host.disk).executionOrder) = .error e) :
    settings.generate provisioners input j = (.error e, j) := by
  obtain hload | ⟨g, hload, horder⟩ := bind_eq_error_iff.mp h
  · exact Act.bind_of_error (Journal.ask_eq_error_iff.mpr ⟨hload, rfl⟩) _
  · have hnodes : g.stepNodes = .error e := by
      rw [Graph.stepNodes, horder]
      rfl
    rw [generate, Act.bind_of_ok (Journal.ask_eq_ok_iff.mpr ⟨hload, rfl⟩), hnodes]
    rfl

/-- When generating fails over anything but the disk, a file in the output directory that is not
below it is what it was, so long as the provisioners keep it. -/
theorem sameFile_of_generate_error {name : String}
    (hname : ∀ text, j.host.disk.readText input = .ok text → Path.Plain name)
    (hp : provisioners.Along (Disk.SameFile (settings.output.join name)))
    (h : settings.generate provisioners input j = (.error e, j')) (he : ∀ fault, e ≠ .disk fault) :
    Disk.SameFile (settings.output.join name) j.host.disk j'.host.disk := by
  obtain hasked | ⟨g, _, hasked, hloaded⟩ := Act.bind_eq_error_iff.mp h
  · rw [(Journal.ask_eq_error_iff.mp hasked).2]
    exact refl_of _ _
  obtain ⟨hload, rfl⟩ := Journal.ask_eq_ok_iff.mp hasked
  obtain ⟨document, hdocument, -⟩ := bind_eq_ok_iff.mp hload
  obtain ⟨source, hread, -⟩ := bind_eq_ok_iff.mp hdocument
  have hplain : Path.Plain name := hname source (mapError_eq_ok_iff.mp hread)
  obtain hsettled | ⟨nodes, _, hsettled, hordered⟩ := Act.bind_eq_error_iff.mp hloaded
  · rw [(Act.settle_eq_error_iff.mp hsettled).2]
    exact refl_of _ _
  obtain ⟨-, rfl⟩ := Act.settle_eq_ok_iff.mp hsettled
  have hmakes : (Journal.files (DiskAct.makeDirectories settings.modulesPath)).Along
      (Journal.OnDisk (Disk.SameFile (settings.output.join name))) :=
    Journal.along_files fun d =>
      (DiskAct.changedAt_makeDirectories _ d).sameFile (Set.notMem_empty _)
  have hdeals : (settings.emitSteps provisioners g [] nodes).Along
      (Journal.OnDisk (Disk.SameFile (settings.output.join name))) :=
    along_emitSteps (permits_sameFile settings hplain) hp nodes
  obtain hmake | ⟨_, j₁, hmake, hmade⟩ := Act.bind_eq_error_iff.mp hordered
  · exact hmakes.of_run hmake
  have hfirst : Disk.SameFile (settings.output.join name) _ j₁.host.disk :=
    hmakes.of_run hmake
  obtain hdeal | ⟨steps, j₂, hdeal, hdealt⟩ := Act.bind_eq_error_iff.mp hmade
  · exact trans_of _ hfirst (hdeals.of_run hdeal)
  have hsecond : Disk.SameFile (settings.output.join name) j₁.host.disk j₂.host.disk :=
    hdeals.of_run hdeal
  -- what is left fails over the disk, or over the skeleton before anything is done
  obtain hmain | ⟨_, j₃, -, hwritten⟩ := Act.bind_eq_error_iff.mp hdealt
  · rcases writeMain_error hmain with ⟨fault, rfl⟩ | rfl
    · exact absurd rfl (he fault)
    · exact trans_of _ hfirst hsecond
  obtain hkept | ⟨_, j₄, -, hdone⟩ := Act.bind_eq_error_iff.mp hwritten
  · obtain ⟨fault, rfl⟩ := keepInput_error hkept
    exact absurd rfl (he fault)
  · exact absurd hdone Act.pure_ne_error

/-! ## The main statement -/

/-- When generating fails over anything but the disk, the workflow, the skeleton and the copy of the
document are what they were, so long as the provisioners keep them.  When it fails for the document
cannot be loaded or its order not be found, over whatever it may be, nothing has happened: the disk
is what it was, and neither has anything been asked of the provisioners nor has a command been
run. -/
theorem generate_error_sameFile (settings : GenerationSettings) (provisioners : Provisioners)
    (input : Path) (j : Journal) :
    (∀ e j', settings.generate provisioners input j = (.error e, j') →
      (∀ fault, e ≠ .disk fault) → ∀ name ∈ [mainFile, skeletonFile, baseName input],
        provisioners.Along (Disk.SameFile (settings.output.join name)) →
          Disk.SameFile (settings.output.join name) j.host.disk j'.host.disk) ∧
    ∀ e, (do (← settings.loadGraph input j.host.disk).executionOrder) = .error e →
      settings.generate provisioners input j = (.error e, j) := by
  refine ⟨fun e j' h he name hname hp => sameFile_of_generate_error ?_ hp h he,
    fun e h => generate_of_order_error h⟩
  intro text hread
  simp only [List.mem_cons, List.not_mem_nil, or_false] at hname
  rcases hname with rfl | rfl | rfl
  · exact plain_mainFile
  · exact plain_skeletonFile
  · exact plain_baseName hread

/-! ### A skeleton that is none, and the document with a circle -/

/-- The small document with an output directory whose skeleton is none. -/
def bareJournal : Journal where
  host := { disk := {
    children := [
      ("doc.json", .file smallText.toUTF8 false),
      ("out", .directory [
        ("main.nf", .file "old".toUTF8 false), ("template.nf", .file "bare".toUTF8 false)])]
    workingDirectory := [] } }

/-- What is wrong with the skeleton, when that is why there is no result. -/
def templateFault? {α : Type} : Except Error α → Option TemplateFault
  | .error (.template fault) => some fault
  | .error _ | .ok _ => none

theorem eq_of_templateFault? {α : Type} {result : Except Error α} {fault : TemplateFault}
    (h : templateFault? result = some fault) : result = .error (.template fault) := by
  unfold templateFault? at h
  split at h <;> cases h
  rfl

/-- Both modules of the small document can be written, and then there is no skeleton to fill. -/
theorem generate_bareJournal : ∃ fault j',
    smallSettings.generate idleProvisioners "doc.json" bareJournal =
      (.error (.template fault), j') := by
  have hload : Journal.ask (smallSettings.loadGraph "doc.json") bareJournal =
      (.ok smallGraph, bareJournal) := by
    refine Journal.ask_eq_ok_iff.mpr ⟨loadGraph_of_parse ?_ parse_smallText, rfl⟩
    exact Disk.readText_eq_ok_iff.mpr ⟨["doc.json"], false, rfl, rfl, rfl⟩
  have hfails : (templateFault?
      (smallSettings.generate idleProvisioners "doc.json" bareJournal).1).isSome = true := by
    rw [generate, Act.bind_of_ok hload]
    decide +kernel
  obtain ⟨fault, hfault⟩ := Option.isSome_iff_exists.mp hfails
  rcases hrun : smallSettings.generate idleProvisioners "doc.json" bareJournal with ⟨result, j'⟩
  rw [hrun] at hfault
  exact ⟨fault, j', by rw [← eq_of_templateFault? hfault]⟩

/-- When the skeleton turns out to be none, the old workflow and the skeleton are still there, and
no copy of the document has been made; and for the document with a circle nothing has happened. -/
theorem generate_bareJournal_sameFile :
    (∃ e j', smallSettings.generate idleProvisioners "doc.json" bareJournal = (.error e, j') ∧
      j'.host.disk.file? ["out", "main.nf"] = some ("old".toUTF8, false) ∧
      j'.host.disk.file? ["out", "template.nf"] = some ("bare".toUTF8, false) ∧
      j'.host.disk.file? ["out", "doc.json"] = none) ∧
    smallSettings.generate idleProvisioners "doc.json" circleJournal =
      (.error (.cyclicGraph "a" ["a", "b", "a"]), circleJournal) := by
  constructor
  · obtain ⟨fault, j', hrun⟩ := generate_bareJournal
    obtain ⟨hkept, -⟩ :=
      generate_error_sameFile smallSettings idleProvisioners "doc.json" bareJournal
    have hidle : ∀ p, idleProvisioners.Along (Disk.SameFile p) :=
      fun p => ⟨fun _ _ h => refl_of _ h.disk, fun _ _ h => refl_of _ h.disk⟩
    have hsame := hkept _ j' hrun (fun _ => nofun)
    exact ⟨_, j', hrun, (hsame mainFile (by decide) (hidle _)).file?,
      (hsame skeletonFile (by decide) (hidle _)).file?,
      (hsame (baseName "doc.json") (by decide) (hidle _)).file?⟩
  · obtain ⟨-, hnothing⟩ :=
      generate_error_sameFile smallSettings idleProvisioners "doc.json" circleJournal
    refine hnothing _ (bind_eq_error_iff.mpr (.inr ⟨Graph.circleGraph, ?_, rfl⟩))
    exact loadGraph_of_parse (Disk.readText_eq_ok_iff.mpr ⟨["doc.json"], false, rfl, rfl, rfl⟩)
      Graph.parse_circleText

end GenerationSettings

end Pipewright
