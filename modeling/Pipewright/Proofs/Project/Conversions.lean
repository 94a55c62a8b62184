import Pipewright.Proofs.Project.Scaffolding
import Pipewright.Proofs.Project.SideBySide
import Pipewright.Run.Lifecycle

/-!
# Converting over an old project

A conversion scaffolds over whatever the output directory holds, and generates.  None of that leaks
into what it makes: two conversions of one document that both succeed, with provisioners that answer
alike, report the same and write the same workflow and the same modules, be the output directory
fresh or that of an older conversion.  So converting a document a second time changes none of these
files.

* `Conversion.run`: scaffolding over what is there, and generating; `Conversion.perform_ok`: this is
  what the command does.
* `Conversion.ReadsOutside`: what a conversion reads is outside its output directory.
* `Conversion.Same`: two reports, and the bytes of the files that they list.
* `Conversion.run_same`: the main statement.
-/

namespace Pipewright

open Disk

namespace GenerationSettings

variable {settings : GenerationSettings} {p : Provisioners} {g : Graph} {j k : Journal}

/-- What touches files below the output directory is not seen off the way to it. -/
theorem sameAround_of_touched {d d' : Disk} {q : Path}
    (hq : d.placeOf settings.output <+: d.placeOf q) (h : Touched {d.placeOf q} d d') :
    SameAround settings.output d d' :=
  (h.sameOutside_of_path hq).sameAround

/-- Dealing with a step changes nothing off the way to the output directory. -/
theorem permits_sameAround (settings : GenerationSettings) :
    settings.Permits (SameAround settings.output) where
  makeEnvironments := sameAround_makeDirectories plain_environmentsDirectory settings.output
  writeDescription hm h := sameAround_of_touched
    (prefix_placeOf_below plain_environmentsDirectory (plain_descriptionFile hm)) (touched_write h)
  writeModule hm h := sameAround_of_touched
    (prefix_placeOf_below plain_modulesDirectory (plain_moduleFile hm)) (touched_write h)

/-- Generating changes nothing off the way to the output directory, when the provisioners do not. -/
theorem Run.sameAround {input : Path} {steps : List EmittedStep} {report : GenerationReport}
    (hrun : settings.Run p input j g steps report k)
    (hp : p.Along (SameAround settings.output)) :
    SameAround settings.output j.host.disk k.host.disk := by
  obtain ⟨source, -, hread, -, -⟩ := exists_text_of_loadGraph hrun.loaded
  obtain ⟨nodes, j₁, j₂, j₃, -, hmade, hsteps, hmain, hkept⟩ := hrun.ran
  have hdirectory := (Journal.along_files
    (sameAround_makeDirectories plain_modulesDirectory settings.output)).of_run hmade
  have hdealt := (along_emitSteps (permits_sameAround settings) hp nodes).of_run hsteps
  have hfilled : SameAround settings.output j₂.host.disk j₃.host.disk := by
    simp only [writeMain, Act.bind_eq_ok_iff, Journal.ask_eq_ok_iff, Journal.change_eq_ok_iff]
      at hmain
    obtain ⟨skeleton, i, ⟨-, rfl⟩, _, _, ⟨d, hwritten, rfl⟩, e, hremoved, rfl⟩ := hmain
    have hwrite := sameAround_of_touched (prefix_placeOf_join plain_mainFile settings.output)
      (touched_write hwritten)
    have hremove := sameAround_of_touched
      (prefix_placeOf_join plain_skeletonFile settings.output) (touched_remove hremoved).2
    exact trans_of _ hwrite hremove
  have hcopied : SameAround settings.output j₃.host.disk k.host.disk := by
    simp only [keepInput, Act.bind_eq_ok_iff, Act.get_eq_ok_iff] at hkept
    obtain ⟨i, _, ⟨rfl, rfl⟩, hkept⟩ := hkept
    split at hkept
    · obtain ⟨-, rfl⟩ := Act.pure_eq_ok_iff.mp hkept
      exact refl_of _ _
    · obtain ⟨d, hcopied, rfl⟩ := Journal.change_eq_ok_iff.mp hkept
      exact sameAround_of_touched (prefix_placeOf_join (plain_baseName hread) settings.output)
        (touched_copyFile hcopied)
  exact trans_of _ (trans_of _ hdirectory hdealt) (trans_of _ hfilled hcopied)

end GenerationSettings

namespace Conversion

variable {c : Conversion} {p p' : Provisioners} {j j' k k' : Journal}
  {report report' : GenerationReport}

/-- Scaffolds over what is there, and generates. -/
def run (c : Conversion) (p : Provisioners) : Act Journal GenerationReport := do
  Journal.onHost (scaffold c.output c.template true)
  c.generation.generate p c.input

/-- A conversion has scaffolded, and generated from there. -/
theorem run_ok (h : c.run p j = (.ok report, k)) : ∃ i g steps,
    scaffold c.output c.template true j.host = (.ok (), i) ∧
      c.generation.Run p c.input { j with host := i } g steps report k := by
  obtain ⟨_, j₁, hfirst, hgenerate⟩ := Act.bind_eq_ok_iff.mp h
  obtain ⟨i, hscaffold, rfl⟩ := Journal.onHost_eq_ok_iff.mp hfirst
  obtain ⟨g, steps, hrun⟩ := GenerationSettings.generate_ok hgenerate
  exact ⟨i, g, steps, hscaffold, hrun⟩

/-- What the command does to the host, when it succeeds, is a conversion. -/
theorem perform_ok {f : Facilities} {s s' : Console} (h : c.perform f s = (.ok (), s')) :
    ∃ report k, c.run f.provisioners ⟨s.host, []⟩ = (.ok report, k) ∧ s'.host = k.host := by
  obtain ⟨_, s₁, hfirst, hrest⟩ := Act.bind_eq_ok_iff.mp h
  obtain ⟨report, s₂, hsecond, hprint⟩ := Act.bind_eq_ok_iff.mp hrest
  obtain ⟨i, hscaffold, rfl⟩ := Act.within_eq_iff.mp hfirst
  rw [Console.onJournal] at hsecond
  obtain ⟨i', hjournal, rfl⟩ := Act.within_eq_iff.mp hsecond
  obtain ⟨k, hgenerate, rfl⟩ := Act.within_eq_iff.mp hjournal
  cases hprint
  exact ⟨report, k, Act.bind_eq_ok_iff.mpr
    ⟨(), ⟨i, []⟩, Journal.onHost_eq_ok_iff.mpr ⟨i, hscaffold, rfl⟩, hgenerate⟩, rfl⟩

/-! ## What is read -/

/-- All that a conversion reads is outside its output directory: the document, the template, and the
notebooks of the steps with the environments that kernels are asked for. -/
structure ReadsOutside (c : Conversion) (p : Provisioners) (j : Journal) : Prop where
  input : ¬ j.host.disk.placeOf c.output <+: j.host.disk.placeOf c.input
  template : c.template.Outside c.output j.host.disk
  notebooks : ∀ i g steps report k, scaffold c.output c.template true j.host = (.ok (), i) →
    c.generation.Run p c.input { j with host := i } g steps report k →
    ∀ s ∈ steps, s.node.operator = some .notebook →
      ¬ j.host.disk.placeOf c.output <+: j.host.disk.placeOf s.filename ∧
        ¬ j.host.disk.placeOf c.output <+: j.host.disk.placeOf s.runtime

/-! ## What is made -/

/-- Two conversions have reported the same, and the workflow and the modules that they have reported
are there with the same bytes. -/
structure Same (report report' : GenerationReport) (d d' : Disk) : Prop where
  report_eq : report' = report
  bytes : ∀ q ∈ report.main :: report.modules, ∃ bytes,
    d.bytesAt q = some bytes ∧ d'.bytesAt q = some bytes

/-- A conversion changes nothing off the way to its output directory, when the provisioners do
not. -/
theorem sameAround_of_run (hproper : Proper (j.host.disk.placeOf c.output) j.host.disk)
    (hout : c.template.Outside c.output j.host.disk) (hp : p.Along (SameAround c.output))
    (hrun : c.run p j = (.ok report, k)) : SameAround c.output j.host.disk k.host.disk := by
  obtain ⟨i, g, steps, hscaffold, hgenerated⟩ := run_ok hrun
  obtain ⟨hscaffolded, -⟩ := scaffold_ok hscaffold
  exact trans_of _ (hscaffolded.sameAround hproper hout) (hgenerated.sameAround hp)

/-- Two conversions from disks that agree off the way to the output directory make the same. -/
theorem same_of_sameAround {Commands : List Command → List Command → Prop}
    (hproper : Proper (j.host.disk.placeOf c.output) j.host.disk) (hread : c.ReadsOutside p j)
    (hagree : p.Agree p' j.host.disk c.output Commands)
    (hdisks : SameAround c.output j.host.disk j'.host.disk)
    (hcommands : Commands j.host.commands j'.host.commands)
    (hrun : c.run p j = (.ok report, k)) (hrun' : c.run p' j' = (.ok report', k')) :
    Same report report' k.host.disk k'.host.disk := by
  obtain ⟨i, g, steps, hscaffold, hgenerated⟩ := run_ok hrun
  obtain ⟨i', g', steps', hscaffold', hgenerated'⟩ := run_ok hrun'
  obtain ⟨hscaffolded, hbefore⟩ := scaffold_ok hscaffold
  obtain ⟨hscaffolded', hbefore'⟩ := scaffold_ok hscaffold'
  have halike : i.Alike j.host.disk c.output Commands {c.generation.skeletonPath} i' := by
    refine ⟨hscaffolded.alike hscaffolded' hdisks hproper hread.template, ?_⟩
    rwa [hbefore, hbefore']
  obtain ⟨hreport, hafter⟩ := hgenerated.alike hgenerated' hagree hread.input
    (hread.notebooks i g steps report k hscaffold hgenerated) halike
  exact ⟨hreport, hafter.disk.bytes⟩

/-- Converting over an old project makes what converting into a fresh directory makes: two
conversions that both succeed report the same and write the same workflow and the same modules, so
long as the disks agree off the way to the output directory, all that is read is outside it, and the
provisioners answer alike.  That holds in particular of a second conversion, on the disk that the
first one has left, when the provisioners change nothing off the way to the output directory
either. -/
theorem run_same (c : Conversion) {Commands : List Command → List Command → Prop}
    (hproper : Proper (j.host.disk.placeOf c.output) j.host.disk) (hread : c.ReadsOutside p j)
    (hagree : p.Agree p' j.host.disk c.output Commands) (hrun : c.run p j = (.ok report, k)) :
    (∀ j' report' k', SameAround c.output j.host.disk j'.host.disk →
      Commands j.host.commands j'.host.commands → c.run p' j' = (.ok report', k') →
      Same report report' k.host.disk k'.host.disk) ∧
    (p.Along (SameAround c.output) → ∀ j' report' k', j'.host = k.host →
      Commands j.host.commands k.host.commands → c.run p' j' = (.ok report', k') →
      Same report report' k.host.disk k'.host.disk) := by
  constructor
  · intro j' report' k' hdisks hcommands hrun'
    exact same_of_sameAround hproper hread hagree hdisks hcommands hrun hrun'
  · intro hp j' report' k' hhost hcommands hrun'
    have hdisks := sameAround_of_run hproper hread.template hp hrun
    rw [← hhost] at hdisks hcommands
    exact same_of_sameAround hproper hread hagree hdisks hcommands hrun hrun'

/-! ### A document with one notebook -/

/-- A document with one step, which runs a notebook in an environment. -/
def notebookText : String :=
  "[[[\"\",[[\"b\",\"execution_node\",\"notebook-node\",[null,\"b\",\"e\"]]]]]]"

/-- A disk with the document, its notebook and a template directory, and with an output directory. -/
def notebookDisk (output : List (String × Entry)) : Disk where
  children := [
    ("doc", .file notebookText.toUTF8 false),
    ("b", .file "\x7b\"metadata\":\x7b\"kernelspec\":\x7b\"language\":\"r\"\x7d\x7d\x7d".toUTF8 false),
    ("tpl", .directory [("template.nf",
      .file (Text.unlines (Slot.all.map Slot.marker)).toUTF8 false)])] ++ output
  workingDirectory := []

/-- An output directory with what older conversions have left. -/
def oldOutput : List (String × Entry) := [("out", .directory [
  ("main.nf", .file "old".toUTF8 false),
  ("template.nf", .file "old".toUTF8 false),
  ("modules", .directory [("bB.nf", .file "old".toUTF8 false), ("zZ.nf", .file .empty false)])])]

/-- The state before a conversion on the disk. -/
def notebookJournal (output : List (String × Entry)) : Journal where
  host := { disk := notebookDisk output }

/-- The conversion of the document. -/
def notebookConversion : Conversion where
  input := "doc"
  template := .directory "tpl"
  generation := GenerationSettings.smallSettings

/-- What is reported of the conversion. -/
def notebookReport : GenerationReport where
  main := "out/main.nf"
  modules := ["out/modules/bB.nf"]
  order := [⟨"bB"⟩]
  diagnostics := []

/-- What comes of the conversion, of one more where it has ended, and of one over an old output. -/
theorem runs_notebookJournal :
    let run := notebookConversion.run GenerationSettings.idleProvisioners
    (run (notebookJournal [])).1.toOption = some notebookReport ∧
      (run (notebookJournal [])).2.host.commands = [] ∧
      (run (run (notebookJournal [])).2).1.toOption = some notebookReport ∧
      (run (notebookJournal oldOutput)).1.toOption = some notebookReport := by
  decide +kernel

theorem run_notebookJournal :
    (notebookConversion.run GenerationSettings.idleProvisioners (notebookJournal [])).1 =
      .ok notebookReport :=
  eq_ok_of_toOption runs_notebookJournal.1

theorem commands_notebookJournal : (notebookConversion.run GenerationSettings.idleProvisioners
    (notebookJournal [])).2.host.commands = [] :=
  runs_notebookJournal.2.1

/-- The conversion succeeds once more where it has ended. -/
theorem run_run_notebookJournal :
    (notebookConversion.run GenerationSettings.idleProvisioners
      (notebookConversion.run GenerationSettings.idleProvisioners (notebookJournal [])).2).1 =
      .ok notebookReport :=
  eq_ok_of_toOption runs_notebookJournal.2.2.1

theorem run_notebookJournal_oldOutput :
    (notebookConversion.run GenerationSettings.idleProvisioners (notebookJournal oldOutput)).1 =
      .ok notebookReport :=
  eq_ok_of_toOption runs_notebookJournal.2.2.2

theorem proper_notebookDisk {place : Location} : Proper place (notebookDisk []) :=
  proper_of_contents (by decide) (by decide)

theorem agree_idleProvisioners (base : Disk) (directory : Path) :
    GenerationSettings.idleProvisioners.Agree GenerationSettings.idleProvisioners base directory
      Eq where
  kernel _ h hrun hrun' := by
    cases hrun
    cases hrun'
    exact ⟨rfl, h⟩
  environment h hrun hrun' := by
    cases hrun
    cases hrun'
    exact ⟨rfl, h.disk.mono (Set.empty_subset _), h.commands⟩
  alone := ⟨fun _ _ _ => ⟨rfl, fun _ _ => rfl⟩, fun _ _ _ => ⟨rfl, fun _ _ => rfl⟩⟩
  alone' := ⟨fun _ _ _ => ⟨rfl, fun _ _ => rfl⟩, fun _ _ _ => ⟨rfl, fun _ _ => rfl⟩⟩

theorem sameAround_notebookDisk :
    SameAround "out" (notebookDisk []) (notebookDisk oldOutput) := by
  have hplace : (notebookDisk []).placeOf "out" = ["out"] := by decide +kernel
  refine ⟨rfl, fun q hq _ => ?_⟩
  rw [hplace] at hq
  rcases q with _ | ⟨n, q⟩
  · rfl
  · have hn : n ≠ "out" := by
      rintro rfl
      exact hq (List.cons_prefix_cons.mpr ⟨rfl, List.nil_prefix⟩)
    simp only [look, at?, root, Entry.at?_cons, Entry.children, notebookDisk, oldOutput,
      List.cons_append, List.nil_append, lookup_cons_eq, if_neg hn]

/-- The step of the document runs the notebook beside it, in the environment that it names. -/
theorem steps_notebookJournal {i : Host} {g : Graph} {steps : List EmittedStep}
    {report : GenerationReport} {k : Journal}
    (hscaffold : scaffold "out" (.directory "tpl") true (notebookJournal []).host = (.ok (), i))
    (hrun : GenerationSettings.smallSettings.Run GenerationSettings.idleProvisioners "doc"
      { notebookJournal [] with host := i } g steps report k) :
    steps.map (fun s => (s.filename, s.runtime)) = [("./b", "e")] := by
  obtain ⟨nodes, j₁, j₂, -, hnodes, hmade, hsteps, -, -⟩ := hrun.ran
  let dealt : Act Journal (List EmittedStep) := do
    Journal.onHost (scaffold "out" (.directory "tpl") true)
    let g ← Journal.ask (GenerationSettings.smallSettings.loadGraph "doc")
    let nodes ← Act.settle g.stepNodes
    Journal.files (DiskAct.makeDirectories GenerationSettings.smallSettings.modulesPath)
    GenerationSettings.smallSettings.emitSteps GenerationSettings.idleProvisioners g [] nodes
  have hdealt : dealt (notebookJournal []) = (.ok steps, j₂) :=
    Act.bind_eq_ok_iff.mpr ⟨(), _, Journal.onHost_eq_ok_iff.mpr ⟨i, hscaffold, rfl⟩,
      Act.bind_eq_ok_iff.mpr ⟨g, _, Journal.ask_eq_ok_iff.mpr ⟨hrun.loaded, rfl⟩,
        Act.bind_eq_ok_iff.mpr ⟨nodes, _, Act.settle_eq_ok_iff.mpr ⟨hnodes, rfl⟩,
          Act.bind_eq_ok_iff.mpr ⟨(), j₁, hmade, hsteps⟩⟩⟩⟩
  have hvalue : (dealt (notebookJournal [])).1.toOption.map
      (List.map fun s => (s.filename, s.runtime)) = some [("./b", "e")] := by decide +kernel
  rw [hdealt] at hvalue
  exact Option.some.inj hvalue

theorem readsOutside_notebookJournal :
    notebookConversion.ReadsOutside GenerationSettings.idleProvisioners (notebookJournal []) where
  input := by decide +kernel
  template := by
    rintro p hp
    cases hp
    decide +kernel
  notebooks i g steps report k hscaffold hrun s hs _ := by
    have hsteps := steps_notebookJournal hscaffold hrun
    have hs' : (s.filename, s.runtime) ∈ steps.map fun s => (s.filename, s.runtime) :=
      List.mem_map_of_mem hs
    rw [hsteps, List.mem_singleton, Prod.mk.injEq] at hs'
    rw [hs'.1, hs'.2]
    decide +kernel

theorem along_idleProvisioners (R : Disk → Disk → Prop) [IsPreorder Disk R] :
    GenerationSettings.idleProvisioners.Along R where
  kernel _ _ h := refl_of R h.disk
  environment _ _ h := refl_of R h.disk

/-- The conversion of the document makes the same in a fresh output directory, over an old one, and
over its own. -/
theorem run_notebookConversion_same :
    ∃ k, notebookConversion.run GenerationSettings.idleProvisioners (notebookJournal []) =
        (.ok notebookReport, k) ∧
      (∃ k', notebookConversion.run GenerationSettings.idleProvisioners
          (notebookJournal oldOutput) = (.ok notebookReport, k') ∧
        Same notebookReport notebookReport k.host.disk k'.host.disk) ∧
      ∃ k', notebookConversion.run GenerationSettings.idleProvisioners k =
          (.ok notebookReport, k') ∧
        Same notebookReport notebookReport k.host.disk k'.host.disk := by
  obtain ⟨k, hrun, hcommands, hagain⟩ : ∃ k, notebookConversion.run
      GenerationSettings.idleProvisioners (notebookJournal []) = (.ok notebookReport, k) ∧
      k.host.commands = [] ∧
      (notebookConversion.run GenerationSettings.idleProvisioners k).1 = .ok notebookReport :=
    ⟨_, eq_of_fst run_notebookJournal, commands_notebookJournal, run_run_notebookJournal⟩
  obtain ⟨hothers, htwice⟩ := run_same (j := notebookJournal []) notebookConversion
    proper_notebookDisk readsOutside_notebookJournal (agree_idleProvisioners _ _) hrun
  -- the states are given names, so that they are compared by name and not worked out
  obtain ⟨kOld, hold⟩ := exists_eq_of_fst run_notebookJournal_oldOutput
  obtain ⟨kAgain, hagain⟩ := exists_eq_of_fst hagain
  refine ⟨k, hrun, ⟨kOld, hold, ?_⟩, ⟨kAgain, hagain, ?_⟩⟩
  · exact hothers (notebookJournal oldOutput) _ _ sameAround_notebookDisk rfl hold
  · exact htwice (along_idleProvisioners _) k _ _ rfl hcommands.symm hagain

end Conversion

end Pipewright
