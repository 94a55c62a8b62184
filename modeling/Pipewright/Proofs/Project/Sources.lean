import Pipewright.Proofs.Process.Commands
import Pipewright.Proofs.Project.Wiring

/-!
# The file that a step runs, as a shell reads it

The path of the file stands on the command line as it is.  When it is plain, it is a word of its
own.  When it has a blank, a quote, or a backslash with something behind it, it is not: what a shell
reads there are the words of the path.

* `Emission.Runs`, `Emission.runs_of_processFor`: the command of a step.
* `GenerationSettings.words_source`: how a shell reads the command of a step.
-/

namespace Pipewright

open Shell

namespace Path

theorem join_ne_empty_of_ne {p : Path} (h : p ≠ "") (directory : Path) : directory.join p ≠ "" := by
  rw [join]
  split
  · exact h
  · split <;> simp [h]

end Path

/-- The last component of a path is plain when the path is. -/
theorem plain_baseName_of_plain {path : String} (h : Plain path) : Plain (baseName path) := by
  intro c hc
  rw [baseName, String.toList_ofList, Text.afterLastOf, List.mem_reverse] at hc
  exact h c (List.mem_reverse.mp ((List.takeWhile_sublist _).subset hc))

/-! ## The command of a step -/

/-- How a step runs its file: its operator, and the command. -/
inductive Emission.Runs (e : Emission) (s : StepSource) : ProcessCommand → Prop where
  | python (h : s.node.operator = some .python) : Runs e s (.python s.filename)
  | r (h : s.node.operator = some .r) : Runs e s (.r s.filename)
  | notebook (h : s.node.operator = some .notebook) (kernel : String) :
      Runs e s (.notebook kernel e.notebookDirectory s.node.attributes.settings s.filename
        ("run_" ++ baseName s.filename))

theorem Emission.runs_of_processFor {e : Emission} {s : StepSource} {j j' : Journal}
    {p : ProcessModule} (h : e.processFor s j = (.ok p, j')) : e.Runs s p.command := by
  rw [processFor] at h
  rcases hoperator : s.node.operator with _ | (_ | _ | _ | word) <;> rw [hoperator] at h
  · cases h
  · obtain ⟨rfl, -⟩ := Act.pure_eq_ok_iff.mp h
    exact .python hoperator
  · obtain ⟨rfl, -⟩ := Act.pure_eq_ok_iff.mp h
    exact .r hoperator
  · obtain ⟨family, j₁, -, h⟩ := Act.bind_eq_ok_iff.mp h
    obtain ⟨kernel, j₂, -, h⟩ := Act.bind_eq_ok_iff.mp h
    obtain ⟨rfl, -⟩ := Act.pure_eq_ok_iff.mp h
    exact .notebook hoperator kernel
  · cases h

/-- The files of a command are the one that the step runs and, for a notebook, the one it writes. -/
theorem Emission.Runs.exists_fileWords {e : Emission} {s : StepSource} {c : ProcessCommand}
    (h : e.Runs s c) : ∃ more, c.fileWords = s.filename :: more ∧
      (more = [] ∨ more = ["run_" ++ baseName s.filename]) := by
  cases h with
  | python | r => exact ⟨[], rfl, .inl rfl⟩
  | notebook => exact ⟨_, rfl, .inr rfl⟩

theorem plainWord_of_runs {e : Emission} {s : StepSource} {c : ProcessCommand} (h : e.Runs s c)
    (hplain : PlainWord s.filename) : ∀ file ∈ c.fileWords, PlainWord file := by
  obtain ⟨more, hfiles, rfl | rfl⟩ := h.exists_fileWords
  · rw [hfiles]
    exact List.forall_mem_singleton.mpr hplain
  · have hrun : PlainWord ("run_" ++ baseName s.filename) := by
      refine ⟨fun c hc => ?_, by simp⟩
      rw [String.toList_append, List.mem_append] at hc
      have hprefix : Plain "run_" := by decide
      obtain hc | hc := hc
      · exact hprefix c hc
      · exact plain_baseName_of_plain hplain.plain c hc
    rw [hfiles]
    exact List.forall_mem_cons.mpr ⟨hplain, List.forall_mem_singleton.mpr hrun⟩

/-! ## The words of the command -/

namespace GenerationSettings

variable {settings : GenerationSettings} {provisioners : Provisioners} {s : StepSource}
  {j j' : Journal} {p : ProcessModule}

/-- A shell reads the command of a step as what stands in front of the file, and then the words of
the path of the file, taken from the home directory, with the executed notebook behind it.  A plain
path is one word, unchanged.  A path that is one word, unchanged, has no blanks and no quotes, and
no backslashes but at its end. -/
theorem words_source (hsource : settings.sourcePath s.node = .ok s.filename)
    (h : (settings.emission provisioners).processFor s j = (.ok p, j'))
    (hfront : p.command.PlainFront) :
    ∃ file more, s.node.attributes.sourceFile? = some file ∧
      s.filename = settings.home.join file ∧
      (settings.emission provisioners).Runs s p.command ∧
      p.command.fileWords = s.filename :: more ∧
      words p.command.render = (words (String.intercalate " " (s.filename :: more))).map
        (p.command.frontWords ++ ·) ∧
      (Plain s.filename →
        words p.command.render = some (p.command.frontWords ++ s.filename :: more)) ∧
      (words p.command.render = some (p.command.frontWords ++ s.filename :: more) →
        (∀ c ∈ s.filename.toList, isBlank c = false ∧ c ≠ '\'') ∧
          ∀ c ∈ s.filename.toList.dropLast, c ≠ '\\') := by
  have hruns := Emission.runs_of_processFor h
  obtain ⟨more, hfiles, -⟩ := hruns.exists_fileWords
  obtain ⟨file, hfile, hpath⟩ : ∃ file, s.node.attributes.sourceFile? = some file ∧
      s.filename = settings.home.join file := by
    rw [sourcePath] at hsource
    split at hsource
    · next file hfile => exact ⟨file, hfile, (Except.ok.inj hsource).symm⟩
    · cases hsource
  have hne : s.filename ≠ "" := by
    rw [hpath]
    refine Path.join_ne_empty_of_ne ?_ _
    rintro rfl
    exact absurd (Text.filledIn_eq_some_iff.mp hfile).2 (by decide)
  have hwords := ProcessCommand.words_render hfront
  rw [hfiles] at hwords
  refine ⟨file, more, hfile, hpath, hruns, hfiles, hwords, fun hplain => ?_, fun hsame => ?_⟩
  · rw [ProcessCommand.words_render_of_plain hfront (plainWord_of_runs hruns ⟨hplain, hne⟩), hfiles]
  · rw [hwords] at hsame
    obtain ⟨ws, hws, hlist⟩ := Option.map_eq_some_iff.mp hsame
    rw [List.append_cancel_left hlist] at hws
    exact stays_of_words hws

/-- A file with a plain name is one word of the command, and a file with a blank in its name is
two. -/
theorem words_source_of_python :
    let settings : GenerationSettings := { home := "/home/jo" }
    let source (file : String) : StepSource :=
      ⟨{ id := "a", operator := some .python, attributes := { filename := some file } }, ⟨"a"⟩,
        settings.home.join file, "", 0⟩
    (∃ p, (settings.emission idleProvisioners).processFor (source "data.v2/load.py") smallJournal =
        (.ok p, smallJournal) ∧
      words p.command.render = some ["python", "/home/jo/data.v2/load.py"]) ∧
    ∃ p, (settings.emission idleProvisioners).processFor (source "my script.py") smallJournal =
        (.ok p, smallJournal) ∧
      words p.command.render = some ["python", "/home/jo/my", "script.py"] := by
  intro settings source
  let process (file : String) := (source file).processOf (.python (source file).filename) []
  refine ⟨⟨process "data.v2/load.py", rfl, ?_⟩, ⟨process "my script.py", rfl, ?_⟩⟩
  · obtain ⟨_, more, -, -, -, hmore, -, hplain, -⟩ :=
      @words_source settings idleProvisioners (source "data.v2/load.py") smallJournal smallJournal
        (process "data.v2/load.py") rfl rfl trivial
    obtain rfl : more = [] := (List.cons.inj hmore).2.symm
    have hpath : settings.home.join "data.v2/load.py" = "/home/jo/data.v2/load.py" := by decide
    rw [hplain (by decide), ← hpath]
    rfl
  · obtain ⟨_, more, -, -, -, hmore, hwords, -⟩ :=
      @words_source settings idleProvisioners (source "my script.py") smallJournal smallJournal
        (process "my script.py") rfl rfl trivial
    obtain rfl : more = [] := (List.cons.inj hmore).2.symm
    rw [hwords]
    decide

end GenerationSettings

end Pipewright
