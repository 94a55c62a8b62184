import Pipewright.Proofs.Process.Declarations
import Pipewright.Proofs.Shell.Words

/-!
# Commands as a shell reads them

The values of variables and of parameters are quoted, so a shell takes them as they are, whatever
they are.  Everything else on a command line stands there as it is and has to be plain.

* `ProcessCommand.frontWords`, `ProcessCommand.fileWords`: the words that a command is made of.
* `ProcessCommand.PlainFront`, `ProcessCommand.words_render`: how a shell reads a command.
* `ProcessModule.exists_render_eq`: where a line within the braces stands.
* `ProcessCommand.words_values`: values are words, in commands and in modules.
-/

namespace Pipewright

open Shell

namespace ProcessCommand

/-! ## The words of a command -/

/-- The words in front of the files of a command. -/
def frontWords : ProcessCommand → List String
  | python _ => ["python"]
  | r _ => ["Rscript"]
  | notebook kernel workingDirectory parameters _ _ =>
    ["papermill", "--cwd", workingDirectory, "--log-output", "--log-level", "DEBUG",
      "--request-save-on-cell-execute", "--autosave-cell-every", "10", "--progress-bar",
      "-k", kernel] ++ parameters.flatMap fun p => ["-p", p.key, p.value]

/-- The file that a command runs, and the one that it writes. -/
def fileWords : ProcessCommand → List String
  | python filename => [filename]
  | r filename => [filename]
  | notebook _ _ _ filename outputNotebook => [filename, outputNotebook]

/-- In front of the files of a command everything is plain, but for the values of parameters. -/
def PlainFront : ProcessCommand → Prop
  | python _ => True
  | r _ => True
  | notebook kernel workingDirectory parameters _ _ =>
    PlainWord kernel ∧ PlainWord workingDirectory ∧ ∀ p ∈ parameters, PlainWord p.key

/-- The texts that stand in front of the files of a command. -/
def frontTexts : ProcessCommand → List String
  | python _ => ["python"]
  | r _ => ["Rscript"]
  | notebook kernel workingDirectory parameters _ _ =>
    ["papermill", "--cwd " ++ workingDirectory, "--log-output --log-level DEBUG",
      "--request-save-on-cell-execute", "--autosave-cell-every 10", "--progress-bar",
      "-k " ++ kernel] ++ parameters.map parameterText

theorem render_eq (c : ProcessCommand) : c.render =
    String.intercalate " " c.frontTexts ++ (" " ++ String.intercalate " " c.fileWords) := by
  cases c with
  | python filename | r filename =>
    simp only [frontTexts, fileWords, String.intercalate_singleton, render, ← String.append_assoc]
    rfl
  | notebook kernel workingDirectory parameters filename outputNotebook =>
    rw [← String.append_assoc,
      ← String.intercalate_append_of_ne_nil (by simp [frontTexts]) (by simp [fileWords])]
    rfl

theorem reads_of_plainWord {s : String} (h : PlainWord s) : Reads s [s] :=
  (readsWord_of_stays h.plain.stays h.ne_empty).reads

/-- A plain word in front of words. -/
theorem reads_plainWord_append {s text : String} {ws : List String} (hs : PlainWord s)
    (h : Reads text ws) : Reads (s ++ (" " ++ text)) (s :: ws) :=
  (reads_of_plainWord hs).append h

theorem reads_parameterText {p : Setting} (h : PlainWord p.key) :
    Reads (parameterText p) ["-p", p.key, p.value] := by
  have hread := reads_plainWord_append (s := "-p") (by decide)
    (reads_plainWord_append h (readsWord_quote p.value).reads)
  simp only [← String.append_assoc] at hread
  exact hread

/-- The texts in front of the files are read as words, each for itself. -/
theorem exists_reads_frontTexts {c : ProcessCommand} (h : c.PlainFront) :
    ∃ wss, List.Forall₂ Reads c.frontTexts wss ∧ wss.flatten = c.frontWords := by
  cases c with
  | python filename => exact ⟨[["python"]], .cons (reads_of_plainWord (by decide)) .nil, rfl⟩
  | r filename => exact ⟨[["Rscript"]], .cons (reads_of_plainWord (by decide)) .nil, rfl⟩
  | notebook kernel workingDirectory parameters filename outputNotebook =>
    obtain ⟨hkernel, hdirectory, hkeys⟩ := h
    have hparameters : List.Forall₂ Reads (parameters.map parameterText)
        (parameters.map fun p => ["-p", p.key, p.value]) := by
      rw [List.forall₂_map_left_iff, List.forall₂_map_right_iff, List.forall₂_same]
      exact fun p hp => reads_parameterText (hkeys p hp)
    have hcwd := reads_plainWord_append (s := "--cwd") (by decide) (reads_of_plainWord hdirectory)
    have hlog := reads_plainWord_append (s := "--log-output") (by decide)
      (reads_plainWord_append (s := "--log-level") (by decide)
        (reads_of_plainWord (s := "DEBUG") (by decide)))
    have hsave := reads_plainWord_append (s := "--autosave-cell-every") (by decide)
      (reads_of_plainWord (s := "10") (by decide))
    have hk := reads_plainWord_append (s := "-k") (by decide) (reads_of_plainWord hkernel)
    simp only [← String.append_assoc] at hcwd hk
    exact ⟨_, .cons (reads_of_plainWord (by decide)) (.cons hcwd (.cons hlog
      (.cons (reads_of_plainWord (by decide)) (.cons hsave
        (.cons (reads_of_plainWord (by decide)) (.cons hk hparameters)))))), rfl⟩

/-- When everything in front of the files is plain, a shell reads a command as its words, and then
the files. -/
theorem words_render {c : ProcessCommand} (h : c.PlainFront) :
    words c.render = (words (String.intercalate " " c.fileWords)).map (c.frontWords ++ ·) := by
  obtain ⟨wss, hreads, hflatten⟩ := exists_reads_frontTexts h
  have hspace : " " = String.singleton ' ' := rfl
  have hne : c.frontTexts ≠ [] := by cases c <;> simp [frontTexts]
  rw [render_eq, ← hflatten, ← (reads_intercalate hreads hne).words_append ' ' (by decide),
    ← hspace]

/-- Files with plain names are words of their own. -/
theorem words_render_of_plain {c : ProcessCommand} (h : c.PlainFront)
    (hfiles : ∀ file ∈ c.fileWords, PlainWord file) :
    words c.render = some (c.frontWords ++ c.fileWords) := by
  have hreads : List.Forall₂ Reads c.fileWords (c.fileWords.map fun file => [file]) := by
    rw [List.forall₂_map_right_iff, List.forall₂_same]
    exact fun file hfile => reads_of_plainWord (hfiles file hfile)
  have hne : c.fileWords ≠ [] := by cases c <;> simp [fileWords]
  have hflatten : (c.fileWords.map fun file => [file]).flatten = c.fileWords := by
    rw [← List.flatMap_def, List.flatMap_singleton']
  rw [words_render h, (reads_intercalate hreads hne).words_eq, Option.map_some, hflatten]

end ProcessCommand

/-! ## The variables of a module -/

namespace ProcessModule

theorem settingLine_mem_bodyLines {p : ProcessModule} {s : Setting} (hs : s ∈ p.settings) :
    settingLine s ∈ p.bodyLines := by
  have hscript : settingLine s ∈ p.scriptLines.drop 1 := by
    rw [scriptLines]
    simp [List.mem_map_of_mem hs]
  rw [bodyLines_eq]
  exact List.mem_append_right _ (List.mem_cons_of_mem _ (List.mem_cons_of_mem _ hscript))

/-- Each line within the braces stands in the text of a module, indented, with more behind it. -/
theorem exists_render_eq {p : ProcessModule} {line : String} (hmem : line ∈ p.bodyLines)
    (hne : line ≠ "") :
    ∃ before after, p.render = before ++ "\n    " ++ (line ++ ("\n" ++ after)) := by
  obtain ⟨front, back, hbody⟩ := List.append_of_mem hmem
  have hlines : ["process " ++ p.label ++ " \x7b"] ++ p.bodyLines.map indented ++ ["\x7d", ""] =
      (("process " ++ p.label ++ " \x7b") :: front.map indented) ++
        ([indented line] ++ (back.map indented ++ ["\x7d", ""])) := by
    rw [hbody]
    simp
  have hindent : "\n    " = "\n" ++ "    " := rfl
  refine ⟨Text.unlines (("process " ++ p.label ++ " \x7b") :: front.map indented),
    Text.unlines (back.map indented ++ ["\x7d", ""]), ?_⟩
  rw [render, hlines, Text.unlines_append (by simp) (by simp),
    Text.unlines_append (by simp) (by simp), indented_of_ne hne, hindent]
  simp only [Text.unlines, String.intercalate_singleton, String.append_assoc]

end ProcessModule

/-! ## Values are words -/

/-- A shell reads the values of parameters and of variables as they are.  A notebook command whose
other words are plain is read as its words.  A line of a module that sets a variable with a plain
name is one word, and what follows in the module is read from there on. -/
theorem ProcessCommand.words_values {kernel workingDirectory filename outputNotebook : String}
    {parameters : List Setting} (hkernel : PlainWord kernel)
    (hdirectory : PlainWord workingDirectory) (hfilename : PlainWord filename)
    (hnotebook : PlainWord outputNotebook) (hkeys : ∀ p ∈ parameters, PlainWord p.key) :
    words (ProcessCommand.notebook kernel workingDirectory parameters filename
        outputNotebook).render =
      some (["papermill", "--cwd", workingDirectory, "--log-output", "--log-level", "DEBUG",
        "--request-save-on-cell-execute", "--autosave-cell-every", "10", "--progress-bar",
        "-k", kernel] ++ (parameters.flatMap fun p => ["-p", p.key, p.value]) ++
        [filename, outputNotebook]) ∧
    ∀ (p : ProcessModule), ∀ s ∈ p.settings, Plain s.key →
      ∃ before after, p.render = before ++ "\n    " ++
          (ProcessModule.settingLine s ++ ("\n" ++ after)) ∧
        words (ProcessModule.settingLine s) = some [s.key ++ "=" ++ s.value] ∧
        words (ProcessModule.settingLine s ++ ("\n" ++ after)) =
          (words after).map ((s.key ++ "=" ++ s.value) :: ·) := by
  refine ⟨words_render_of_plain ⟨hkernel, hdirectory, hkeys⟩ ?_, fun p s hs hkey => ?_⟩
  · exact List.forall_mem_cons.mpr ⟨hfilename, List.forall_mem_singleton.mpr hnotebook⟩
  · obtain ⟨before, after, hrender⟩ := ProcessModule.exists_render_eq
      (ProcessModule.settingLine_mem_bodyLines hs) (by simp [ProcessModule.settingLine])
    have hreads : Reads (ProcessModule.settingLine s) [s.key ++ "=" ++ s.value] :=
      (readsWord_assignment s.value hkey).reads
    exact ⟨before, after, hrender, hreads.words_eq, hreads.words_append '\n' (by decide) after⟩

/-- A value with quotes at its ends and a backslash, and one that is empty. -/
theorem ProcessCommand.words_values_of_quotes :
    let quoted : Setting := ⟨"q", "'it's' $x\n\\"⟩
    let command := ProcessCommand.notebook "a_python" "." [quoted, ⟨"e.1", ""⟩] "nb/a.ipynb"
      "run_a.ipynb"
    let p : ProcessModule := ⟨"load", "", none, none, [quoted], 0, [], command⟩
    words command.render = some ["papermill", "--cwd", ".", "--log-output", "--log-level", "DEBUG",
      "--request-save-on-cell-execute", "--autosave-cell-every", "10", "--progress-bar",
      "-k", "a_python", "-p", "q", "'it's' $x\n\\", "-p", "e.1", "", "nb/a.ipynb",
      "run_a.ipynb"] ∧
    ∃ before after, p.render = before ++ "\n    " ++
        (ProcessModule.settingLine quoted ++ ("\n" ++ after)) ∧
      words (ProcessModule.settingLine quoted ++ ("\n" ++ after)) =
        (words after).map ("q='it's' $x\n\\" :: ·) := by
  intro quoted command p
  obtain ⟨hcommand, hmodule⟩ := @ProcessCommand.words_values "a_python" "." "nb/a.ipynb"
    "run_a.ipynb" [quoted, ⟨"e.1", ""⟩] (by decide) (by decide) (by decide) (by decide)
    (by decide)
  obtain ⟨before, after, hrender, -, hwords⟩ := hmodule p quoted List.mem_cons_self (by decide)
  exact ⟨hcommand, before, after, hrender, hwords⟩

end Pipewright
