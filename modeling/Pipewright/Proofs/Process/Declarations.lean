import Mathlib.Data.List.Chain
import Mathlib.Data.List.Nodup
import Pipewright.ProcessModule
import Pipewright.Proofs.Text.Lines

/-!
# What a module declares

The lines in front of the script of a module are blocks with one empty line before each of them.  A
block that would be empty is left out, and how a line begins tells what it declares.  No line of the
blocks begins like the one with which the script begins.  So two modules with the same text declare
the same, whatever their scripts are, so long as the label, the environment and the outputs are
single lines.

* `ProcessModule.SingleLines`: nothing in front of the script has a line feed in it.
* `ProcessModule.openLines`, `ProcessModule.lines_render`: the lines in front of the script.
* `ProcessModule.filter_openLines`: the lines in front of the script that begin in some way.
* `ProcessModule.Declares`, `ProcessModule.declares_openLines`: what lines declare.
* `ProcessModule.AgreesWith`, `ProcessModule.agreesWith_of_declares`: modules that declare the same.
* `ProcessModule.render_declares`: what the text of a module tells.
-/

namespace Pipewright

namespace Text

variable {start s : String}

theorem begins_append (h : begins start s = true) (t : String) : begins start (s ++ t) = true := by
  rw [begins_iff, String.toList_append]
  exact (begins_iff.mp h).trans (List.prefix_append _ _)

/-- A line is not blank when it begins with something that is not blank. -/
theorem isBlank_eq_false_of_begins (hstart : isBlank start = false) (h : begins start s = true) :
    isBlank s = false := by
  rw [Bool.eq_false_iff, ne_eq, isBlank_iff] at hstart ⊢
  exact fun hblank => hstart fun c hc => hblank c ((begins_iff.mp h).subset hc)

/-- Neither of the texts begins the other. -/
def Apart (s t : String) : Prop :=
  begins s t = false ∧ begins t s = false

instance : Decidable (Apart start s) := inferInstanceAs (Decidable (_ ∧ _))

/-- Of two texts that are apart, only one begins a line. -/
theorem Apart.begins_append (h : Apart start s) (t : String) : begins start (s ++ t) = false := by
  simp only [Apart, Bool.eq_false_iff, ne_eq, begins_iff] at h ⊢
  rw [String.toList_append]
  intro hprefix
  exact (List.prefix_or_prefix_of_prefix hprefix (List.prefix_append _ _)).elim h.1 h.2

end Text

namespace ProcessModule

variable {p q : ProcessModule}

/-! ## The lines in front of the script -/

/-- The label, the environment and the outputs are single lines. -/
structure SingleLines (p : ProcessModule) : Prop where
  label : '\n' ∉ p.label.toList
  runtime : '\n' ∉ p.runtime.toList
  outputs : ∀ output ∈ p.outputs, '\n' ∉ output.toList

instance (p : ProcessModule) : Decidable p.SingleLines :=
  decidable_of_iff ('\n' ∉ p.label.toList ∧ '\n' ∉ p.runtime.toList ∧
      ∀ output ∈ p.outputs, '\n' ∉ output.toList)
    ⟨fun ⟨hlabel, hruntime, houtputs⟩ => ⟨hlabel, hruntime, houtputs⟩,
      fun h => ⟨h.label, h.runtime, h.outputs⟩⟩

/-- The blocks in front of the script, some of which may be empty. -/
def blocks (p : ProcessModule) : List (List String) :=
  [p.runtimeLines, p.limitLines, p.inputLines, p.outputLines]

/-- The lines between the first one and the blocks, which are the same in all modules. -/
def fixedLines : List String :=
  ["tag \x7b \"running\" \x7d", "label \"unspecific_label\""]

/-- The lines in front of the script. -/
def openLines (p : ProcessModule) : List String :=
  ("process " ++ p.label ++ " \x7b") :: fixedLines.map indented ++
    p.blocks.flatMap (fun b => block (b.map indented)) ++ [""]

theorem indented_of_ne {line : String} (h : line ≠ "") : indented line = "    " ++ line := by
  rw [indented, if_neg (by simpa using h)]

theorem map_indented_block (lines : List String) :
    (block lines).map indented = block (lines.map indented) := by
  rcases lines with _ | ⟨l, ls⟩
  · rfl
  · rfl

theorem bodyLines_eq (p : ProcessModule) :
    p.bodyLines = fixedLines ++ p.blocks.flatMap block ++
      "" :: "script:" :: p.scriptLines.drop 1 := by
  have hscript : block p.scriptLines = "" :: "script:" :: p.scriptLines.drop 1 := rfl
  rw [bodyLines, hscript]
  simp only [fixedLines, blocks, List.flatMap_cons, List.flatMap_nil, List.append_nil,
    List.append_assoc]

theorem render_eq (p : ProcessModule) :
    p.render = Text.unlines (p.openLines ++
      ("    script:" :: (p.scriptLines.drop 1).map indented ++ ["\x7d", ""])) := by
  rw [render, bodyLines_eq, List.map_append, List.map_append, List.map_flatMap]
  simp only [map_indented_block, openLines, List.append_assoc, List.cons_append, List.nil_append,
    List.map_cons]
  rfl

/-! ## The lines of the blocks -/

theorem mem_runtimeLines {line : String} (h : line ∈ p.runtimeLines) :
    line = "conda \"" ++ (p.runtime ++ "\"") := by
  rw [runtimeLines] at h
  split at h
  · cases h
  · rw [List.mem_singleton.mp h, String.append_assoc]

theorem mem_limitLines {line : String} (h : line ∈ p.limitLines) :
    (∃ n, line = "memory '" ++ (Text.decimal n ++ "GB'")) ∨
      ∃ n, line = "cpus " ++ Text.decimal n := by
  rw [limitLines, List.mem_append, Option.mem_toList, Option.mem_toList] at h
  rcases h with h | h
  · obtain ⟨n, -, rfl⟩ := Option.map_eq_some_iff.mp h
    exact .inl ⟨n, String.append_assoc⟩
  · obtain ⟨n, -, rfl⟩ := Option.map_eq_some_iff.mp h
    exact .inr ⟨n, rfl⟩

theorem mem_inputLines {line : String} (h : line ∈ p.inputLines) :
    line = "input:" ∨ ∃ i, line = "path input" ++ Text.decimal i := by
  rw [inputLines] at h
  split at h
  · cases h
  · obtain rfl | h := List.mem_cons.mp h
    · exact .inl rfl
    · obtain ⟨i, -, rfl⟩ := List.mem_map.mp h
      exact .inr ⟨i, rfl⟩

theorem mem_outputLines {line : String} (h : line ∈ p.outputLines) :
    line = "output:" ∨ ∃ output ∈ p.outputs, ∃ i,
      line = "path \"" ++ (output ++ ("\", emit: output" ++ Text.decimal i)) := by
  rw [outputLines] at h
  split at h
  · cases h
  · obtain rfl | h := List.mem_cons.mp h
    · exact .inl rfl
    · obtain ⟨⟨output, i⟩, hmem, rfl⟩ := List.mem_map.mp h
      refine .inr ⟨output, List.fst_mem_of_mem_zipIdx hmem, i, ?_⟩
      simp only [outputLine, String.append_assoc]

theorem mem_blocks {b : List String} : b ∈ p.blocks ↔
    b = p.runtimeLines ∨ b = p.limitLines ∨ b = p.inputLines ∨ b = p.outputLines := by
  simp only [blocks, List.mem_cons, List.not_mem_nil, or_false]

/-- No block has an empty line. -/
theorem ne_empty_of_mem_blocks : ∀ b ∈ p.blocks, ∀ line ∈ b, line ≠ "" := by
  intro b hb line h
  rcases mem_blocks.mp hb with rfl | rfl | rfl | rfl
  · rw [mem_runtimeLines h]
    simp
  · obtain ⟨n, rfl⟩ | ⟨n, rfl⟩ := mem_limitLines h <;> simp
  · obtain rfl | ⟨i, rfl⟩ := mem_inputLines h <;> simp
  · obtain rfl | ⟨output, -, i, rfl⟩ := mem_outputLines h <;> simp

/-- The lines between the first one and the script are empty ones and indented ones. -/
theorem mem_tail_openLines {line : String} (h : line ∈ p.openLines.tail) :
    line = "" ∨ ∃ l ≠ "", line = "    " ++ l ∧ (l ∈ fixedLines ∨ ∃ b ∈ p.blocks, l ∈ b) := by
  rw [openLines, List.cons_append, List.cons_append, List.tail_cons, List.mem_append,
    List.mem_append, List.mem_singleton] at h
  obtain (h | h) | h := h
  · obtain ⟨l, hl, rfl⟩ := List.mem_map.mp h
    have hne : l ≠ "" := by
      rintro rfl
      revert hl
      decide
    exact .inr ⟨l, hne, indented_of_ne hne, .inl hl⟩
  · obtain ⟨b, hb, hline⟩ := List.mem_flatMap.mp h
    rw [block] at hline
    split at hline
    · cases hline
    · obtain rfl | hmem := List.mem_cons.mp hline
      · exact .inl rfl
      · obtain ⟨l, hl, rfl⟩ := List.mem_map.mp hmem
        have hne := ne_empty_of_mem_blocks b hb l hl
        exact .inr ⟨l, hne, indented_of_ne hne, .inr ⟨b, hb, hl⟩⟩
  · exact .inl h

/-- No line in front of the script has a line feed in it. -/
theorem SingleLines.notMem_of_mem_openLines (h : p.SingleLines) :
    ∀ line ∈ p.openLines, '\n' ∉ line.toList := by
  have hdecimal : ∀ n, '\n' ∉ (Text.decimal n).toList := fun n hmem =>
    absurd (Text.isDigit_of_mem_decimal hmem) (by decide)
  have hblocks : ∀ b ∈ p.blocks, ∀ line ∈ b, '\n' ∉ line.toList := by
    intro b hb line hline
    rcases mem_blocks.mp hb with rfl | rfl | rfl | rfl
    · rw [mem_runtimeLines hline]
      simp [h.runtime]
    · obtain ⟨n, rfl⟩ | ⟨n, rfl⟩ := mem_limitLines hline <;> simp [hdecimal]
    · obtain rfl | ⟨i, rfl⟩ := mem_inputLines hline <;> simp [hdecimal]
    · obtain rfl | ⟨output, houtput, i, rfl⟩ := mem_outputLines hline
      · simp
      · simp [hdecimal, h.outputs output houtput]
  have htail : ∀ line ∈ p.openLines.tail, '\n' ∉ line.toList := by
    intro line hline
    obtain rfl | ⟨l, -, rfl, hl | ⟨b, hb, hl⟩⟩ := mem_tail_openLines hline
    · simp
    · have hfixed : ∀ l ∈ fixedLines, '\n' ∉ l.toList := by decide
      simp [hfixed l hl]
    · simp [hblocks b hb l hl]
  exact List.forall_mem_cons.mpr ⟨by simp [h.label], htail⟩

/-- The lines of a module are those in front of the script, and then the script begins. -/
theorem SingleLines.lines_render (h : p.SingleLines) :
    ∃ script, Text.lines p.render = p.openLines ++ "    script:" :: script := by
  have hopen : p.openLines.flatMap Text.lines = p.openLines := by
    refine (List.flatMap_congr fun line hline => ?_).trans (List.flatMap_singleton' _)
    exact Text.pieces_of_notMem (h.notMem_of_mem_openLines line hline)
  rw [render_eq, Text.lines_unlines_eq_flatMap (by simp), List.flatMap_append, hopen]
  exact ⟨_, rfl⟩

/-! ## Lines told by how they begin -/

/-- The lines of a block that begin with a text, when no line of the block does. -/
theorem filter_eq_nil {lines : List String} {start : String}
    (h : ∀ line ∈ lines, Text.begins start line = false) :
    lines.filter (Text.begins start) = [] :=
  List.filter_eq_nil_iff.mpr fun line hline => by rw [h line hline]; exact Bool.false_ne_true

section Filter

variable {start : String}

theorem filter_runtimeLines (h : Text.Apart start "conda \"") :
    p.runtimeLines.filter (Text.begins start) = [] :=
  filter_eq_nil fun line hline => by rw [mem_runtimeLines hline, h.begins_append]

theorem filter_limitLines (hmemory : Text.Apart start "memory '")
    (hcpu : Text.Apart start "cpus ") : p.limitLines.filter (Text.begins start) = [] := by
  refine filter_eq_nil fun line hline => ?_
  obtain ⟨n, rfl⟩ | ⟨n, rfl⟩ := mem_limitLines hline
  · exact hmemory.begins_append _
  · exact hcpu.begins_append _

theorem filter_inputLines (htitle : Text.Apart start "input:")
    (hinput : Text.Apart start "path input") : p.inputLines.filter (Text.begins start) = [] := by
  refine filter_eq_nil fun line hline => ?_
  obtain rfl | ⟨i, rfl⟩ := mem_inputLines hline
  · exact htitle.1
  · exact hinput.begins_append _

theorem filter_outputLines (htitle : Text.Apart start "output:")
    (houtput : Text.Apart start "path \"") : p.outputLines.filter (Text.begins start) = [] := by
  refine filter_eq_nil fun line hline => ?_
  obtain rfl | ⟨output, -, i, rfl⟩ := mem_outputLines hline
  · exact htitle.1
  · exact houtput.begins_append _

theorem filter_indented {lines : List String} (hlines : ∀ line ∈ lines, line ≠ "") :
    (lines.map indented).filter (Text.begins ("    " ++ start)) =
      (lines.filter (Text.begins start)).map ("    " ++ ·) := by
  rw [List.map_congr_left fun line hline => indented_of_ne (hlines line hline), List.filter_map]
  refine congrArg _ (List.filter_congr fun line _ => ?_)
  exact Bool.eq_iff_iff.mpr Text.begins_append_left_iff

theorem filter_block (lines : List String) (hstart : start ≠ "") :
    (block lines).filter (Text.begins start) = lines.filter (Text.begins start) := by
  rw [block]
  split
  · next hempty => rw [List.isEmpty_iff.mp hempty]
  · rw [List.filter_cons_of_neg (by rw [Text.begins_empty hstart]; exact Bool.false_ne_true)]

/-- The lines in front of the script that begin in a way in which the first ones do not are lines of
the blocks. -/
theorem filter_openLines (p : ProcessModule) (start : String)
    (hfixed : fixedLines.filter (Text.begins start) = []) :
    p.openLines.filter (Text.begins ("    " ++ start)) =
      (p.blocks.flatMap fun b => b.filter (Text.begins start)).map ("    " ++ ·) := by
  have hne : "    " ++ start ≠ "" := by simp
  have hfirst : Text.begins ("    " ++ start) ("process " ++ p.label ++ " \x7b") = false := by
    rw [Bool.eq_false_iff, ne_eq, Text.begins_iff]
    simp only [String.toList_append]
    intro hprefix
    obtain ⟨hchar, -⟩ := List.cons_prefix_cons.mp hprefix
    cases hchar
  have hblocks : (p.blocks.flatMap fun b => block (b.map indented)).filter
      (Text.begins ("    " ++ start)) =
      (p.blocks.flatMap fun b => b.filter (Text.begins start)).map ("    " ++ ·) := by
    rw [List.filter_flatMap, List.map_flatMap]
    refine List.flatMap_congr fun b hb => ?_
    rw [filter_block _ hne, filter_indented (ne_empty_of_mem_blocks b hb)]
  have hfixed' : (fixedLines.map indented).filter (Text.begins ("    " ++ start)) = [] := by
    rw [filter_indented (by decide), hfixed, List.map_nil]
  rw [openLines, List.filter_append, List.filter_append, hblocks,
    List.filter_cons_of_neg (by simp [hfirst]), hfixed', List.nil_append,
    List.filter_cons_of_neg (by simp [Text.begins_empty hne]), List.filter_nil, List.append_nil]

theorem flatMap_blocks (f : List String → List String) :
    p.blocks.flatMap f =
      f p.runtimeLines ++ f p.limitLines ++ f p.inputLines ++ f p.outputLines := by
  simp only [blocks, List.flatMap_cons, List.flatMap_nil, List.append_nil, List.append_assoc]

end Filter

/-! ## What lines declare -/

/-- The name under which a process gives an output, counted from one. -/
def emitName (i : Nat) : String :=
  "output" ++ Text.decimal i

/-- The declaration of an output, indented. -/
def emitLine (output : String) (i : Nat) : String :=
  "    path \"" ++ output ++ "\", emit: " ++ emitName i

/-- How the lines begin that declare something, within the braces. -/
def declaring : List String :=
  ["conda ", "memory ", "cpus ", "input:", "path input", "output:", "path \""]

/-- No two blank lines follow one another. -/
def Spaced (lines : List String) : Prop :=
  lines.IsChain fun line next => Text.isBlank line = true → Text.isBlank next = false

/-- The lines declare what the module has and nothing else, and the script does not begin in them.
No two blank lines follow one another, also where the script begins. -/
structure Declares (p : ProcessModule) (lines : List String) : Prop where
  process : lines.head? = some ("process " ++ p.label ++ " \x7b")
  runtime : lines.filter (Text.begins "    conda ") =
    if p.runtime = "" then [] else ["    conda \"" ++ p.runtime ++ "\""]
  memory : lines.filter (Text.begins "    memory ") =
    ((positive p.memory).map fun n => "    memory '" ++ Text.decimal n ++ "GB'").toList
  cpu : lines.filter (Text.begins "    cpus ") =
    ((positive p.cpu).map fun n => "    cpus " ++ Text.decimal n).toList
  inputTitle : lines.filter (Text.begins "    input:") =
    if p.inputCount = 0 then [] else ["    input:"]
  inputs : lines.filter (Text.begins "    path input") =
    (List.range' 1 p.inputCount).map fun i => "    path input" ++ Text.decimal i
  outputTitle : lines.filter (Text.begins "    output:") =
    if p.outputs = [] then [] else ["    output:"]
  outputs : lines.filter (Text.begins "    path \"") =
    (p.outputs.zipIdx 1).map fun (output, i) => emitLine output i
  known : ∀ line ∈ lines.tail, line = "" ∨ line ∈ fixedLines.map indented ∨
    ∃ start ∈ declaring, Text.begins ("    " ++ start) line = true
  script : lines.filter (Text.begins "    script:") = []
  spaced : Spaced (lines ++ ["    script:"])

/-! ## The lines in front of the script declare what the module has -/

theorem filter_self {lines : List String} {start : String}
    (h : ∀ line ∈ lines, Text.begins start line = true) :
    lines.filter (Text.begins start) = lines :=
  List.filter_eq_self.mpr h

theorem forall_mem_map_toList {limit : Option Nat} {f : Nat → String} {P : String → Prop}
    (h : ∀ n, P (f n)) : ∀ line ∈ (limit.map f).toList, P line := by
  intro line hline
  obtain ⟨n, -, rfl⟩ := Option.map_eq_some_iff.mp (Option.mem_toList.mp hline)
  exact h n

theorem runtime_openLines (p : ProcessModule) : p.openLines.filter (Text.begins "    conda ") =
    if p.runtime = "" then [] else ["    conda \"" ++ p.runtime ++ "\""] := by
  have hself : p.runtimeLines.filter (Text.begins "conda ") = p.runtimeLines :=
    filter_self fun line hline => by rw [mem_runtimeLines hline, Text.begins_append (by decide)]
  refine (p.filter_openLines "conda " (by decide)).trans ?_
  rw [flatMap_blocks, hself, filter_limitLines (by decide) (by decide),
    filter_inputLines (by decide) (by decide), filter_outputLines (by decide) (by decide),
    runtimeLines]
  simp only [List.append_nil, String.isEmpty_iff]
  split
  · rfl
  · simp only [List.map_cons, List.map_nil, ← String.append_assoc]
    rfl

theorem memory_openLines (p : ProcessModule) : p.openLines.filter (Text.begins "    memory ") =
    ((positive p.memory).map fun n => "    memory '" ++ Text.decimal n ++ "GB'").toList := by
  have hself : p.limitLines.filter (Text.begins "memory ") =
      ((positive p.memory).map fun n => "memory '" ++ Text.decimal n ++ "GB'").toList := by
    rw [limitLines, List.filter_append, filter_self, filter_eq_nil, List.append_nil]
    · exact forall_mem_map_toList fun n => Text.Apart.begins_append (by decide) _
    · exact forall_mem_map_toList fun n => by
        rw [String.append_assoc, Text.begins_append (by decide)]
  refine (p.filter_openLines "memory " (by decide)).trans ?_
  rw [flatMap_blocks, hself, filter_runtimeLines (by decide),
    filter_inputLines (by decide) (by decide), filter_outputLines (by decide) (by decide)]
  rcases positive p.memory with _ | n
  · rfl
  · simp [← String.append_assoc]

theorem cpu_openLines (p : ProcessModule) : p.openLines.filter (Text.begins "    cpus ") =
    ((positive p.cpu).map fun n => "    cpus " ++ Text.decimal n).toList := by
  have hself : p.limitLines.filter (Text.begins "cpus ") =
      ((positive p.cpu).map fun n => "cpus " ++ Text.decimal n).toList := by
    rw [limitLines, List.filter_append, filter_eq_nil, filter_self, List.nil_append]
    · exact forall_mem_map_toList fun n => Text.begins_append (by decide) _
    · exact forall_mem_map_toList fun n => by
        rw [String.append_assoc, Text.Apart.begins_append (by decide)]
  refine (p.filter_openLines "cpus " (by decide)).trans ?_
  rw [flatMap_blocks, hself, filter_runtimeLines (by decide),
    filter_inputLines (by decide) (by decide), filter_outputLines (by decide) (by decide)]
  rcases positive p.cpu with _ | n
  · rfl
  · simp [← String.append_assoc]

theorem inputTitle_openLines (p : ProcessModule) :
    p.openLines.filter (Text.begins "    input:") =
      if p.inputCount = 0 then [] else ["    input:"] := by
  have hself : p.inputLines.filter (Text.begins "input:") =
      if p.inputCount = 0 then [] else ["input:"] := by
    rw [inputLines]
    split
    · rfl
    · rw [List.filter_cons_of_pos (by decide), filter_eq_nil]
      exact List.forall_mem_map.mpr fun i _ => Text.Apart.begins_append (by decide) _
  refine (p.filter_openLines "input:" (by decide)).trans ?_
  rw [flatMap_blocks, hself, filter_runtimeLines (by decide),
    filter_limitLines (by decide) (by decide), filter_outputLines (by decide) (by decide)]
  split <;> rfl

theorem inputs_openLines (p : ProcessModule) :
    p.openLines.filter (Text.begins "    path input") =
      (List.range' 1 p.inputCount).map fun i => "    path input" ++ Text.decimal i := by
  have hself : p.inputLines.filter (Text.begins "path input") =
      (List.range' 1 p.inputCount).map fun i => "path input" ++ Text.decimal i := by
    rw [inputLines]
    split
    · next hzero => rw [hzero]; rfl
    · rw [List.filter_cons_of_neg (by decide), filter_self]
      exact List.forall_mem_map.mpr fun i _ => Text.begins_append_self _ _
  refine (p.filter_openLines "path input" (by decide)).trans ?_
  rw [flatMap_blocks, hself, filter_runtimeLines (by decide),
    filter_limitLines (by decide) (by decide), filter_outputLines (by decide) (by decide)]
  simp [← String.append_assoc]

theorem outputTitle_openLines (p : ProcessModule) :
    p.openLines.filter (Text.begins "    output:") =
      if p.outputs = [] then [] else ["    output:"] := by
  have hself : p.outputLines.filter (Text.begins "output:") =
      if p.outputs = [] then [] else ["output:"] := by
    simp only [outputLines, List.isEmpty_iff]
    split
    · rfl
    · rw [List.filter_cons_of_pos (by decide), filter_eq_nil]
      refine List.forall_mem_map.mpr fun output _ => ?_
      simp only [outputLine, String.append_assoc]
      exact Text.Apart.begins_append (by decide) _
  refine (p.filter_openLines "output:" (by decide)).trans ?_
  rw [flatMap_blocks, hself, filter_runtimeLines (by decide),
    filter_limitLines (by decide) (by decide), filter_inputLines (by decide) (by decide)]
  split <;> rfl

theorem outputs_openLines (p : ProcessModule) :
    p.openLines.filter (Text.begins "    path \"") =
      (p.outputs.zipIdx 1).map fun (output, i) => emitLine output i := by
  have hself : p.outputLines.filter (Text.begins "path \"") =
      (p.outputs.zipIdx 1).map fun (output, i) => outputLine output i := by
    simp only [outputLines, List.isEmpty_iff]
    split
    · next hnil => rw [hnil]; rfl
    · rw [List.filter_cons_of_neg (by decide), filter_self]
      refine List.forall_mem_map.mpr fun output _ => ?_
      simp only [outputLine, String.append_assoc]
      exact Text.begins_append_self _ _
  refine (p.filter_openLines "path \"" (by decide)).trans ?_
  rw [flatMap_blocks, hself, filter_runtimeLines (by decide),
    filter_limitLines (by decide) (by decide), filter_inputLines (by decide) (by decide)]
  have hline : ∀ output i, "    " ++ outputLine output i = emitLine output i := fun output i => by
    have hemit : "\", emit: output" = "\", emit: " ++ "output" := rfl
    simp only [outputLine, emitLine, emitName, hemit, ← String.append_assoc]
    rfl
  simp [hline]

/-- The script does not begin in front of the script. -/
theorem script_openLines (p : ProcessModule) :
    p.openLines.filter (Text.begins "    script:") = [] := by
  refine (p.filter_openLines "script:" (by decide)).trans ?_
  rw [flatMap_blocks, filter_runtimeLines (by decide), filter_limitLines (by decide) (by decide),
    filter_inputLines (by decide) (by decide), filter_outputLines (by decide) (by decide)]
  rfl

/-- The lines of the blocks declare something. -/
theorem exists_begins_of_mem_blocks : ∀ b ∈ p.blocks, ∀ line ∈ b,
    ∃ start ∈ declaring, Text.begins start line = true := by
  intro b hb line h
  rcases mem_blocks.mp hb with rfl | rfl | rfl | rfl
  · rw [mem_runtimeLines h]
    exact ⟨"conda ", by decide, Text.begins_append (by decide) _⟩
  · obtain ⟨n, rfl⟩ | ⟨n, rfl⟩ := mem_limitLines h
    · exact ⟨"memory ", by decide, Text.begins_append (by decide) _⟩
    · exact ⟨"cpus ", by decide, Text.begins_append_self _ _⟩
  · obtain rfl | ⟨i, rfl⟩ := mem_inputLines h
    · exact ⟨"input:", by decide, by decide⟩
    · exact ⟨"path input", by decide, Text.begins_append_self _ _⟩
  · obtain rfl | ⟨output, -, i, rfl⟩ := mem_outputLines h
    · exact ⟨"output:", by decide, by decide⟩
    · exact ⟨"path \"", by decide, Text.begins_append_self _ _⟩

theorem known_openLines (p : ProcessModule) : ∀ line ∈ p.openLines.tail,
    line = "" ∨ line ∈ fixedLines.map indented ∨
      ∃ start ∈ declaring, Text.begins ("    " ++ start) line = true := by
  intro line hline
  obtain rfl | ⟨l, hne, rfl, hl | ⟨b, hb, hl⟩⟩ := mem_tail_openLines hline
  · exact .inl rfl
  · exact .inr (.inl (List.mem_map.mpr ⟨l, hl, indented_of_ne hne⟩))
  · obtain ⟨start, hstart, hbegins⟩ := exists_begins_of_mem_blocks b hb l hl
    exact .inr (.inr ⟨start, hstart, Text.begins_append_left_iff.mpr hbegins⟩)

theorem isBlank_eq_false_of_mem_blocks : ∀ b ∈ p.blocks, ∀ line ∈ b,
    Text.isBlank (indented line) = false := by
  intro b hb line h
  obtain ⟨start, hstart, hbegins⟩ := exists_begins_of_mem_blocks b hb line h
  have hdeclaring : ∀ start ∈ declaring, Text.isBlank ("    " ++ start) = false := by decide
  rw [indented_of_ne (ne_empty_of_mem_blocks b hb line h)]
  exact Text.isBlank_eq_false_of_begins (hdeclaring start hstart)
    (Text.begins_append_left_iff.mpr hbegins)

/-- Lines that are not blank may stand in front. -/
theorem spaced_append {lines rest : List String} (h : ∀ line ∈ lines, Text.isBlank line = false)
    (hrest : Spaced rest) : Spaced (lines ++ rest) := by
  induction lines with
  | nil => exact hrest
  | cons line lines ih =>
    obtain ⟨hline, hlines⟩ := List.forall_mem_cons.mp h
    refine List.isChain_cons.mpr ⟨fun _ _ hblank => ?_, ih hlines⟩
    rw [hline] at hblank
    cases hblank

theorem spaced_block_append {lines rest : List String}
    (h : ∀ line ∈ lines, Text.isBlank line = false) (hrest : Spaced rest) :
    Spaced (block lines ++ rest) := by
  rw [block]
  split
  · exact hrest
  · next hne =>
    obtain ⟨line, lines, rfl⟩ := List.exists_cons_of_ne_nil (mt List.isEmpty_iff.mpr hne)
    exact List.isChain_cons_cons.mpr ⟨fun _ => h _ List.mem_cons_self, spaced_append h hrest⟩

theorem spaced_flatMap_block_append {blocks : List (List String)} {rest : List String}
    (h : ∀ b ∈ blocks, ∀ line ∈ b, Text.isBlank line = false) (hrest : Spaced rest) :
    Spaced (blocks.flatMap block ++ rest) := by
  induction blocks with
  | nil => exact hrest
  | cons b blocks ih =>
    obtain ⟨hb, hblocks⟩ := List.forall_mem_cons.mp h
    rw [List.flatMap_cons, List.append_assoc]
    exact spaced_block_append hb (ih hblocks)

theorem spaced_openLines (p : ProcessModule) : Spaced (p.openLines ++ ["    script:"]) := by
  have hblocks : ∀ b ∈ p.blocks.map (List.map indented), ∀ line ∈ b,
      Text.isBlank line = false := by
    intro b hb line hline
    obtain ⟨lines, hlines, rfl⟩ := List.mem_map.mp hb
    obtain ⟨l, hl, rfl⟩ := List.mem_map.mp hline
    exact isBlank_eq_false_of_mem_blocks lines hlines l hl
  have hprocess : Text.isBlank ("process " ++ p.label ++ " \x7b") = false := by
    rw [String.append_assoc]
    exact Text.isBlank_eq_false_of_begins (by decide) (Text.begins_append_self "process " _)
  have hfirst : ∀ line ∈ ("process " ++ p.label ++ " \x7b") :: fixedLines.map indented,
      Text.isBlank line = false := List.forall_mem_cons.mpr ⟨hprocess, by decide⟩
  have hend : Spaced ["", "    script:"] := List.isChain_pair.mpr fun _ => by decide
  have hspaced := spaced_append hfirst (spaced_flatMap_block_append hblocks hend)
  rw [List.flatMap_map] at hspaced
  simpa only [openLines, List.append_assoc, List.cons_append, List.nil_append] using hspaced

theorem declares_openLines (p : ProcessModule) : p.Declares p.openLines where
  process := rfl
  runtime := p.runtime_openLines
  memory := p.memory_openLines
  cpu := p.cpu_openLines
  inputTitle := p.inputTitle_openLines
  inputs := p.inputs_openLines
  outputTitle := p.outputTitle_openLines
  outputs := p.outputs_openLines
  known := p.known_openLines
  script := p.script_openLines
  spaced := p.spaced_openLines

/-! ## Modules that declare the same -/

/-- The modules declare the same, where a limit of zero is none. -/
structure AgreesWith (p q : ProcessModule) : Prop where
  label : p.label = q.label
  runtime : p.runtime = q.runtime
  memory : positive p.memory = positive q.memory
  cpu : positive p.cpu = positive q.cpu
  inputCount : p.inputCount = q.inputCount
  outputs : p.outputs = q.outputs

/-- Outputs are told by their declarations, whatever they are. -/
theorem eq_of_map_emitLine {xs ys : List String} {k : Nat}
    (h : ((xs.zipIdx k).map fun (output, i) => emitLine output i) =
      (ys.zipIdx k).map fun (output, i) => emitLine output i) : xs = ys := by
  induction xs generalizing ys k with
  | nil =>
    rcases ys with _ | ⟨y, ys⟩
    · rfl
    · cases h
  | cons x xs ih =>
    rcases ys with _ | ⟨y, ys⟩
    · cases h
    · obtain ⟨hline, hlines⟩ := List.cons.inj h
      have hxy : x = y := by simpa [emitLine] using hline
      rw [hxy, ih hlines]

theorem eq_of_map_toList {limit limit' : Option Nat} {f : Nat → String} (hf : Function.Injective f)
    (h : (limit.map f).toList = (limit'.map f).toList) : limit = limit' := by
  refine Option.map_injective hf ?_
  simpa using congrArg List.head? h

/-- Lines declare one module only. -/
theorem agreesWith_of_declares {lines : List String} (hp : p.Declares lines)
    (hq : q.Declares lines) : p.AgreesWith q where
  label := by
    have h := Option.some.inj (hp.process.symm.trans hq.process)
    simpa using h
  runtime := by
    have h := hp.runtime.symm.trans hq.runtime
    split at h <;> split at h
    · next hr hr' => rw [hr, hr']
    · cases h
    · cases h
    · simpa using h
  memory := by
    have hline : Function.Injective fun n => "    memory '" ++ Text.decimal n ++ "GB'" :=
      fun m n h => Text.decimal_injective (by simpa using h)
    exact eq_of_map_toList hline (hp.memory.symm.trans hq.memory)
  cpu := by
    have hline : Function.Injective fun n => "    cpus " ++ Text.decimal n :=
      fun m n h => Text.decimal_injective (by simpa using h)
    exact eq_of_map_toList hline (hp.cpu.symm.trans hq.cpu)
  inputCount := by
    have h := congrArg List.length (hp.inputs.symm.trans hq.inputs)
    simpa using h
  outputs := eq_of_map_emitLine (hp.outputs.symm.trans hq.outputs)

/-- Modules with the same text have the same lines in front of the script. -/
theorem openLines_eq_of_render_eq (hp : p.SingleLines) (hq : q.SingleLines)
    (h : p.render = q.render) : p.openLines = q.openLines := by
  have hscript : ∀ (p : ProcessModule), ∀ line ∈ p.openLines,
      decide (line ≠ "    script:") = true := by
    intro p line hline
    refine decide_eq_true fun heq => ?_
    have hbegins := List.filter_eq_nil_iff.mp p.script_openLines line hline
    rw [heq] at hbegins
    exact hbegins (by decide)
  obtain ⟨script, hlines⟩ := hp.lines_render
  obtain ⟨script', hlines'⟩ := hq.lines_render
  rw [← h, hlines] at hlines'
  exact (Text.eq_of_append_cons_eq (hscript p) (hscript q) (by decide) (by decide) hlines').1

theorem emitName_injective : Function.Injective emitName :=
  fun _ _ h => Text.decimal_injective ((String.append_right_inj _).mp h)

/-- Modules with the same text declare the same.  The lines of a module in front of its script
declare what it has, and its outputs have names of their own. -/
theorem render_declares (hp : p.SingleLines) (hq : q.SingleLines) :
    (p.render = q.render → p.AgreesWith q) ∧
      (∃ lines script, Text.lines p.render = lines ++ "    script:" :: script ∧
        p.Declares lines) ∧
      ((p.outputs.zipIdx 1).map fun o => emitName o.2).Nodup := by
  refine ⟨fun h => ?_, ?_, ?_⟩
  · have hq' := q.declares_openLines
    rw [← openLines_eq_of_render_eq hp hq h] at hq'
    exact agreesWith_of_declares p.declares_openLines hq'
  · obtain ⟨script, hlines⟩ := hp.lines_render
    exact ⟨p.openLines, script, hlines, p.declares_openLines⟩
  · have hnames : ((p.outputs.zipIdx 1).map fun o => emitName o.2) =
        (List.range' 1 p.outputs.length).map emitName := by
      rw [← List.zipIdx_map_snd 1 p.outputs, List.map_map]
      rfl
    rw [hnames]
    exact List.Nodup.map emitName_injective List.nodup_range'

/-- Outputs that look like the end of a declaration or like another line, a limit of zero that is
none, and two variables where the other module has one. -/
theorem render_declares_lookalikes :
    let p : ProcessModule := ⟨"load", "script:", some 0, some 2, [⟨"A", "1"⟩, ⟨"B", "2"⟩], 1,
      ["x\", emit: output1", "    input:"], .python "load.py"⟩
    let q : ProcessModule := { p with cpu := none, settings := [⟨"A='1'\n    B", "2"⟩] }
    p ≠ q ∧ p.render = q.render ∧ p.AgreesWith q ∧
      ∃ lines script, Text.lines p.render = lines ++ "    script:" :: script ∧
        p.Declares lines := by
  intro p q
  have hrender : p.render = q.render := by decide +kernel
  have hp : p.SingleLines := by decide
  have hq : q.SingleLines := by decide
  obtain ⟨hagrees, hlines, -⟩ := render_declares hp hq
  exact ⟨by decide, hrender, hagrees hrender, hlines⟩

end ProcessModule

end Pipewright
