import Pipewright.Composition
import Pipewright.Proofs.Step.Names
import Pipewright.Proofs.Text.Lines

/-!
# Lines of the composed workflow

Each line of the imports and of the body tells by how it begins what it is about: the import and
the call of a process by its label, and the declaration of an input by the name of the step and
the position of the input.  In a composition of steps whose labels differ, the lines that begin in
one of these ways are therefore lines of a single step.

* `StepName.begins_channel_iff`, `StepName.begins_call_iff`, `StepName.begins_include_iff`: what a
  line is about.
* `ComposedStep.workflowLines`, `ComposedStep.lineBlocks`: the lines of the body about a step.
* `ComposedStep.Proper`: steps of which each line is one line.
-/

namespace Pipewright

variable {n m : StepName} {steps : List ComposedStep} {s : ComposedStep}

/-! ## What lines are about -/

namespace StepName

/-- The variable that carries the input at a position. -/
def channel (n : StepName) (position : Nat) : String :=
  n.text ++ "_channel_input" ++ Text.decimal position

theorem stops_underscore (rest : String) : Text.Stops Char.isAlphanum ("_channel_input" ++ rest) :=
  .append ⟨'_', "channel_input".toList, rfl, rfl⟩ rest

theorem stops_bracket (rest : String) : Text.Stops Char.isAlphanum ("(" ++ rest) :=
  .append ⟨'(', [], rfl, rfl⟩ rest

/-- A line about an input of a step is about no other input, and of no other step. -/
theorem begins_channel_iff (hn : n.Lettered) (hm : m.Lettered) {i k : Nat} {rest : String} :
    Text.begins (n.channel i ++ "=") (m.channel k ++ ("=" ++ rest)) = true ↔
      n.text = m.text ∧ i = k := by
  have hequals : Text.Stops Char.isDigit "=" := ⟨'=', [], rfl, rfl⟩
  have hdigit : ∀ k, ∀ c ∈ (Text.decimal k).toList, c.isDigit = true := fun k c hc =>
    Text.isDigit_of_mem_decimal hc
  simp only [channel, String.append_assoc]
  rw [Text.begins_append_append_iff hn hm (stops_underscore _) (stops_underscore _),
    Text.begins_append_left_iff,
    Text.begins_append_append_iff (hdigit i) (hdigit k) hequals (hequals.append rest)]
  constructor
  · rintro ⟨htext, hposition, -⟩
    exact ⟨htext, Text.decimal_injective hposition⟩
  · rintro ⟨htext, rfl⟩
    exact ⟨htext, rfl, Text.begins_append_self _ _⟩

/-- A line about an input is not the call of a process, whatever its label. -/
theorem begins_channel_call (hn : n.Lettered) (hm : m.Lettered) (i : Nat) (rest : String) :
    Text.begins (n.channel i ++ "=") (m.label ++ ("(" ++ rest)) = false := by
  rw [Bool.eq_false_iff, ne_eq, channel]
  simp only [String.append_assoc]
  rw [Text.begins_append_append_iff hn (fun c hc => hm.isAlphanum_of_mem_label hc)
    (stops_underscore _) (stops_bracket _)]
  rintro ⟨-, h⟩
  simp only [Text.begins_iff, String.toList_append] at h
  obtain ⟨hchar, -⟩ := List.cons_prefix_cons.mp h
  cases hchar

/-- A call is no line about an input. -/
theorem begins_call_channel (hn : n.Lettered) (hm : m.Lettered) (i : Nat) (rest : String) :
    Text.begins (n.label ++ "(") (m.channel i ++ rest) = false := by
  rw [Bool.eq_false_iff, ne_eq, channel]
  simp only [String.append_assoc]
  rw [Text.begins_append_append_iff (fun c hc => hn.isAlphanum_of_mem_label hc) hm
    ⟨'(', [], rfl, rfl⟩ (stops_underscore _)]
  rintro ⟨-, h⟩
  simp only [Text.begins_iff, String.toList_append] at h
  obtain ⟨hchar, -⟩ := List.cons_prefix_cons.mp h
  cases hchar

/-- A call of a process is the call of no other one. -/
theorem begins_call_iff (hn : n.Lettered) (hm : m.Lettered) {rest : String} :
    Text.begins (n.label ++ "(") (m.label ++ ("(" ++ rest)) = true ↔ n.label = m.label := by
  rw [Text.begins_append_append_iff (fun c hc => hn.isAlphanum_of_mem_label hc)
    (fun c hc => hm.isAlphanum_of_mem_label hc) ⟨'(', [], rfl, rfl⟩ (stops_bracket _)]
  exact and_iff_left (Text.begins_append_self _ _)

/-- What begins the line that includes a process. -/
def includeStart (n : StepName) : String :=
  "include  \x7b " ++ n.label ++ " \x7d"

/-- A line that includes a process includes no other one. -/
theorem begins_include_iff (hn : n.Lettered) (hm : m.Lettered) {rest : String} :
    Text.begins n.includeStart (m.includeStart ++ rest) = true ↔ n.label = m.label := by
  have hbrace : Text.Stops Char.isAlphanum " \x7d" := ⟨' ', ['\x7d'], rfl, rfl⟩
  unfold includeStart
  simp only [String.append_assoc]
  rw [Text.begins_append_left_iff,
    Text.begins_append_append_iff (fun c hc => hn.isAlphanum_of_mem_label hc)
    (fun c hc => hm.isAlphanum_of_mem_label hc) hbrace (hbrace.append rest)]
  exact and_iff_left (Text.begins_append_self _ _)

/-- The label tells nothing that the name does not. -/
theorem label_eq_of_text_eq (h : n.text = m.text) : n.label = m.label := by
  rw [label, label, h]

end StepName

/-! ## Lines of a step -/

namespace ComposedStep

/-- The lines in the body that are about the step. -/
def workflowLines (s : ComposedStep) : List String :=
  s.channelLines ++ [s.callLine]

/-- The blocks of the body that are about the step, each as its lines. -/
def lineBlocks (s : ComposedStep) : List (List String) :=
  (if s.bindings.isEmpty then [] else [s.channelLines]) ++ [[s.callLine]]

theorem workflowBlocks_eq (s : ComposedStep) :
    s.workflowBlocks = s.lineBlocks.map Text.unlines := by
  have hcall : Text.unlines [s.callLine] = s.callLine := String.intercalate_singleton
  rw [workflowBlocks, lineBlocks]
  split <;> simp [hcall]

theorem callLine_mem_workflowBlocks (s : ComposedStep) : s.callLine ∈ s.workflowBlocks :=
  List.mem_append_right _ (List.mem_singleton_self _)

theorem flatten_lineBlocks (s : ComposedStep) : s.lineBlocks.flatten = s.workflowLines := by
  rw [lineBlocks, workflowLines, channelLines]
  split
  · next h => simp [List.isEmpty_iff.mp h]
  · simp

theorem nil_notMem_lineBlocks (s : ComposedStep) : ∀ b ∈ s.lineBlocks, b ≠ [] := by
  intro b hb
  rw [lineBlocks, List.mem_append, List.mem_singleton] at hb
  rcases hb with hb | rfl
  · split at hb
    · cases hb
    · next h =>
      rw [List.mem_singleton.mp hb, channelLines]
      simpa using h
  · exact List.cons_ne_nil _ _

/-- The name of the step, and of each step that its inputs come from, is made of letters and
digits. -/
structure Proper (s : ComposedStep) : Prop where
  lettered : s.name.Lettered
  wired : ∀ b ∈ s.bindings, ∀ p, b.source = .wired p → ∀ c ∈ p.process.toList, c.isAlphanum = true

/-- The declaration of an input starts with the variable that carries it. -/
theorem exists_statement_eq (b : Binding) (n : StepName) :
    ∃ rest, b.statement n = n.channel b.position ++ ("=" ++ rest) := by
  rw [Binding.statement]
  split
  · next p _ =>
    refine ⟨p.process ++ ".out.output" ++ Text.decimal p.output ++ ".collect()", ?_⟩
    simp only [Binding.channel, StepName.channel, String.append_assoc]
  · refine ⟨"Channel.fromPath(params." ++ b.param n ++ ").toSortedList()", ?_⟩
    have hequals : ("=Channel.fromPath(params." : String) = "=" ++ "Channel.fromPath(params." := rfl
    simp only [Binding.channel, StepName.channel, hequals, String.append_assoc]

/-- A declaration that takes the results of a process tells the process and the output. -/
theorem source_of_statement_eq {b : Binding} {process : String} {output : Nat}
    (h : b.statement n = n.channel b.position ++ "=" ++ process ++ ".out.output" ++
      Text.decimal output ++ ".collect()") : b.source = .wired ⟨process, output⟩ := by
  rw [Binding.statement] at h
  split at h
  · next p hp =>
    have hout : (".out.output" : String) = ".out.outpu" ++ String.singleton 't' := rfl
    have hnumber := (String.append_left_inj _).mp h
    simp only [hout, ← String.append_assoc] at hnumber
    obtain ⟨htext, houtput⟩ := Text.eq_of_append_decimal_eq (by decide) hnumber
    have hprocess := (String.append_right_inj _).mp ((String.append_left_inj _).mp htext)
    rw [hp, ← hprocess, ← houtput]
  · -- the two kinds of declarations end differently
    have hsorted : (").toSortedList()" : String) = ").toSo" ++ "rtedList()" := rfl
    rw [hsorted, ← String.append_assoc] at h
    have hlist := congrArg String.toList h
    simp only [String.toList_append] at hlist
    have hlength : "rtedList()".toList.length = ".collect()".toList.length := by decide
    have hends : "rtedList()".toList ≠ ".collect()".toList := by decide
    exact absurd (List.append_inj' hlist hlength).2 hends

theorem exists_callLine_eq (s : ComposedStep) :
    ∃ rest, s.callLine = s.name.label ++ ("(" ++ rest) :=
  ⟨_, by rw [callLine, String.append_assoc, String.append_assoc]⟩

/-- No line about a step has a line feed in it. -/
theorem Proper.notMem_of_mem_workflowLines (hs : s.Proper) {line : String}
    (h : line ∈ s.workflowLines) : '\n' ∉ line.toList := by
  have hletters : ∀ text : String, (∀ c ∈ text.toList, c.isAlphanum = true) → '\n' ∉ text.toList :=
    fun text htext hmem => absurd (htext _ hmem) (by decide)
  have hname := hletters _ hs.lettered
  have hlabel := hletters s.name.label fun c hc => hs.lettered.isAlphanum_of_mem_label hc
  have hdecimal : ∀ k, '\n' ∉ (Text.decimal k).toList := fun k hmem =>
    absurd (Text.isDigit_of_mem_decimal hmem) (by decide)
  have hchannel : ∀ b : Binding, '\n' ∉ (b.channel s.name).toList := by
    intro b
    simp [Binding.channel, hname, hdecimal]
  rcases List.mem_append.mp h with h | h
  · obtain ⟨b, hb, rfl⟩ := List.mem_map.mp h
    rw [Binding.statement]
    split
    · next p hp =>
      have hprocess := hletters p.process (hs.wired b hb p hp)
      simp [hchannel, hprocess, hdecimal]
    · simp [hchannel, Binding.param, hname, hdecimal]
  · rw [List.mem_singleton.mp h, callLine]
    have hinputs :
        '\n' ∉ (String.intercalate ", " (s.bindings.map fun b => b.channel s.name)).toList := by
      rw [String.toList_intercalate]
      intro hmem
      rcases Text.mem_of_mem_intercalate hmem with hmem | hmem
      · revert hmem
        decide
      · obtain ⟨text, htext, hmem⟩ := List.mem_flatten.mp hmem
        rw [List.map_map] at htext
        obtain ⟨b, -, rfl⟩ := List.mem_map.mp htext
        exact hchannel b hmem
    simp only [String.toList_append, List.mem_append, not_or]
    exact ⟨⟨⟨hlabel, by decide⟩, hinputs⟩, by decide⟩

end ComposedStep

end Pipewright
