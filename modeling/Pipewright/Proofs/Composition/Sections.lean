import Pipewright.Proofs.Composition.Lines
import Pipewright.Proofs.Lists

/-!
# The sections of a composition

A composition of steps with labels that all differ has one import and one call for each step, and
the declarations of the step's inputs.  Here the imports and the body are searched for the lines
that begin as such a line does, and what is found is told by the step alone.

* `Composition.imports_ofSteps`, `Composition.workflow_ofSteps`: the lines, step after step.
* `Composition.filter_imports`, `Composition.filter_calls`, `Composition.filter_channels`: the lines
  that are about a step.
* `Composition.sublist_workflow`: the order in which they stand.
-/

namespace Pipewright

namespace Composition

variable {steps : List ComposedStep} {s t : ComposedStep}

/-! ## Step after step -/

theorem imports_foldl_add (c : Composition) :
    (steps.foldl add c).imports = c.imports ++ steps.map ComposedStep.importLine := by
  induction steps generalizing c with
  | nil => simp
  | cons s rest ih =>
    rw [List.foldl_cons, ih, add, List.map_cons, List.append_assoc, List.singleton_append]

theorem blocks_foldl_add (c : Composition) :
    (steps.foldl add c).blocks = c.blocks ++ steps.flatMap ComposedStep.workflowBlocks := by
  induction steps generalizing c with
  | nil => simp
  | cons s rest ih => rw [List.foldl_cons, ih, add, List.flatMap_cons, List.append_assoc]

/-- There is one import for each step. -/
theorem imports_ofSteps (steps : List ComposedStep) :
    (ofSteps steps).sections.imports = steps.map ComposedStep.importLine := by
  rw [sections, ofSteps, imports_foldl_add, List.nil_append]

/-- The blocks of the body are those of the steps. -/
theorem blocks_ofSteps_eq_flatMap (steps : List ComposedStep) :
    (ofSteps steps).blocks = steps.flatMap ComposedStep.workflowBlocks := by
  rw [ofSteps, blocks_foldl_add, List.nil_append]

/-- The blocks of the body are the texts of the blocks of the steps. -/
theorem blocks_ofSteps (steps : List ComposedStep) :
    (ofSteps steps).blocks = (steps.flatMap ComposedStep.lineBlocks).map Text.unlines := by
  rw [blocks_ofSteps_eq_flatMap, List.map_flatMap]
  exact List.flatMap_congr fun s _ => s.workflowBlocks_eq

/-- The call of each step is one of the blocks. -/
theorem callLine_mem_blocks_ofSteps (hs : s ∈ steps) : s.callLine ∈ (ofSteps steps).blocks := by
  rw [blocks_ofSteps_eq_flatMap]
  exact List.mem_flatMap.mpr ⟨s, hs, s.callLine_mem_workflowBlocks⟩

/-- With a call among the blocks, the lines of the body are those of the blocks, with an empty line
between two of them. -/
theorem workflow_eq_intercalate {c : Composition} (h : s.callLine ∈ c.blocks) :
    c.sections.workflow = [""].intercalate (c.blocks.map Text.lines) := by
  have hcall : s.callLine ≠ "" := by
    obtain ⟨rest, hrest⟩ := s.exists_callLine_eq
    rw [hrest]
    simp
  have htext := Text.intercalate_ne_empty "\n\n" h hcall
  rw [sections]
  dsimp only
  rw [if_neg (by simpa using htext), Text.lines_intercalate (List.ne_nil_of_mem h)]

/-- The blocks of the steps one after the other, without anything between them. -/
theorem flatten_flatMap_lineBlocks (steps : List ComposedStep) :
    (steps.flatMap ComposedStep.lineBlocks).flatten =
      steps.flatMap ComposedStep.workflowLines := by
  induction steps with
  | nil => rfl
  | cons s rest ih =>
    rw [List.flatMap_cons, List.flatMap_cons, List.flatten_append, s.flatten_lineBlocks, ih]

/-- The lines of the body are those of the blocks of the steps, with an empty line between two
blocks. -/
theorem workflow_ofSteps (h : ∀ s ∈ steps, s.Proper) :
    (ofSteps steps).sections.workflow =
      [""].intercalate (steps.flatMap ComposedStep.lineBlocks) := by
  rcases steps with _ | ⟨s, rest⟩
  · rfl
  rw [workflow_eq_intercalate (callLine_mem_blocks_ofSteps List.mem_cons_self), blocks_ofSteps,
    List.map_map]
  refine congrArg _ ((List.map_congr_left fun b hb => ?_).trans (List.map_id _))
  obtain ⟨t, ht, hb⟩ := List.mem_flatMap.mp hb
  refine Text.lines_unlines (t.nil_notMem_lineBlocks b hb) fun line hline => ?_
  refine (h t ht).notMem_of_mem_workflowLines ?_
  rw [← t.flatten_lineBlocks]
  exact List.mem_flatten.mpr ⟨b, hb, hline⟩

/-- A search of the body that passes over empty lines searches the lines of one step after the
other. -/
theorem filter_workflow (h : ∀ s ∈ steps, s.Proper) {start : String} (hstart : start ≠ "") :
    (ofSteps steps).sections.workflow.filter (Text.begins start) =
      (steps.flatMap ComposedStep.workflowLines).filter (Text.begins start) := by
  have hempty : ∀ line ∈ [""], Text.begins start line = false := by
    intro line hline
    rw [List.mem_singleton.mp hline, Text.begins_empty hstart]
  rw [workflow_ofSteps h, Text.filter_intercalate hempty, flatten_flatMap_lineBlocks]

/-- Lines of the steps stand in the body in the order of the steps. -/
theorem sublist_workflow (h : ∀ s ∈ steps, s.Proper) :
    (steps.flatMap ComposedStep.workflowLines).Sublist (ofSteps steps).sections.workflow := by
  rw [workflow_ofSteps h, ← flatten_flatMap_lineBlocks]
  exact Text.flatten_sublist_intercalate _ _

/-! ## The lines of one step -/

section Searches

variable (h : ∀ s ∈ steps, s.Proper) (hnodup : (steps.map fun s => s.name.label).Nodup)
  (hs : s ∈ steps)
include h hnodup hs

/-- One line of the imports includes the process of a step. -/
theorem filter_imports :
    (ofSteps steps).sections.imports.filter (Text.begins s.name.includeStart) = [s.importLine] := by
  have hline : ∀ t : ComposedStep, ∃ rest, t.importLine = t.name.includeStart ++ rest := by
    intro t
    refine ⟨" from \"./modules/" ++ t.name.text ++ "\"", ?_⟩
    have hbrace : (" \x7d from \"./modules/" : String) = " \x7d" ++ " from \"./modules/" := rfl
    unfold ComposedStep.importLine StepName.includeStart
    simp only [hbrace, String.append_assoc]
  have hbegins : ∀ t ∈ steps, Text.begins s.name.includeStart t.importLine = true ↔
      s.name.label = t.name.label := by
    intro t ht
    obtain ⟨rest, hrest⟩ := hline t
    rw [hrest, StepName.begins_include_iff (h s hs).lettered (h t ht).lettered]
  rw [imports_ofSteps, List.map_eq_flatMap, filter_flatMap_of_nodup hnodup hs]
  · rw [List.filter_cons_of_pos ((hbegins s hs).mpr rfl), List.filter_nil]
  · intro t ht hne
    rw [List.filter_cons_of_neg fun hb => hne ((hbegins t ht).mp hb).symm, List.filter_nil]

/-- One line of the body calls the process of a step. -/
theorem filter_calls :
    (ofSteps steps).sections.workflow.filter (Text.begins (s.name.label ++ "(")) =
      [s.callLine] := by
  have hchannels : ∀ t ∈ steps,
      t.channelLines.filter (Text.begins (s.name.label ++ "(")) = [] := by
    intro t ht
    refine List.filter_eq_nil_iff.mpr fun line hline => ?_
    obtain ⟨b, -, rfl⟩ := List.mem_map.mp hline
    obtain ⟨rest, hrest⟩ := ComposedStep.exists_statement_eq b t.name
    rw [hrest, StepName.begins_call_channel (h s hs).lettered (h t ht).lettered]
    exact Bool.false_ne_true
  have hbegins : ∀ t ∈ steps, Text.begins (s.name.label ++ "(") t.callLine = true ↔
      s.name.label = t.name.label := by
    intro t ht
    obtain ⟨rest, hrest⟩ := t.exists_callLine_eq
    rw [hrest, StepName.begins_call_iff (h s hs).lettered (h t ht).lettered]
  rw [filter_workflow h (by simp), filter_flatMap_of_nodup hnodup hs]
  · rw [ComposedStep.workflowLines, List.filter_append, hchannels s hs,
      List.filter_cons_of_pos ((hbegins s hs).mpr rfl)]
    rfl
  · intro t ht hne
    rw [ComposedStep.workflowLines, List.filter_append, hchannels t ht,
      List.filter_cons_of_neg fun hb => hne ((hbegins t ht).mp hb).symm]
    rfl

/-- The lines of the body that assign the variable of an input are the declarations of the step's
bindings at the position of the input. -/
theorem filter_channels (i : Nat) :
    (ofSteps steps).sections.workflow.filter (Text.begins (s.name.channel i ++ "=")) =
      (s.bindings.filter fun b => b.position = i).map fun b => b.statement s.name := by
  have hcall : ∀ t ∈ steps, [t.callLine].filter (Text.begins (s.name.channel i ++ "=")) = [] := by
    intro t ht
    obtain ⟨rest, hrest⟩ := t.exists_callLine_eq
    rw [List.filter_cons_of_neg, List.filter_nil]
    rw [hrest, StepName.begins_channel_call (h s hs).lettered (h t ht).lettered]
    exact Bool.false_ne_true
  have hbegins : ∀ t ∈ steps, ∀ b : Binding,
      Text.begins (s.name.channel i ++ "=") (b.statement t.name) = true ↔
        s.name.text = t.name.text ∧ i = b.position := by
    intro t ht b
    obtain ⟨rest, hrest⟩ := ComposedStep.exists_statement_eq b t.name
    rw [hrest, StepName.begins_channel_iff (h s hs).lettered (h t ht).lettered]
  rw [filter_workflow h (by simp), filter_flatMap_of_nodup hnodup hs]
  · rw [ComposedStep.workflowLines, List.filter_append, hcall s hs, List.append_nil,
      ComposedStep.channelLines, List.filter_map]
    refine congrArg _ (List.filter_congr fun b _ => ?_)
    rw [Function.comp_apply, Bool.eq_iff_iff, hbegins s hs b, decide_eq_true_iff]
    exact (and_iff_right rfl).trans eq_comm
  · intro t ht hne
    rw [ComposedStep.workflowLines, List.filter_append, hcall t ht, List.append_nil,
      List.filter_eq_nil_iff]
    intro line hline
    obtain ⟨b, -, rfl⟩ := List.mem_map.mp hline
    rw [hbegins t ht b]
    exact fun hb => hne (StepName.label_eq_of_text_eq hb.1).symm

end Searches

end Composition

end Pipewright
