import Pipewright.Proofs.Composition.Sections

/-!
# Compositions grow at their ends

Adding a step leaves the lines of all places as they are and puts more lines behind them, whatever
texts the step brings along.  So what stands in the workflow about the first steps does not depend
on the steps that follow, and the body is the lines about one step after the other.

* `Sections.Begins`: the lines of one composition begin those of another.
* `ComposedStep.bodyLines`, `ComposedStep.Wires`: what the body says about a step.
* `Composition.begins_add`: one more step; `Composition.begins_ofSteps_take`: the first steps.
* `Composition.workflow_ofSteps_eq`: the body, step after step.
* `Composition.ofSteps_grows`: the main statement.
-/

namespace Pipewright

/-- The lines at each place are the first ones of those at the place of other sections. -/
structure Sections.Begins (first later : Sections) : Prop where
  params : first.params <+: later.params
  imports : first.imports <+: later.imports
  workflow : first.workflow <+: later.workflow

theorem Sections.Begins.refl (sections : Sections) : sections.Begins sections :=
  ⟨List.prefix_rfl, List.prefix_rfl, List.prefix_rfl⟩

/-! ## The lines about a step -/

namespace ComposedStep

variable {s : ComposedStep}

/-- The variables that carry the inputs of the step. -/
def channels (s : ComposedStep) : List String :=
  s.bindings.map fun b => b.channel s.name

/-- What the body says about the step: the declarations of its inputs with an empty line behind
them, if there are any, and the call of its process. -/
def bodyLines (s : ComposedStep) : List String :=
  (if s.bindings = [] then [] else s.channelLines ++ [""]) ++ [s.callLine]

/-- The declarations of the step give the variables their values one after the other, and the call
takes the same variables in the same order. -/
structure Wires (s : ComposedStep) : Prop where
  declared : List.Forall₂ (fun channel line => ∃ value, line = channel ++ "=" ++ value)
    s.channels s.channelLines
  called : s.callLine = s.name.label ++ "(" ++ String.intercalate ", " s.channels ++ ")"

theorem wires (s : ComposedStep) : s.Wires where
  declared := by
    rw [channels, channelLines, List.forall₂_map_left_iff, List.forall₂_map_right_iff,
      List.forall₂_same]
    intro b _
    obtain ⟨value, hvalue⟩ := exists_statement_eq b s.name
    refine ⟨value, ?_⟩
    rw [hvalue, String.append_assoc]
    rfl
  called := rfl

/-- The blocks of the step, line by line, are the lines of what the body says about it. -/
theorem intercalate_workflowBlocks (s : ComposedStep) :
    [""].intercalate (s.workflowBlocks.map Text.lines) = s.bodyLines.flatMap Text.lines := by
  have hempty : Text.lines "" = [""] := rfl
  rw [workflowBlocks, bodyLines]
  by_cases hnone : s.bindings = []
  · simp [hnone]
  · have hlines : s.channelLines ≠ [] := by simpa [channelLines] using hnone
    rw [if_neg (by simpa using hnone), if_neg hnone, List.singleton_append, List.map_cons,
      List.map_singleton, List.intercalate_cons_cons, List.intercalate_singleton,
      Text.lines_unlines_eq_flatMap hlines, List.flatMap_append, List.flatMap_append,
      List.flatMap_singleton, List.flatMap_singleton, hempty]

end ComposedStep

/-! ## One more step -/

namespace Composition

variable {steps : List ComposedStep} {s : ComposedStep}

theorem callLine_mem_blocks_add (c : Composition) (s : ComposedStep) :
    s.callLine ∈ (c.add s).blocks :=
  List.mem_append_right _ s.callLine_mem_workflowBlocks

/-- One more step leaves the body in front of what it puts there. -/
theorem workflow_prefix_add (c : Composition) (s : ComposedStep) :
    c.sections.workflow <+: (c.add s).sections.workflow := by
  rw [workflow_eq_intercalate (c.callLine_mem_blocks_add s), sections]
  dsimp only
  split
  · exact List.nil_prefix
  · next htext =>
    have hne : c.blocks ≠ [] := fun hnil => htext (by rw [hnil]; rfl)
    rw [Text.lines_intercalate hne, add, List.map_append]
    exact Text.intercalate_prefix _ (List.prefix_append _ _)

/-- One more step leaves the lines of all places in front of what it puts there. -/
theorem begins_add (c : Composition) (s : ComposedStep) :
    c.sections.Begins (c.add s).sections where
  params := by
    rw [sections, sections, add, List.append_assoc]
    exact List.prefix_append _ _
  imports := List.prefix_append _ _
  workflow := c.workflow_prefix_add s

theorem ofSteps_concat (steps : List ComposedStep) (s : ComposedStep) :
    ofSteps (steps ++ [s]) = (ofSteps steps).add s := by
  rw [ofSteps, List.foldl_append]
  rfl

/-- The lines about the first steps begin those about one step more. -/
theorem begins_ofSteps_take (steps : List ComposedStep) (n : Nat) :
    (ofSteps (steps.take n)).sections.Begins (ofSteps (steps.take (n + 1))).sections := by
  rw [List.take_add_one]
  rcases steps[n]? with _ | s
  · rw [Option.toList_none, List.append_nil]
    exact .refl _
  · rw [Option.toList_some, ofSteps_concat]
    exact begins_add _ s

/-! ## All steps -/

/-- There are as many steps as have been added. -/
theorem stepCount_ofSteps (steps : List ComposedStep) :
    (ofSteps steps).stepCount = steps.length := by
  have himports : (ofSteps steps).imports = steps.map ComposedStep.importLine :=
    imports_ofSteps steps
  rw [stepCount, himports, List.length_map]

/-- The body is the lines about one step after the other, with an empty line between two steps. -/
theorem workflow_ofSteps_eq (steps : List ComposedStep) :
    (ofSteps steps).sections.workflow =
      [""].intercalate (steps.map fun s => s.bodyLines.flatMap Text.lines) := by
  rcases steps with _ | ⟨s, rest⟩
  · rfl
  have hcall : s.callLine ∈ (ofSteps (s :: rest)).blocks :=
    callLine_mem_blocks_ofSteps List.mem_cons_self
  have hne : ∀ t ∈ s :: rest, t.workflowBlocks.map Text.lines ≠ [] := fun t _ => by
    simpa using List.ne_nil_of_mem t.callLine_mem_workflowBlocks
  rw [workflow_eq_intercalate hcall, blocks_ofSteps_eq_flatMap, List.map_flatMap,
    Text.intercalate_flatMap _ hne]
  exact congrArg _ (List.map_congr_left fun t _ => t.intercalate_workflowBlocks)

/-- With one more step the lines of all places stay and others come behind them.  There are as many
steps as have been added.  The body has, step after step and with an empty line between two of them,
the declarations of the step's inputs, an empty line behind them if there are any, and the call of
the step's process, which takes the variables that are declared.  Each of these is one line unless a
line feed is in it. -/
theorem ofSteps_grows (steps : List ComposedStep) :
    (∀ n, (ofSteps (steps.take n)).sections.Begins (ofSteps (steps.take (n + 1))).sections) ∧
    (∀ n ≤ steps.length, (ofSteps (steps.take n)).stepCount = n) ∧
    (ofSteps steps).sections.workflow =
      [""].intercalate (steps.map fun s => s.bodyLines.flatMap Text.lines) ∧
    (∀ s ∈ steps, s.Wires) ∧
    ∀ s ∈ steps, (∀ line ∈ s.bodyLines, '\n' ∉ line.toList) →
      s.bodyLines.flatMap Text.lines = s.bodyLines := by
  refine ⟨begins_ofSteps_take steps, fun n hn => ?_, workflow_ofSteps_eq steps,
    fun s _ => s.wires, fun s _ hfeed => ?_⟩
  · rw [stepCount_ofSteps, List.length_take, Nat.min_eq_left hn]
  · have hone : ∀ line ∈ s.bodyLines, Text.lines line = [line] := fun line hline =>
      Text.pieces_of_notMem (hfeed line hline)
    rw [List.flatMap_congr hone, List.flatMap_singleton']

/-- A step without inputs. -/
def loadStep : ComposedStep where
  name := ⟨"loadL01"⟩
  filename := "/h/load.py"
  runtime := "/envs/a"
  cpu := some 2
  inputs := []
  outputs := ["a.csv"]
  bindings := []

/-- A step that reads the output of another step and a file. -/
def trainStep : ComposedStep where
  name := ⟨"trainT01"⟩
  filename := "/h/train.py"
  runtime := ""
  cpu := none
  inputs := ["a.csv", "b.csv"]
  outputs := []
  bindings := [⟨1, "a.csv", .wired ⟨"LOADL01", 1⟩⟩, ⟨2, "b.csv", .raw⟩]

/-- The second step comes behind the first one, and its two inputs are declared in front of its
call. -/
theorem ofSteps_grows_trainStep :
    (ofSteps [loadStep]).sections.Begins (ofSteps [loadStep, trainStep]).sections ∧
    1 ≤ [loadStep, trainStep].length ∧ (ofSteps [loadStep]).stepCount = 1 ∧
    trainStep ∈ [loadStep, trainStep] ∧ trainStep.Wires ∧
    (∀ line ∈ trainStep.bodyLines, '\n' ∉ line.toList) ∧
    trainStep.bodyLines.flatMap Text.lines = trainStep.bodyLines ∧
    (ofSteps [loadStep, trainStep]).sections.workflow = ["LOADL01()", "",
      "trainT01_channel_input1=LOADL01.out.output1.collect()",
      "trainT01_channel_input2=Channel.fromPath(params.trainT01_input2).toSortedList()", "",
      "TRAINT01(trainT01_channel_input1, trainT01_channel_input2)"] := by
  obtain ⟨hbegins, hcount, hworkflow, hwires, hlines⟩ := ofSteps_grows [loadStep, trainStep]
  have hmem : trainStep ∈ [loadStep, trainStep] := by simp
  have hfeed : ∀ line ∈ trainStep.bodyLines, '\n' ∉ line.toList := by decide +kernel
  refine ⟨hbegins 1, by decide, hcount 1 (by decide), hmem, hwires _ hmem, hfeed,
    hlines _ hmem hfeed, ?_⟩
  rw [hworkflow]
  decide +kernel

end Composition

end Pipewright
