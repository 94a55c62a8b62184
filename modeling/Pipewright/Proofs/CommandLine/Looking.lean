import Pipewright.CommandLine.Program
import Pipewright.Proofs.Kernel.Provision
import Pipewright.Proofs.Project.Failures
import Pipewright.Proofs.Project.Wiring

/-!
# Looking at documents

A document that the program finds valid can be planned and, but for what has nothing to do with its
graph, generated.  The rules that look at the graph leave nothing out that planning trips over.

* `exitCode_validate_iff`, `exitCode_info_iff`: when the commands that look at documents end well.
* `Graph.validate_sound`: the main statement.
-/

namespace Pipewright

/-- A question is answered, and nothing has happened. -/
theorem Console.ask_eq_ok_iff {α : Type} {question : Disk → Except Error α} {c c' : Console}
    {a : α} : ask question c = (.ok a, c') ↔ question c.host.disk = .ok a ∧ c' = c := by
  rw [ask, Prod.mk.injEq, eq_comm (a := c)]

section

variable {f : Facilities} {arguments : List String} {invocation : Invocation} {document : Path}
  {d : Disk}

theorem runProgram_eq (hparse : Invocation.parse? arguments = some invocation) :
    runProgram f arguments d = .ofEnd (invocation.perform f (.before d)) := by
  have hparsed : Invocation.parse arguments = .ok invocation := eq_ok_of_toOption hparse
  rw [runProgram, hparsed]

/-- The exit code of an invocation is zero exactly when it ends with that. -/
theorem runProgram_exitCode_eq_zero_iff (hparse : Invocation.parse? arguments = some invocation) :
    (runProgram f arguments d).exitCode = 0 ↔
      ∃ c, invocation.perform f (.before d) = (.ok 0, c) := by
  rw [runProgram_eq hparse]
  rcases invocation.perform f (.before d) with ⟨e | code, c⟩
  · constructor
    · intro hcode
      cases hcode
    · rintro ⟨c', h⟩
      cases h
  · constructor
    · rintro rfl
      exact ⟨c, rfl⟩
    · rintro ⟨c', h⟩
      cases h
      rfl

/-- A document is found valid exactly when no rule reports an error about its graph. -/
theorem exitCode_validate_iff (hparse : Invocation.parse? arguments = some (.validate document)) :
    (runProgram f arguments d).exitCode = 0 ↔
      ∃ g, Invocation.lookingSettings.loadGraph document d = .ok g ∧ g.Clean := by
  rw [runProgram_exitCode_eq_zero_iff hparse]
  constructor
  · rintro ⟨c, hrun⟩
    obtain ⟨g, c₁, hload, hreport⟩ := Act.bind_eq_ok_iff.mp hrun
    obtain ⟨hload, -⟩ := Console.ask_eq_ok_iff.mp hload
    obtain ⟨_, c₂, -, hcode⟩ := Act.bind_eq_ok_iff.mp hreport
    obtain ⟨hcode, -⟩ := Act.pure_eq_ok_iff.mp hcode
    refine ⟨g, hload, Graph.errorMessages_isEmpty_iff.mp ?_⟩
    by_contra herrors
    rw [if_neg herrors] at hcode
    cases hcode
  · rintro ⟨g, hload, hclean⟩
    have hasked := Console.ask_eq_ok_iff (c := .before d).mpr ⟨hload, rfl⟩
    have hcode : (if (Graph.errorMessages g.diagnostics).isEmpty then 0 else 1) = 0 :=
      if_pos (Graph.errorMessages_isEmpty_iff.mpr hclean)
    simp only [Invocation.perform, Invocation.performValidate, Act.bind_eq_ok_iff,
      Act.pure_eq_ok_iff]
    exact ⟨_, g, _, hasked, (), _, rfl, hcode.symm, rfl⟩

/-- The plan of a document is shown exactly when there is one. -/
theorem exitCode_info_iff (hparse : Invocation.parse? arguments = some (.info document)) :
    (runProgram f arguments d).exitCode = 0 ↔
      ∃ g steps, Invocation.lookingSettings.loadGraph document d = .ok g ∧
        g.plan Invocation.lookingSettings.policy = .ok steps := by
  rw [runProgram_exitCode_eq_zero_iff hparse]
  constructor
  · rintro ⟨c, hrun⟩
    obtain ⟨g, c₁, hload, hrun⟩ := Act.bind_eq_ok_iff.mp hrun
    obtain ⟨hload, -⟩ := Console.ask_eq_ok_iff.mp hload
    obtain ⟨steps, c₂, hplan, -⟩ := Act.bind_eq_ok_iff.mp hrun
    exact ⟨g, steps, hload, (Act.settle_eq_ok_iff.mp hplan).1⟩
  · rintro ⟨g, steps, hload, hplan⟩
    have hasked := Console.ask_eq_ok_iff (c := .before d).mpr ⟨hload, rfl⟩
    have hplanned := Act.settle_eq_ok_iff (s := Console.before d).mpr ⟨hplan, rfl⟩
    exact ⟨_, Act.bind_eq_ok_iff.mpr ⟨g, _, hasked,
      Act.bind_eq_ok_iff.mpr ⟨steps, _, hplanned, rfl⟩⟩⟩

end

namespace Graph

variable {g : Graph}

/-- Validation is sound.  It succeeds exactly when no rule reports an error.  Then there is a plan
that takes the first output, and a strict one if no input is reported; and generating does not fail
over the graph, nor do the tools that provide kernels and environments, as long as the runner of
their commands knows of no nodes, as the program's own one does.  So the plan of a document that the
program finds valid is shown. -/
theorem validate_sound (hg : g.Accepted) :
    ((∃ ds, g.validate = .ok ds) ↔ g.Clean) ∧
    (g.Clean →
      (∃ steps, g.plan .firstMatch = .ok steps) ∧
      ((∀ d ∈ g.diagnostics, d.rule ≠ .ambiguousOutput) → ∃ steps, g.plan .strict = .ok steps) ∧
      ∀ (settings : GenerationSettings) provisioners input j j' e,
        settings.policy = .firstMatch → settings.loadGraph input j.host.disk = .ok g →
        settings.generate provisioners input j = (.error e, j') →
        settings.LateFault provisioners g j'.host.disk e) ∧
    (∀ (tools : ToolNames) (runner : CommandRunner) e, runner.Apart →
      (tools.provisioners runner).Gives e → e.node? = none) ∧
    (∀ launch, (CommandRunner.ofLauncher launch).Apart) ∧
    ∀ f arguments arguments' document d,
      Invocation.parse? arguments = some (.validate document) →
      Invocation.parse? arguments' = some (.info document) →
      (runProgram f arguments d).exitCode = 0 → (runProgram f arguments' d).exitCode = 0 := by
  refine ⟨exists_validate_iff, fun hclean => ⟨?_, fun hnone => ?_, ?_⟩, ?_,
    CommandRunner.apart_ofLauncher, ?_⟩
  · exact hclean.exists_plan hg fun h => by cases h
  · exact hclean.exists_plan hg fun _ => hnone
  · intro settings provisioners input j j' e hpolicy hload h
    exact GenerationSettings.generate_error hclean hpolicy hload h
  · intro tools runner e hrunner h
    exact ToolNames.node?_of_gives hrunner h
  · intro f arguments arguments' document d hvalidate hinfo hcode
    obtain ⟨g, hload, hclean⟩ := (exitCode_validate_iff hvalidate).mp hcode
    have hplanned : ∃ steps, g.plan Invocation.lookingSettings.policy = .ok steps :=
      hclean.exists_plan (GenerationSettings.accepted_of_loadGraph hload) fun h => by cases h
    obtain ⟨steps, hplan⟩ := hplanned
    exact (exitCode_info_iff hinfo).mpr ⟨g, steps, hload, hplan⟩

/-! ### The small document -/

/-- Facilities where no program can be started, and with a clock that stands still. -/
def idleFacilities : Facilities :=
  .ofLauncher (fun _ _ _ _ => .error .notFound) none (fun _ => "") ""

theorem clean_smallGraph : smallGraph.Clean := by
  have hall : ∀ d ∈ smallGraph.diagnostics, d.severity ≠ .error := by decide +kernel
  exact hall

/-- The small document is found valid; it has plans by both policies, and the program shows one. -/
theorem validate_smallGraph_sound :
    (∃ ds, smallGraph.validate = .ok ds) ∧ (∃ steps, smallGraph.plan .firstMatch = .ok steps) ∧
      (∃ steps, smallGraph.plan .strict = .ok steps) ∧
      (runProgram idleFacilities ["info", "doc.json"]
        GenerationSettings.smallDisk).exitCode = 0 := by
  obtain ⟨hvalidate, hplan, -, -, hshown⟩ := validate_sound accepted_smallGraph
  obtain ⟨hfirst, hstrict, -⟩ := hplan clean_smallGraph
  refine ⟨hvalidate.mpr clean_smallGraph, hfirst, hstrict (by decide +kernel), ?_⟩
  have hparse : Invocation.parse? ["validate", "doc.json"] = some (.validate "doc.json") := by
    decide +kernel
  exact hshown idleFacilities _ _ "doc.json" _ hparse (by decide +kernel)
    ((exitCode_validate_iff hparse).mpr
      ⟨smallGraph, GenerationSettings.loadGraph_smallDisk, clean_smallGraph⟩)

end Graph

end Pipewright
