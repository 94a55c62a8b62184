import Pipewright.Kernel.Provision
import Pipewright.Programs
import Pipewright.Proofs.Failures

/-!
# Failures of the provisioners

The tools that provide kernels and environments know of no nodes, and so their failures are about
none, as long as those of the runner of their commands are not.

* `CommandRunner.Apart`: a runner whose errors are about no node.
* `CommandRunner.apart_ofLauncher`: the one that runs commands as programs is such a runner.
* `ToolNames.node?_of_gives`: what the tools fail with is about no node.
-/

namespace Pipewright

/-- The errors of the runner are about no node. -/
def CommandRunner.Apart (runner : CommandRunner) : Prop :=
  ∀ before d c e d', runner.run before d c = (.error e, d') → e.node? = none

/-- A program that cannot be run is not the fault of a node, whatever runs programs. -/
theorem CommandRunner.apart_ofLauncher (launch : Launcher) :
    (CommandRunner.ofLauncher launch).Apart := by
  intro before d c e d' h
  simp only [ofLauncher] at h
  split at h
  · cases h
  · cases h
    rfl

namespace Host

variable {runner : CommandRunner}

theorem apart_run (hrunner : runner.Apart) (c : Command) : (run runner c).Apart := by
  intro h e h' hrun
  rw [run] at hrun
  rcases hc : runner.run h.commands h.disk c with ⟨e' | o, d⟩
  · rw [hc] at hrun
    cases hrun
    exact hrunner _ _ _ _ _ hc
  · rw [hc] at hrun
    cases hrun

theorem apart_runChecked (hrunner : runner.Apart) (c : Command) : (runChecked runner c).Apart := by
  refine (apart_run hrunner c).bind fun o => ?_
  split
  · exact .pure o
  · exact .throw rfl

end Host

/-! ## The tools -/

/-- A name that an environment does not tell is not the fault of a node. -/
theorem node?_of_kernelNameFor {runtime : String} {family : KernelFamily} {e : Error}
    (h : kernelNameFor runtime family = .error e) : e.node? = none := by
  rw [kernelNameFor] at h
  split at h
  · cases h
  · cases h
    rfl

namespace ToolNames

variable {tools : ToolNames} {runner : CommandRunner}

theorem node?_of_firstDirectory {report : String} {e : Error}
    (h : firstDirectory report = .error e) : e.node? = none := by
  rw [firstDirectory] at h
  split at h
  · cases h
    rfl
  · cases h
    rfl
  · cases h

theorem apart_existingKernels (tools : ToolNames) (runner : CommandRunner) (runtime : Path)
    (family : KernelFamily) : (tools.existingKernels runner runtime family).Apart := by
  refine .bind (.bind (.attempt _) fun result => ?_) fun kernels => .pure _
  split
  · exact .pure _
  · split
    · exact .pure _
    · exact .pure _

theorem apart_installKernel (hrunner : runner.Apart) (runtime : Path) (family : KernelFamily)
    (name : String) : (tools.installKernel runner runtime family name).Apart :=
  (Host.apart_runChecked hrunner _).bind fun _ => (Host.apart_runChecked hrunner _).bind fun _ =>
    .pure _

theorem apart_provisionKernel (hrunner : runner.Apart) (runtime : Path) (family : KernelFamily) :
    (tools.provisionKernel runner runtime family).Apart := by
  refine .bind .get fun host => ?_
  dsimp only
  split
  case' isFalse => refine .bind (.throw rfl) fun _ => ?_
  all_goals
    refine .bind (apart_existingKernels tools runner runtime family) fun kernels => ?_
    split
    · exact .pure _
    · exact .bind (.settle fun _ => node?_of_kernelNameFor) fun name =>
        (apart_installKernel hrunner runtime family name).bind fun _ => .pure _

theorem apart_createEnvironment (hrunner : runner.Apart) (name : String) (description : Path) :
    (tools.createEnvironment runner name description).Apart := by
  refine (Host.apart_run hrunner _).bind fun _ => (Host.apart_runChecked hrunner _).bind fun _ =>
    (Host.apart_runChecked hrunner _).bind fun o => ?_
  exact .bind (.settle fun _ => node?_of_firstDirectory) fun directory => .pure _

/-- What the tools fail with is about no node. -/
theorem node?_of_gives (hrunner : runner.Apart) {e : Error}
    (h : (tools.provisioners runner).Gives e) : e.node? = none := by
  obtain ⟨runtime, family, h, h', hrun⟩ | ⟨name, description, h, h', hrun⟩ := h
  · exact apart_provisionKernel hrunner runtime family h e h' hrun
  · exact apart_createEnvironment hrunner name description h e h' hrun

end ToolNames

end Pipewright
