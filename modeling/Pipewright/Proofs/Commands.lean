import Pipewright.Command
import Pipewright.Proofs.Failures

/-!
# Runs of outside commands

Whatever runs the commands, a command has been run once it is asked for, and either it leaves the
code zero or it fails: it cannot be started, or it leaves another code.

* `Host.Starts`: a command that ends somehow, from host to host.
* `Host.Succeeds`, `Host.Fails`: the two ways in which it ends.
* `Host.succeeds_or_fails`: there is no third way.
* `Host.runChecked_of_succeeds`, `Host.runChecked_of_fails`: a command that has to succeed.
* `CommandRunner.BlamesCommands`: what a runner says when it cannot start a command.
-/

namespace Pipewright

namespace Host

variable {runner : CommandRunner} {c : Command} {h h' : Host} {o : CommandOutput} {e : Error}

/-- The command can be started on the first host.  It leaves the second one and some code. -/
inductive Starts (runner : CommandRunner) (c : Command) (h : Host) : Host → Prop where
  | ran {o : CommandOutput} {d : Disk} (hrun : runner.run h.commands h.disk c = (.ok o, d)) :
      Starts runner c h ⟨d, h.commands ++ [c]⟩

/-- The command is run on the first host, leaves the code zero, and leaves the second host. -/
structure Succeeds (runner : CommandRunner) (c : Command) (h : Host) (o : CommandOutput)
    (h' : Host) : Prop where
  ran : runner.run h.commands h.disk c = (.ok o, h'.disk)
  code : o.exitCode = 0
  commands : h'.commands = h.commands ++ [c]

/-- The command fails, and the error says why. -/
inductive Fails (runner : CommandRunner) (c : Command) (h : Host) : Error → Host → Prop where
  /-- The command cannot be started. -/
  | notStarted {e : Error} {d : Disk} (hrun : runner.run h.commands h.disk c = (.error e, d)) :
      Fails runner c h e ⟨d, h.commands ++ [c]⟩
  /-- The command leaves another code than zero. -/
  | code {o : CommandOutput} {d : Disk} (hrun : runner.run h.commands h.disk c = (.ok o, d))
      (hcode : o.exitCode ≠ 0) :
      Fails runner c h (.provisioning c.text (failureText o)) ⟨d, h.commands ++ [c]⟩

theorem Fails.commands (hfails : Fails runner c h e h') : h'.commands = h.commands ++ [c] := by
  cases hfails <;> rfl

theorem Starts.commands (hstarts : Starts runner c h h') : h'.commands = h.commands ++ [c] := by
  cases hstarts
  rfl

/-- A command that is started has been run. -/
theorem Starts.exists_run (hstarts : Starts runner c h h') : ∃ o, run runner c h = (.ok o, h') := by
  obtain ⟨hrun⟩ := hstarts
  exact ⟨_, by rw [run, hrun]⟩

theorem run_of_error {d : Disk} (hrun : runner.run h.commands h.disk c = (.error e, d)) :
    run runner c h = (.error e, ⟨d, h.commands ++ [c]⟩) := by
  rw [run, hrun]

/-- A command succeeds or fails. -/
theorem succeeds_or_fails (runner : CommandRunner) (c : Command) (h : Host) :
    (∃ o h', Succeeds runner c h o h') ∨ ∃ e h', Fails runner c h e h' := by
  rcases hrun : runner.run h.commands h.disk c with ⟨e | o, d⟩
  · exact .inr ⟨e, _, .notStarted hrun⟩
  · by_cases hcode : o.exitCode = 0
    · exact .inl ⟨o, ⟨d, h.commands ++ [c]⟩, hrun, hcode, rfl⟩
    · exact .inr ⟨_, _, .code hrun hcode⟩

theorem runChecked_of_succeeds (hrun : Succeeds runner c h o h') :
    runChecked runner c h = (.ok o, h') := by
  have hran : run runner c h = (.ok o, h') := by
    rw [run, hrun.ran, ← hrun.commands]
  have hsuccess : o.success = true := decide_eq_true hrun.code
  rw [runChecked, Act.bind_of_ok hran, if_pos hsuccess]
  rfl

theorem runChecked_of_fails (hrun : Fails runner c h e h') :
    runChecked runner c h = (.error e, h') := by
  cases hrun with
  | notStarted hrun => exact Act.bind_of_error (run_of_error hrun) _
  | @code o d hrun hcode =>
    have hran : run runner c h = (.ok o, ⟨d, h.commands ++ [c]⟩) := by rw [run, hrun]
    have hsuccess : ¬ o.success = true := fun hsuccess => hcode (of_decide_eq_true hsuccess)
    rw [runChecked, Act.bind_of_ok hran, if_neg hsuccess]
    rfl

end Host

/-! ## Commands that cannot be started -/

namespace CommandRunner

/-- A command that the runner cannot start is what the error is about. -/
def BlamesCommands (runner : CommandRunner) : Prop :=
  ∀ before d c e d', runner.run before d c = (.error e, d') → ∃ text, e = .provisioning c.text text

/-- Answers from a list blame the commands. -/
theorem blamesCommands_replaying (replies : List Reply) : (replaying replies).BlamesCommands := by
  intro before d c e d' hrun
  rw [replaying] at hrun
  dsimp only at hrun
  split at hrun
  · next reply hreply =>
    cases reply with
    | output o => cases hrun
    | notStarted message =>
      cases hrun
      exact ⟨message, rfl⟩
  · cases hrun

end CommandRunner

/-- The error of a command that fails is about the command, unless it is the error of a runner that
cannot start the command and says something else. -/
theorem Host.Fails.eq_provisioning {runner : CommandRunner} {c : Command} {h h' : Host} {e : Error}
    (hfails : Fails runner c h e h') (hrunner : runner.BlamesCommands ∨ ∃ h₁, Starts runner c h h₁) :
    ∃ text, e = .provisioning c.text text := by
  cases hfails with
  | code hrun hcode => exact ⟨_, rfl⟩
  | notStarted hrun =>
    rcases hrunner with hblames | ⟨h₁, hstarts⟩
    · exact hblames _ _ _ _ _ hrun
    · obtain ⟨hrun'⟩ := hstarts
      cases hrun.symm.trans hrun'

end Pipewright
