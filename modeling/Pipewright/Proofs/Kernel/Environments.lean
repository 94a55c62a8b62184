import Mathlib.Data.List.Nodup
import Pipewright.Proofs.Commands
import Pipewright.Proofs.Kernel.Directories

/-!
# The protocol of environments

An environment takes three commands: one that removes an old environment of the name, one that makes
the new one, and one that reports where it is.  The first may leave any code, the others have to
succeed, and nothing is run after a command that stops the others.

* `ToolNames.Makes`: the six ways in which an environment is made or not, each with the commands that
  it takes.
* `ToolNames.createEnvironment_of_makes`: what comes of each of them.
* `ToolNames.exists_makes`: there is no other way.
* `ToolNames.createEnvironment_protocol`: a run is of the one way that the host and the runner allow.
-/

namespace Pipewright

namespace ToolNames

variable {tools : ToolNames} {runner : CommandRunner} {name : String} {description : Path}
  {h h₁ h₂ h₃ : Host} {o o' : CommandOutput} {e : Error}

/-- The commands for an environment, in the order in which they are run. -/
def environmentProtocol (tools : ToolNames) (name : String) (description : Path) : List Command :=
  [tools.removeCommand name, tools.createCommand name description, tools.infoCommand]

/-- The commands that are run on a host for an environment, with its path or the error. -/
inductive Makes (tools : ToolNames) (runner : CommandRunner) (name : String) (description : Path)
    (h : Host) : List Command → Except Error Path → Prop where
  /-- It cannot be tried to remove an old environment. -/
  | unremoved {d : Disk} {e : Error}
      (hremove : runner.run h.commands h.disk (tools.removeCommand name) = (.error e, d)) :
      Makes tools runner name description h [tools.removeCommand name] (.error e)
  /-- The environment is not made. -/
  | uncreated {h₁ h₂ : Host} {e : Error}
      (hremove : Host.Starts runner (tools.removeCommand name) h h₁)
      (hcreate : Host.Fails runner (tools.createCommand name description) h₁ e h₂) :
      Makes tools runner name description h
        [tools.removeCommand name, tools.createCommand name description] (.error e)
  /-- The environment is made, and there is no report. -/
  | unreported {h₁ h₂ h₃ : Host} {o : CommandOutput} {e : Error}
      (hremove : Host.Starts runner (tools.removeCommand name) h h₁)
      (hcreate : Host.Succeeds runner (tools.createCommand name description) h₁ o h₂)
      (hinfo : Host.Fails runner tools.infoCommand h₂ e h₃) :
      Makes tools runner name description h (tools.environmentProtocol name description) (.error e)
  /-- The environment is made, and the report is none. -/
  | unreadable {h₁ h₂ h₃ : Host} {o o' : CommandOutput} {at_ : Json.Located}
      (hremove : Host.Starts runner (tools.removeCommand name) h h₁)
      (hcreate : Host.Succeeds runner (tools.createCommand name description) h₁ o h₂)
      (hinfo : Host.Succeeds runner tools.infoCommand h₂ o' h₃)
      (hnone : ∀ directories, ¬ ReportsDirectories o'.stdout directories)
      (hparse : environmentDirectories.parse o'.stdout = .error at_) :
      Makes tools runner name description h (tools.environmentProtocol name description)
        (.error (.json at_))
  /-- The environment is made, and the report has no directories. -/
  | nowhere {h₁ h₂ h₃ : Host} {o o' : CommandOutput}
      (hremove : Host.Starts runner (tools.removeCommand name) h h₁)
      (hcreate : Host.Succeeds runner (tools.createCommand name description) h₁ o h₂)
      (hinfo : Host.Succeeds runner tools.infoCommand h₂ o' h₃)
      (hreport : ReportsDirectories o'.stdout []) :
      Makes tools runner name description h (tools.environmentProtocol name description)
        (.error (.provisioning "conda info --json" "no envs_dirs reported"))
  /-- The environment is made, and it is in the first of the directories of the report. -/
  | made {h₁ h₂ h₃ : Host} {o o' : CommandOutput} {directory : Path} {others : List Path}
      (hremove : Host.Starts runner (tools.removeCommand name) h h₁)
      (hcreate : Host.Succeeds runner (tools.createCommand name description) h₁ o h₂)
      (hinfo : Host.Succeeds runner tools.infoCommand h₂ o' h₃)
      (hreport : ReportsDirectories o'.stdout (directory :: others)) :
      Makes tools runner name description h (tools.environmentProtocol name description)
        (.ok (directory.join name))

/-! ## What comes of the ways -/

/-- Whatever code the first command leaves, the second one is run. -/
theorem createEnvironment_of_starts
    (hremove : Host.Starts runner (tools.removeCommand name) h h₁) :
    tools.createEnvironment runner name description h =
      (do
        let _ ← Host.runChecked runner (tools.createCommand name description)
        tools.environmentPath runner name : Act Host Path) h₁ := by
  obtain ⟨o, hrun⟩ := hremove.exists_run
  rw [createEnvironment, Act.bind_of_ok hrun]

theorem createEnvironment_of_uncreated
    (hremove : Host.Starts runner (tools.removeCommand name) h h₁)
    (hcreate : Host.Fails runner (tools.createCommand name description) h₁ e h₂) :
    tools.createEnvironment runner name description h = (.error e, h₂) := by
  rw [createEnvironment_of_starts hremove, Act.bind_of_error (Host.runChecked_of_fails hcreate)]

/-- Once the environment is made, its path is asked for. -/
theorem createEnvironment_of_created
    (hremove : Host.Starts runner (tools.removeCommand name) h h₁)
    (hcreate : Host.Succeeds runner (tools.createCommand name description) h₁ o h₂) :
    tools.createEnvironment runner name description h = tools.environmentPath runner name h₂ := by
  rw [createEnvironment_of_starts hremove, Act.bind_of_ok (Host.runChecked_of_succeeds hcreate)]

/-- The path of an environment depends on the report alone. -/
theorem environmentPath_of_reported (hinfo : Host.Succeeds runner tools.infoCommand h₂ o' h₃) :
    tools.environmentPath runner name h₂ =
      ((firstDirectory o'.stdout).map fun directory => directory.join name, h₃) := by
  rw [environmentPath, Act.bind_of_ok (Host.runChecked_of_succeeds hinfo)]
  cases firstDirectory o'.stdout <;> rfl

/-- The commands of a whole protocol have been run. -/
theorem commands_of_reported
    (hremove : Host.Starts runner (tools.removeCommand name) h h₁)
    (hcreate : Host.Succeeds runner (tools.createCommand name description) h₁ o h₂)
    (hinfo : h₃.commands = h₂.commands ++ [tools.infoCommand]) :
    h₃.commands = h.commands ++ tools.environmentProtocol name description := by
  rw [hinfo, hcreate.commands, hremove.commands, List.append_assoc, List.append_assoc]
  rfl

/-- Each way is one that a run takes. -/
theorem createEnvironment_of_makes {ran : List Command} {result : Except Error Path}
    (hmakes : tools.Makes runner name description h ran result) :
    (tools.createEnvironment runner name description h).1 = result ∧
      (tools.createEnvironment runner name description h).2.commands = h.commands ++ ran := by
  cases hmakes with
  | unremoved hremove =>
    rw [createEnvironment, Act.bind_of_error (Host.run_of_error hremove)]
    exact ⟨rfl, rfl⟩
  | uncreated hremove hcreate =>
    rw [createEnvironment_of_uncreated hremove hcreate]
    refine ⟨rfl, ?_⟩
    rw [hcreate.commands, hremove.commands, List.append_assoc]
    rfl
  | unreported hremove hcreate hinfo =>
    rw [createEnvironment_of_created hremove hcreate, environmentPath,
      Act.bind_of_error (Host.runChecked_of_fails hinfo)]
    exact ⟨rfl, commands_of_reported hremove hcreate hinfo.commands⟩
  | unreadable hremove hcreate hinfo hnone hparse =>
    rw [createEnvironment_of_created hremove hcreate, environmentPath_of_reported hinfo,
      firstDirectory, hparse]
    exact ⟨rfl, commands_of_reported hremove hcreate hinfo.commands⟩
  | nowhere hremove hcreate hinfo hreport =>
    rw [createEnvironment_of_created hremove hcreate, environmentPath_of_reported hinfo,
      firstDirectory_of_none hreport]
    exact ⟨rfl, commands_of_reported hremove hcreate hinfo.commands⟩
  | made hremove hcreate hinfo hreport =>
    rw [createEnvironment_of_created hremove hcreate, environmentPath_of_reported hinfo,
      firstDirectory_of_reports hreport]
    exact ⟨rfl, commands_of_reported hremove hcreate hinfo.commands⟩

/-! ## The protocol -/

/-- Whatever the host and the runner, one of the ways is open. -/
theorem exists_makes (tools : ToolNames) (runner : CommandRunner) (name : String)
    (description : Path) (h : Host) :
    ∃ ran result, tools.Makes runner name description h ran result := by
  rcases hremove : runner.run h.commands h.disk (tools.removeCommand name) with ⟨e | o, d⟩
  · exact ⟨_, _, .unremoved hremove⟩
  have hstarts : Host.Starts runner (tools.removeCommand name) h _ := .ran hremove
  obtain ⟨o₂, h₂, hcreate⟩ | ⟨e, h₂, hcreate⟩ :=
    Host.succeeds_or_fails runner (tools.createCommand name description) _
  case inr => exact ⟨_, _, .uncreated hstarts hcreate⟩
  obtain ⟨o₃, h₃, hinfo⟩ | ⟨e, h₃, hinfo⟩ := Host.succeeds_or_fails runner tools.infoCommand h₂
  case inr => exact ⟨_, _, .unreported hstarts hcreate hinfo⟩
  rcases hparse : environmentDirectories.parse o₃.stdout with at_ | _ | ⟨directory, others⟩
  · refine ⟨_, _, .unreadable hstarts hcreate hinfo (fun directories hreport => ?_) hparse⟩
    cases hparse.symm.trans (environmentDirectories_parse_eq_ok_iff.mpr hreport)
  · exact ⟨_, _, .nowhere hstarts hcreate hinfo (environmentDirectories_parse_eq_ok_iff.mp hparse)⟩
  · exact ⟨_, _, .made hstarts hcreate hinfo (environmentDirectories_parse_eq_ok_iff.mp hparse)⟩

/-- The commands of a way come first in the protocol. -/
theorem Makes.prefix_protocol {ran : List Command} {result : Except Error Path}
    (hmakes : tools.Makes runner name description h ran result) :
    ran <+: tools.environmentProtocol name description := by
  cases hmakes with
  | unremoved => exact ⟨_, rfl⟩
  | uncreated => exact ⟨_, rfl⟩
  | unreported | unreadable | nowhere | made => exact List.prefix_rfl

/-- No two commands of the protocol are alike, even if the programs have one name: they are told
apart by their first two arguments. -/
theorem nodup_environmentProtocol (tools : ToolNames) (name : String) (description : Path) :
    (tools.environmentProtocol name description).Nodup := by
  refine List.Nodup.of_map (fun c : Command => c.arguments.take 2) ?_
  simp [environmentProtocol, removeCommand, createCommand, infoCommand]

/-- An environment is made in the one way that the host and the runner allow, and in no other.  The
commands for it are the first ones of the protocol, each of them run once.  Its path is returned
exactly when the first command could be started, the others succeed and the report has a directory.
When the second one fails, its error is returned and the third one is not run. -/
theorem createEnvironment_protocol (tools : ToolNames) (runner : CommandRunner) (name : String)
    (description : Path) (h : Host) :
    (∀ ran result, tools.Makes runner name description h ran result ↔
      (tools.createEnvironment runner name description h).1 = result ∧
        (tools.createEnvironment runner name description h).2.commands = h.commands ++ ran) ∧
    (∃ ran, ran <+: tools.environmentProtocol name description ∧ ran.Nodup ∧
      (tools.createEnvironment runner name description h).2.commands = h.commands ++ ran) ∧
    (∀ p, (tools.createEnvironment runner name description h).1 = .ok p ↔
      ∃ h₁ o h₂ o' h₃ directory others,
        Host.Starts runner (tools.removeCommand name) h h₁ ∧
        Host.Succeeds runner (tools.createCommand name description) h₁ o h₂ ∧
        Host.Succeeds runner tools.infoCommand h₂ o' h₃ ∧
        ReportsDirectories o'.stdout (directory :: others) ∧ p = directory.join name) ∧
    ∀ h₁ e h₂, Host.Starts runner (tools.removeCommand name) h h₁ →
      Host.Fails runner (tools.createCommand name description) h₁ e h₂ →
      tools.createEnvironment runner name description h = (.error e, h₂) ∧
        h₂.commands =
          h.commands ++ [tools.removeCommand name, tools.createCommand name description] ∧
        (runner.BlamesCommands ∨
            (∃ h', Host.Starts runner (tools.createCommand name description) h₁ h') →
          ∃ text, e = .provisioning (tools.createCommand name description).text text) := by
  obtain ⟨ran, result, hmakes⟩ := exists_makes tools runner name description h
  obtain ⟨hresult, hcommands⟩ := createEnvironment_of_makes hmakes
  refine ⟨fun ran' result' => ⟨createEnvironment_of_makes, ?_⟩, ?_, fun p => ⟨?_, ?_⟩, ?_⟩
  · rintro ⟨hresult', hcommands'⟩
    obtain rfl := hresult.symm.trans hresult'
    obtain rfl := List.append_cancel_left (hcommands.symm.trans hcommands')
    exact hmakes
  · exact ⟨ran, hmakes.prefix_protocol,
      (nodup_environmentProtocol tools name description).sublist hmakes.prefix_protocol.sublist,
      hcommands⟩
  · intro hok
    rw [hresult] at hok
    subst hok
    cases hmakes with
    | made hremove hcreate hinfo hreport =>
      exact ⟨_, _, _, _, _, _, _, hremove, hcreate, hinfo, hreport, rfl⟩
  · rintro ⟨h₁, o, h₂, o', h₃, directory, others, hremove, hcreate, hinfo, hreport, rfl⟩
    exact (createEnvironment_of_makes (.made hremove hcreate hinfo hreport)).1
  · intro h₁ e h₂ hremove hcreate
    refine ⟨createEnvironment_of_uncreated hremove hcreate, ?_, hcreate.eq_provisioning⟩
    rw [hcreate.commands, hremove.commands, List.append_assoc]
    rfl

end ToolNames

end Pipewright
