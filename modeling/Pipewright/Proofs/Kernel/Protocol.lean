import Mathlib.Data.List.Nodup
import Pipewright.Proofs.Kernel.Listed
import Pipewright.Proofs.Runs

/-!
# The protocol of kernels

A kernel for an environment takes at most three commands: one that lists the kernels there are, one
that installs a new kernel, and one that makes it known.  Each of them is run only when those before
it call for it, and how far it comes decides what is returned.

* `ToolNames.Provides`: the six ways in which a kernel is provided or not, each with the commands
  that it takes.
* `ToolNames.provisionKernel_of_provides`: what comes of each of them.
* `ToolNames.exists_provides`: there is no other way.
* `ToolNames.provisionKernel_protocol`: a run is of the one way that the host and the runner allow.
-/

namespace Pipewright

namespace ToolNames

variable {tools : ToolNames} {runner : CommandRunner} {runtime : Path} {family : KernelFamily}
  {h h₁ : Host} {kernels : List InstalledKernel}

/-- The commands for a new kernel with a name, in the order in which they are run. -/
def protocol (tools : ToolNames) (runtime : Path) (family : KernelFamily) (name : String) :
    List Command :=
  [tools.listCommand, tools.installCommand runtime family,
    tools.registerCommand runtime family name]

/-- The commands that are run on a host for the kernel of an environment, with the name of the
kernel or the error. -/
inductive Provides (tools : ToolNames) (runner : CommandRunner) (runtime : Path)
    (family : KernelFamily) (h : Host) : List Command → Except Error String → Prop where
  /-- There is no environment. -/
  | missing (hmissing : h.disk.exists runtime = false) :
      Provides tools runner runtime family h [] (.error (.environmentNotFound runtime))
  /-- The least of the kernels on the list that serve the environment. -/
  | reused {kernels : List InstalledKernel} {h₁ : Host} {name : String}
      (hexists : h.disk.exists runtime = true) (hlist : tools.Lists runner h kernels h₁)
      (hleast : InstalledKernel.LeastServing kernels runtime family name) :
      Provides tools runner runtime family h [tools.listCommand] (.ok name)
  /-- None of the kernels serves the environment, and its path tells no name for a new one. -/
  | unnamed {kernels : List InstalledKernel} {h₁ : Host} {e : Error}
      (hexists : h.disk.exists runtime = true) (hlist : tools.Lists runner h kernels h₁)
      (hnone : ∀ k ∈ kernels, ¬ k.Serves runtime family)
      (hname : environmentName? runtime = none) (herror : kernelNameFor runtime family = .error e) :
      Provides tools runner runtime family h [tools.listCommand] (.error e)
  /-- A new kernel cannot be installed. -/
  | uninstalled {kernels : List InstalledKernel} {h₁ h₂ : Host} {environment : String} {e : Error}
      (hexists : h.disk.exists runtime = true) (hlist : tools.Lists runner h kernels h₁)
      (hnone : ∀ k ∈ kernels, ¬ k.Serves runtime family)
      (hname : environmentName? runtime = some environment)
      (hinstall : Host.Fails runner (tools.installCommand runtime family) h₁ e h₂) :
      Provides tools runner runtime family h
        [tools.listCommand, tools.installCommand runtime family] (.error e)
  /-- A new kernel is installed and cannot be made known. -/
  | unregistered {kernels : List InstalledKernel} {h₁ h₂ h₃ : Host} {environment : String}
      {o : CommandOutput} {e : Error}
      (hexists : h.disk.exists runtime = true) (hlist : tools.Lists runner h kernels h₁)
      (hnone : ∀ k ∈ kernels, ¬ k.Serves runtime family)
      (hname : environmentName? runtime = some environment)
      (hinstall : Host.Succeeds runner (tools.installCommand runtime family) h₁ o h₂)
      (hregister : Host.Fails runner
        (tools.registerCommand runtime family (environment ++ "_" ++ family.toText)) h₂ e h₃) :
      Provides tools runner runtime family h
        (tools.protocol runtime family (environment ++ "_" ++ family.toText)) (.error e)
  /-- A new kernel is installed and made known under the name of the environment and the family. -/
  | installed {kernels : List InstalledKernel} {h₁ h₂ h₃ : Host} {environment : String}
      {o o' : CommandOutput}
      (hexists : h.disk.exists runtime = true) (hlist : tools.Lists runner h kernels h₁)
      (hnone : ∀ k ∈ kernels, ¬ k.Serves runtime family)
      (hname : environmentName? runtime = some environment)
      (hinstall : Host.Succeeds runner (tools.installCommand runtime family) h₁ o h₂)
      (hregister : Host.Succeeds runner
        (tools.registerCommand runtime family (environment ++ "_" ++ family.toText)) h₂ o' h₃) :
      Provides tools runner runtime family h
        (tools.protocol runtime family (environment ++ "_" ++ family.toText))
        (.ok (environment ++ "_" ++ family.toText))

/-! ## What comes of the ways -/

/-- When the environment is there, the list is looked at. -/
theorem provisionKernel_of_lists (hexists : h.disk.exists runtime = true)
    (hlist : tools.Lists runner h kernels h₁) :
    tools.provisionKernel runner runtime family h =
      (match InstalledKernel.servingNames kernels runtime family with
        | name :: _ => return name
        | [] => do
          let name ← Act.settle (kernelNameFor runtime family)
          tools.installKernel runner runtime family name
          return name : Act Host String) h₁ := by
  rw [provisionKernel, Act.bind_of_ok (Act.get_eq_ok_iff.mpr ⟨rfl, rfl⟩), hexists]
  exact Act.bind_of_ok (existingKernels_of_lists hlist runtime family) _

theorem servingNames_eq_nil_iff :
    InstalledKernel.servingNames kernels runtime family = [] ↔
      ∀ k ∈ kernels, ¬ k.Serves runtime family := by
  rw [List.eq_nil_iff_forall_not_mem]
  constructor
  · exact fun hnil k hk hserves =>
      hnil k.name (InstalledKernel.mem_servingNames_iff.mpr ⟨k, hk, hserves, rfl⟩)
  · intro hnone name hmem
    obtain ⟨k, hk, hserves, -⟩ := InstalledKernel.mem_servingNames_iff.mp hmem
    exact hnone k hk hserves

/-- The first name that serves is returned. -/
theorem provisionKernel_of_leastServing {name : String} (hexists : h.disk.exists runtime = true)
    (hlist : tools.Lists runner h kernels h₁)
    (hleast : InstalledKernel.LeastServing kernels runtime family name) :
    tools.provisionKernel runner runtime family h = (.ok name, h₁) := by
  rw [provisionKernel_of_lists hexists hlist]
  obtain ⟨k, hk, hserves, -⟩ := hleast.serving
  rcases hnames : InstalledKernel.servingNames kernels runtime family with _ | ⟨first, others⟩
  · exact absurd hserves (servingNames_eq_nil_iff.mp hnames k hk)
  · rw [hleast.unique (InstalledKernel.leastServing_head hlist.namesInOrder hnames)]
    rfl

/-- When no kernel serves, a new one is asked for. -/
theorem provisionKernel_of_none (hexists : h.disk.exists runtime = true)
    (hlist : tools.Lists runner h kernels h₁)
    (hnone : ∀ k ∈ kernels, ¬ k.Serves runtime family) :
    tools.provisionKernel runner runtime family h =
      (do
        let name ← Act.settle (kernelNameFor runtime family)
        tools.installKernel runner runtime family name
        return name : Act Host String) h₁ := by
  rw [provisionKernel_of_lists hexists hlist, servingNames_eq_nil_iff.mpr hnone]

/-- A new kernel is named after the environment and the family. -/
theorem provisionKernel_of_new {environment : String} (hexists : h.disk.exists runtime = true)
    (hlist : tools.Lists runner h kernels h₁)
    (hnone : ∀ k ∈ kernels, ¬ k.Serves runtime family)
    (hname : environmentName? runtime = some environment) :
    tools.provisionKernel runner runtime family h =
      (do
        tools.installKernel runner runtime family (environment ++ "_" ++ family.toText)
        return environment ++ "_" ++ family.toText : Act Host String) h₁ := by
  have hsettle : Act.settle (kernelNameFor runtime family) h₁ =
      (.ok (environment ++ "_" ++ family.toText), h₁) := by
    rw [kernelNameFor, hname, Act.settle]
  rw [provisionKernel_of_none hexists hlist hnone, Act.bind_of_ok hsettle]

section Install

variable {h₂ h₃ : Host} {o o' : CommandOutput} {e : Error} {name : String}

theorem installKernel_of_uninstalled
    (hinstall : Host.Fails runner (tools.installCommand runtime family) h₁ e h₂) :
    tools.installKernel runner runtime family name h₁ = (.error e, h₂) :=
  Act.bind_of_error (Host.runChecked_of_fails hinstall) _

theorem installKernel_of_unregistered
    (hinstall : Host.Succeeds runner (tools.installCommand runtime family) h₁ o h₂)
    (hregister : Host.Fails runner (tools.registerCommand runtime family name) h₂ e h₃) :
    tools.installKernel runner runtime family name h₁ = (.error e, h₃) := by
  rw [installKernel, Act.bind_of_ok (Host.runChecked_of_succeeds hinstall)]
  exact Act.bind_of_error (Host.runChecked_of_fails hregister) _

theorem installKernel_of_installed
    (hinstall : Host.Succeeds runner (tools.installCommand runtime family) h₁ o h₂)
    (hregister : Host.Succeeds runner (tools.registerCommand runtime family name) h₂ o' h₃) :
    tools.installKernel runner runtime family name h₁ = (.ok (), h₃) := by
  rw [installKernel, Act.bind_of_ok (Host.runChecked_of_succeeds hinstall)]
  exact Act.bind_of_ok (Host.runChecked_of_succeeds hregister) _

end Install

/-- Each way is one that a run takes. -/
theorem provisionKernel_of_provides {ran : List Command} {result : Except Error String}
    (hprovides : tools.Provides runner runtime family h ran result) :
    (tools.provisionKernel runner runtime family h).1 = result ∧
      (tools.provisionKernel runner runtime family h).2.commands = h.commands ++ ran := by
  cases hprovides with
  | missing hmissing =>
    rw [provisionKernel, Act.bind_of_ok (Act.get_eq_ok_iff.mpr ⟨rfl, rfl⟩), hmissing]
    exact ⟨rfl, (List.append_nil _).symm⟩
  | reused hexists hlist hleast =>
    rw [provisionKernel_of_leastServing hexists hlist hleast]
    exact ⟨rfl, hlist.commands⟩
  | unnamed hexists hlist hnone hname herror =>
    rw [provisionKernel_of_none hexists hlist hnone, herror]
    exact ⟨rfl, hlist.commands⟩
  | uninstalled hexists hlist hnone hname hinstall =>
    rw [provisionKernel_of_new hexists hlist hnone hname,
      Act.bind_of_error (installKernel_of_uninstalled hinstall)]
    refine ⟨rfl, ?_⟩
    rw [hinstall.commands, hlist.commands, List.append_assoc]
    rfl
  | unregistered hexists hlist hnone hname hinstall hregister =>
    rw [provisionKernel_of_new hexists hlist hnone hname,
      Act.bind_of_error (installKernel_of_unregistered hinstall hregister)]
    refine ⟨rfl, ?_⟩
    rw [hregister.commands, hinstall.commands, hlist.commands, List.append_assoc, List.append_assoc]
    rfl
  | installed hexists hlist hnone hname hinstall hregister =>
    rw [provisionKernel_of_new hexists hlist hnone hname,
      Act.bind_of_ok (installKernel_of_installed hinstall hregister),
      Act.pure_eq_ok_iff.mpr ⟨rfl, rfl⟩]
    refine ⟨rfl, ?_⟩
    rw [hregister.commands, hinstall.commands, hlist.commands, List.append_assoc, List.append_assoc]
    rfl

/-! ## The protocol -/

/-- Whatever the host and the runner, one of the ways is open. -/
theorem exists_provides (tools : ToolNames) (runner : CommandRunner) (runtime : Path)
    (family : KernelFamily) (h : Host) :
    ∃ ran result, tools.Provides runner runtime family h ran result := by
  rcases hexists : h.disk.exists runtime with _ | _
  · exact ⟨_, _, .missing hexists⟩
  obtain ⟨kernels, h₁, hlist⟩ := exists_lists tools runner h
  rcases hnames : InstalledKernel.servingNames kernels runtime family with _ | ⟨first, others⟩
  case cons =>
    exact ⟨_, _, .reused hexists hlist
      (InstalledKernel.leastServing_head hlist.namesInOrder hnames)⟩
  have hnone := servingNames_eq_nil_iff.mp hnames
  rcases hname : environmentName? runtime with _ | environment
  · rcases herror : kernelNameFor runtime family with e | name
    · exact ⟨_, _, .unnamed hexists hlist hnone hname herror⟩
    · rw [kernelNameFor, hname] at herror
      cases herror
  obtain ⟨o, h₂, hinstall⟩ | ⟨e, h₂, hinstall⟩ :=
    Host.succeeds_or_fails runner (tools.installCommand runtime family) h₁
  · obtain ⟨o', h₃, hregister⟩ | ⟨e, h₃, hregister⟩ := Host.succeeds_or_fails runner
      (tools.registerCommand runtime family (environment ++ "_" ++ family.toText)) h₂
    · exact ⟨_, _, .installed hexists hlist hnone hname hinstall hregister⟩
    · exact ⟨_, _, .unregistered hexists hlist hnone hname hinstall hregister⟩
  · exact ⟨_, _, .uninstalled hexists hlist hnone hname hinstall⟩

/-- The commands of a way come first in the protocol. -/
theorem Provides.prefix_protocol {ran : List Command} {result : Except Error String}
    (hprovides : tools.Provides runner runtime family h ran result) :
    ∃ name, ran <+: tools.protocol runtime family name := by
  cases hprovides with
  | missing => exact ⟨"", List.nil_prefix⟩
  | reused => exact ⟨"", _, rfl⟩
  | unnamed => exact ⟨"", _, rfl⟩
  | uninstalled => exact ⟨"", _, rfl⟩
  | unregistered => exact ⟨_, List.prefix_rfl⟩
  | installed => exact ⟨_, List.prefix_rfl⟩

/-- No two commands of the protocol are alike, even if the programs have one name: they are told
apart by their first argument. -/
theorem nodup_protocol (tools : ToolNames) (runtime : Path) (family : KernelFamily)
    (name : String) : (tools.protocol runtime family name).Nodup := by
  refine List.Nodup.of_map (fun c : Command => c.arguments.head?) ?_
  simp [protocol, listCommand, installCommand, registerCommand]

/-- The kernel of an environment is provided in the one way that the host and the runner allow, and
in no other, and the commands for it are the first ones of the protocol, each of them run once. -/
theorem provisionKernel_protocol (tools : ToolNames) (runner : CommandRunner) (runtime : Path)
    (family : KernelFamily) (h : Host) :
    (∀ ran result, tools.Provides runner runtime family h ran result ↔
      (tools.provisionKernel runner runtime family h).1 = result ∧
        (tools.provisionKernel runner runtime family h).2.commands = h.commands ++ ran) ∧
    ∃ ran name, ran <+: tools.protocol runtime family name ∧ ran.Nodup ∧
      (tools.provisionKernel runner runtime family h).2.commands = h.commands ++ ran := by
  obtain ⟨ran, result, hprovides⟩ := exists_provides tools runner runtime family h
  obtain ⟨hresult, hcommands⟩ := provisionKernel_of_provides hprovides
  refine ⟨fun ran' result' => ⟨provisionKernel_of_provides, ?_⟩, ?_⟩
  · rintro ⟨hresult', hcommands'⟩
    obtain rfl := hresult.symm.trans hresult'
    obtain rfl := List.append_cancel_left (hcommands.symm.trans hcommands')
    exact hprovides
  · obtain ⟨name, hprefix⟩ := hprovides.prefix_protocol
    exact ⟨ran, name, hprefix, (nodup_protocol tools runtime family name).sublist hprefix.sublist,
      hcommands⟩

end ToolNames

end Pipewright
