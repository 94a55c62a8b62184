import Pipewright.Project.Generate
import Pipewright.Proofs.Diagnostics.Clean
import Pipewright.Proofs.Failures
import Pipewright.Proofs.Project.Emitted

/-!
# What generating can fail with

When no rule reports an error about the graph of a document and the first output is taken, then
generating its project does not fail over the graph.  What is left are errors that are about no
node, those of the provisioners, and notebooks that tell no language that there is a kernel for.

* `TellsNoLanguage`: the notebooks that no kernel can be asked for.
* `GenerationSettings.LateFault`: what is left.
* `GenerationSettings.emitStep_error`, `GenerationSettings.emitSteps_error`: dealing with steps.
* `GenerationSettings.generate_error`: the whole.
-/

namespace Pipewright

/-! ## Notebooks -/

/-- There are kernels for the language. -/
def KernelMapping.Knows (language : String) : Prop :=
  Text.occursIn "python" (lowered language) = true ∨ lowered language = "r"

/-- There is a family for each language that there are kernels for. -/
theorem KernelMapping.not_knows_of_family {m : KernelMapping} {language : String} {e : Error}
    (h : m.family language = .error e) : ¬ Knows language := by
  unfold family KernelFamily.ofHint at h
  rintro (hpython | hr)
  · rw [if_pos hpython] at h
    cases h
  · rw [hr] at h
    cases h

/-- The file is no notebook that tells a language that there are kernels for: it cannot be read, it
is not JSON, or it tells another language or none. -/
def TellsNoLanguage (file : Path) (d : Disk) : Prop :=
  (∃ e, notebookLanguage file d = .error e) ∨
    ∃ language, notebookLanguage file d = .ok language ∧
      ∀ word, language = some word → ¬ KernelMapping.Knows word

/-- There is a family of kernels for each notebook that tells such a language. -/
theorem StepSource.family_eq_error {s : StepSource} {m : KernelMapping} {d : Disk} {e : Error}
    (h : s.family m d = .error e) :
    (∃ detail, e = s.unsupported detail) ∧ TellsNoLanguage s.filename d := by
  rw [family] at h
  obtain hread | ⟨language, hread, hfamily⟩ := bind_eq_error_iff.mp h
  · obtain ⟨e', hlanguage, rfl⟩ := mapError_eq_error_iff.mp hread
    exact ⟨⟨_, rfl⟩, .inl ⟨e', hlanguage⟩⟩
  · obtain ⟨e', hunknown, rfl⟩ := mapError_eq_error_iff.mp hfamily
    refine ⟨⟨_, rfl⟩, .inr ⟨language, mapError_eq_ok_iff.mp hread, ?_⟩⟩
    rintro word rfl
    exact KernelMapping.not_knows_of_family hunknown

namespace GenerationSettings

variable {settings : GenerationSettings} {provisioners : Provisioners} {g : Graph} {n : Node}
  {handled : Handled} {j j' : Journal} {e : Error}

/-- What generating can fail with although the graph is planned: an error that is about no node, one
that the provisioners have given, or one about a notebook on the disk. -/
inductive LateFault (settings : GenerationSettings) (provisioners : Provisioners) (g : Graph)
    (d : Disk) : Error → Prop where
  | apart {e : Error} (h : e.node? = none) : LateFault settings provisioners g d e
  | given {e : Error} (h : provisioners.Gives e) : LateFault settings provisioners g d e
  | notebook (n : Node) (hn : n ∈ g.nodes) (hoperator : n.operator = some .notebook)
      {file : Path} (hfile : settings.sourcePath n = .ok file) (hlanguage : TellsNoLanguage file d)
      (name detail : String) :
      LateFault settings provisioners g d (.unsupportedNode n.id name detail)

/-- An action apart from all nodes ends in such an error. -/
theorem LateFault.of_apart {α : Type} {x : Act Journal α} (hx : x.Apart)
    (h : x j = (.error e, j')) : settings.LateFault provisioners g j'.host.disk e :=
  .apart (hx j e j' h)

/-! ## Steps -/

/-- The environment of a step is wanting only on the disk or of the provisioners. -/
theorem runtimeFor_error {name : StepName}
    (h : settings.runtimeFor provisioners n name j = (.error e, j')) :
    settings.LateFault provisioners g j'.host.disk e := by
  simp only [runtimeFor] at h
  split at h
  · exact absurd h Act.pure_ne_error
  · obtain hmade | ⟨_, j₁, -, h⟩ := Act.bind_eq_error_iff.mp h
    · exact .of_apart (Journal.apart_files _) hmade
    · obtain hwritten | ⟨_, j₂, -, h⟩ := Act.bind_eq_error_iff.mp h
      · exact .of_apart (Journal.apart_change _) hwritten
      · exact .given (Journal.environment_eq_error h)

/-- The process of a step is wanting only for a kernel, or for the language of a notebook. -/
theorem processFor_error {s : StepSource} (hn : s.node ∈ g.nodes) (hstep : isStep s.node = true)
    (hclean : g.Clean) (hfile : settings.sourcePath s.node = .ok s.filename)
    (h : (settings.emission provisioners).processFor s j = (.error e, j')) :
    settings.LateFault provisioners g j'.host.disk e := by
  rw [Emission.processFor] at h
  rcases hoperator : s.node.operator with _ | (_ | _ | _ | word) <;> rw [hoperator] at h
  · rw [isStep, hoperator, Option.isSome_none, Bool.and_false] at hstep
    cases hstep
  · exact absurd h Act.pure_ne_error
  · exact absurd h Act.pure_ne_error
  · obtain hfamily | ⟨family, j₁, -, h⟩ := Act.bind_eq_error_iff.mp h
    · obtain ⟨hfamily, rfl⟩ := Journal.ask_eq_error_iff.mp hfamily
      obtain ⟨⟨detail, rfl⟩, hlanguage⟩ := StepSource.family_eq_error hfamily
      exact .notebook s.node hn hoperator hfile hlanguage _ _
    · obtain hkernel | ⟨kernel, j₂, -, h⟩ := Act.bind_eq_error_iff.mp h
      · exact .given (Journal.kernel_eq_error hkernel)
      · exact absurd h Act.pure_ne_error
  · exact absurd hoperator
      (hclean.operator_ne_unknown (Graph.mem_executionNodes_of_isStep hn hstep) word)

/-- When the first output is taken, the inputs of a step have bindings. -/
theorem exists_bindStep (hclean : g.Clean) (hn : n ∈ g.nodes) (handled : Handled)
    (name : StepName) : ∃ bindings, g.bindStep .firstMatch handled n name = .ok bindings := by
  rw [Graph.bindStep, Graph.suppliers,
    Graph.dataSources_eq_ok fun link hlink => hclean.exists_follow hn hlink]
  exact exists_bindInputs fun hstrict => by cases hstrict

theorem emitStep_error (hclean : g.Clean) (hpolicy : settings.policy = .firstMatch)
    (hn : n ∈ g.nodes) (hstep : isStep n = true)
    (h : settings.emitStep provisioners g handled n j = (.error e, j')) :
    settings.LateFault provisioners g j'.host.disk e := by
  have hexecution := Graph.mem_executionNodes_of_isStep hn hstep
  obtain ⟨name, hname⟩ := hclean.exists_name hexecution
  obtain ⟨file, hfile⟩ := hclean.exists_sourceFile hexecution
  have hsource : settings.sourcePath n = .ok (settings.home.join file) := by
    rw [sourcePath, hfile]
  obtain ⟨bindings, hbindings⟩ := exists_bindStep hclean hn handled name
  -- the name, the file and the bindings are there, so one of the other parts has failed
  rw [emitStep, hname, hsource, Act.settle_ok_bind, Act.settle_ok_bind, hpolicy, hbindings] at h
  obtain hruntime | ⟨runtime, j₁, -, h⟩ := Act.bind_eq_error_iff.mp h
  · exact runtimeFor_error hruntime
  · rw [Act.settle_ok_bind] at h
    obtain hprocess | ⟨process, j₂, -, h⟩ := Act.bind_eq_error_iff.mp h
    · exact processFor_error hn hstep hclean hsource hprocess
    · obtain hwritten | ⟨_, j₃, -, h⟩ := Act.bind_eq_error_iff.mp h
      · exact .of_apart (Journal.apart_change _) hwritten
      · exact absurd h Act.pure_ne_error

theorem emitSteps_error (hclean : g.Clean) (hpolicy : settings.policy = .firstMatch)
    {nodes : List Node} (hnodes : ∀ n ∈ nodes, n ∈ g.nodes ∧ isStep n = true)
    (h : settings.emitSteps provisioners g handled nodes j = (.error e, j')) :
    settings.LateFault provisioners g j'.host.disk e := by
  induction nodes generalizing handled j with
  | nil => exact absurd h Act.pure_ne_error
  | cons n rest ih =>
    obtain ⟨hn, hstep⟩ := hnodes n List.mem_cons_self
    obtain hfirst | ⟨step, j₁, -, h⟩ := Act.bind_eq_error_iff.mp h
    · exact emitStep_error hclean hpolicy hn hstep hfirst
    · obtain hothers | ⟨others, j₂, -, h⟩ := Act.bind_eq_error_iff.mp h
      · exact ih (fun m hm => hnodes m (List.mem_cons_of_mem _ hm)) hothers
      · exact absurd h Act.pure_ne_error

/-! ## The whole -/

/-- A skeleton that cannot be filled is not the fault of a node. -/
theorem apart_writeMain (settings : GenerationSettings) (composition : Composition) :
    (settings.writeMain composition).Apart := by
  refine .bind (Journal.apart_ask fun d e h => ?_) fun skeleton =>
    (Journal.apart_change _).bind fun _ => Journal.apart_change _
  obtain hread | ⟨source, -, hparse⟩ := bind_eq_error_iff.mp h
  · obtain ⟨fault, -, rfl⟩ := mapError_eq_error_iff.mp hread
    rfl
  · obtain ⟨fault, -, rfl⟩ := mapError_eq_error_iff.mp hparse
    rfl

/-- A document that cannot be kept is not the fault of a node. -/
theorem apart_keepInput (settings : GenerationSettings) (input : Path) :
    (settings.keepInput input).Apart := by
  refine .bind .get fun k => ?_
  split
  · exact .pure _
  · exact Journal.apart_change _

/-- For a document without errors, and with the first output taken, generating does not fail over
the graph. -/
theorem generate_error {input : Path} (hclean : g.Clean) (hpolicy : settings.policy = .firstMatch)
    (hload : settings.loadGraph input j.host.disk = .ok g)
    (h : settings.generate provisioners input j = (.error e, j')) :
    settings.LateFault provisioners g j'.host.disk e := by
  have hg := accepted_of_loadGraph hload
  obtain ⟨order, horder⟩ := hclean.exists_executionOrder hg
  have hnodes : g.stepNodes = .ok (order.filter isStep) := by
    rw [Graph.stepNodes, horder]
    rfl
  obtain hasked | ⟨g', j₁, hasked, h⟩ := Act.bind_eq_error_iff.mp h
  · obtain ⟨hasked, -⟩ := Journal.ask_eq_error_iff.mp hasked
    rw [hload] at hasked
    cases hasked
  · obtain ⟨hasked, rfl⟩ := Journal.ask_eq_ok_iff.mp hasked
    obtain rfl := Except.ok.inj (hload.symm.trans hasked)
    rw [hnodes, Act.settle_ok_bind] at h
    obtain hmade | ⟨_, j₂, -, h⟩ := Act.bind_eq_error_iff.mp h
    · exact .of_apart (Journal.apart_files _) hmade
    obtain hsteps | ⟨steps, j₃, -, h⟩ := Act.bind_eq_error_iff.mp h
    · exact emitSteps_error hclean hpolicy
        (fun n hn => (Graph.mem_filter_isStep_iff hg horder).mp hn) hsteps
    obtain hmain | ⟨_, j₄, -, h⟩ := Act.bind_eq_error_iff.mp h
    · exact .of_apart (apart_writeMain settings _) hmain
    obtain hkept | ⟨_, j₅, -, h⟩ := Act.bind_eq_error_iff.mp h
    · exact .of_apart (apart_keepInput settings input) hkept
    · exact absurd h Act.pure_ne_error

end GenerationSettings

end Pipewright
