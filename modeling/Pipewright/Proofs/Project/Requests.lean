import Pipewright.Proofs.Failures
import Pipewright.Proofs.Frames
import Pipewright.Proofs.Project.Emitted
import Pipewright.Proofs.Project.EntryFiles

/-!
# What is asked of the provisioners

A step asks for an environment when it declares none but comes with the description of one, and then
for a kernel when it runs a notebook.  Nothing else is asked, nothing twice, and no step asks before
the steps before it have got their answers.  What is asked for a step depends on what has been
answered and on what the disk holds by then, so it is told along with the hosts that the step goes
through.

* `NeedsEnvironment`: the steps whose environment is made.
* `RuntimeProvided`, `ProcessProvided`: what is asked for an environment and for a process.
* `StepServed`, `StepsServed`: steps that have been dealt with, and what they have asked.
* `RuntimeWanting`, `ProcessWanting`, `StepStopped`: a step that fails, and what it has asked.
* `Underway`, `StoppedAsking`: how far generating has come, and where it has stopped.
* `GenerationSettings.generate_requests`: the main statement.
-/

namespace Pipewright

/-- The environment of the step is made: the step declares none, and its description has more than
ten bytes. -/
def NeedsEnvironment (n : Node) : Prop :=
  n.attributes.runtimeEnvironment = "" ∧ 10 < n.attributes.environmentYaml.utf8ByteSize

theorem needsEnvironment_iff {n : Node} : NeedsEnvironment n ↔
    ¬ (!n.attributes.runtimeEnvironment.isEmpty || !n.attributes.hasEnvironmentYaml) = true := by
  rw [NeedsEnvironment, Attributes.hasEnvironmentYaml, Attributes.environmentYamlLimit]
  simp

/-- The language that a notebook tells, when a kernel for it is asked for. -/
theorem StepSource.family_eq_ok {s : StepSource} {m : KernelMapping} {d : Disk}
    {family : KernelFamily} (h : s.family m d = .ok family) :
    ∃ language, notebookLanguage s.filename d = .ok (some language) ∧
      m.family language = .ok family := by
  obtain ⟨language, hlanguage, hfamily⟩ := bind_eq_ok_iff.mp h
  rw [mapError_eq_ok_iff] at hlanguage hfamily
  cases language with
  | some language => exact ⟨language, hlanguage, hfamily⟩
  | none =>
    -- the language without a name is none that there are kernels for
    have hnone : (m.family "").toOption = none := by cases m <;> decide
    rw [Option.getD_none] at hfamily
    rw [hfamily] at hnone
    cases hnone

namespace GenerationSettings

variable {settings : GenerationSettings} {p : Provisioners} {g : Graph} {n : Node}
  {name : StepName} {handled : Handled} {j j' : Journal} {e : Error}

/-! ## Requests of a step -/

/-- The environment of a step is known: the step declares it, or a description has been written and
the answer to the one request for it is the environment. -/
inductive RuntimeProvided (settings : GenerationSettings) (p : Provisioners) (n : Node)
    (name : StepName) (h : Host) : List Request → String → Host → Prop where
  | declared (hneeds : ¬ NeedsEnvironment n) :
      RuntimeProvided settings p n name h [] n.attributes.runtimeEnvironment h
  | made (hneeds : NeedsEnvironment n) {d d' : Disk} {runtime : String} {h' : Host}
      (hdirectory : DiskAct.makeDirectories settings.environmentsPath h.disk = (.ok (), d))
      (hdescription :
        d.writeText (settings.descriptionPath name) (descriptionText n.attributes) = .ok d')
      (hanswer : p.environment (name.text ++ "_env") (settings.descriptionPath name)
        { h with disk := d' } = (.ok runtime, h')) :
      RuntimeProvided settings p n name h
        [.environment (name.text ++ "_env") (settings.descriptionPath name)] runtime h'

/-- The process of a step is known: the step runs a script, or a notebook whose language has been
told, and then the one request for a kernel of the family of that language has been answered. -/
inductive ProcessProvided (settings : GenerationSettings) (p : Provisioners) (n : Node)
    (file : Path) (runtime : String) (h : Host) : List Request → Host → Prop where
  | script (hoperator : n.operator = some .python ∨ n.operator = some .r) :
      ProcessProvided settings p n file runtime h [] h
  | notebook (hoperator : n.operator = some .notebook) {language kernel : String}
      {family : KernelFamily} {h' : Host}
      (hlanguage : notebookLanguage file h.disk = .ok (some language))
      (hfamily : settings.mapping.family language = .ok family)
      (hanswer : p.kernel runtime family h = (.ok kernel, h')) :
      ProcessProvided settings p n file runtime h [.kernel runtime family] h'

/-- The environment of a step is wanting: its description could not be written, or the request for
it has been answered with an error. -/
inductive RuntimeWanting (settings : GenerationSettings) (p : Provisioners) (n : Node)
    (name : StepName) (h : Host) : List Request → Error → Host → Prop where
  | directory (hneeds : NeedsEnvironment n) {fault : DiskFault} {d : Disk}
      (hdirectory : DiskAct.makeDirectories settings.environmentsPath h.disk = (.error fault, d)) :
      RuntimeWanting settings p n name h [] (.disk fault) { h with disk := d }
  | description (hneeds : NeedsEnvironment n) {fault : DiskFault} {d : Disk}
      (hdirectory : DiskAct.makeDirectories settings.environmentsPath h.disk = (.ok (), d))
      (hdescription : d.writeText (settings.descriptionPath name) (descriptionText n.attributes) =
        .error fault) :
      RuntimeWanting settings p n name h [] (.disk fault) { h with disk := d }
  | refused (hneeds : NeedsEnvironment n) {d d' : Disk} {e : Error} {h' : Host}
      (hdirectory : DiskAct.makeDirectories settings.environmentsPath h.disk = (.ok (), d))
      (hdescription :
        d.writeText (settings.descriptionPath name) (descriptionText n.attributes) = .ok d')
      (hanswer : p.environment (name.text ++ "_env") (settings.descriptionPath name)
        { h with disk := d' } = (.error e, h')) :
      RuntimeWanting settings p n name h
        [.environment (name.text ++ "_env") (settings.descriptionPath name)] e h'

/-- The process of a step is wanting: no process can be made of the operator, the notebook tells no
language that there are kernels for, or the request for a kernel has been answered with an error. -/
inductive ProcessWanting (settings : GenerationSettings) (p : Provisioners) (n : Node)
    (name : StepName) (file : Path) (runtime : String) (h : Host) :
    List Request → Error → Host → Prop where
  | unsupported (hoperator : n.operator = none ∨ ∃ word, n.operator = some (.unknown word))
      (detail : String) :
      ProcessWanting settings p n name file runtime h [] (.unsupportedNode n.id name.text detail) h
  | speechless (hoperator : n.operator = some .notebook)
      (hlanguage : (∃ e, notebookLanguage file h.disk = .error e) ∨
        ∃ language, notebookLanguage file h.disk = .ok language ∧
          ∃ e, settings.mapping.family (language.getD "") = .error e) (detail : String) :
      ProcessWanting settings p n name file runtime h [] (.unsupportedNode n.id name.text detail) h
  | refused (hoperator : n.operator = some .notebook) {language : String} {family : KernelFamily}
      {e : Error} {h' : Host} (hlanguage : notebookLanguage file h.disk = .ok (some language))
      (hfamily : settings.mapping.family language = .ok family)
      (hanswer : p.kernel runtime family h = (.error e, h')) :
      ProcessWanting settings p n name file runtime h [.kernel runtime family] e h'

theorem runtimeFor_provided {runtime : String}
    (h : settings.runtimeFor p n name j = (.ok runtime, j')) :
    ∃ rs, settings.RuntimeProvided p n name j.host rs runtime j'.host ∧
      j'.requests = j.requests ++ rs := by
  rw [runtimeFor] at h
  split at h
  · next hgiven =>
    obtain ⟨rfl, rfl⟩ := Act.pure_eq_ok_iff.mp h
    exact ⟨[], .declared fun hneeds => needsEnvironment_iff.mp hneeds hgiven,
      (List.append_nil _).symm⟩
  · next hneeds =>
    simp only [Act.bind_eq_ok_iff, Journal.files_eq_ok_iff, Journal.change_eq_ok_iff,
      Journal.environment_eq_ok_iff] at h
    obtain ⟨_, _, ⟨d, hdirectory, rfl⟩, _, _, ⟨d', hdescription, rfl⟩, h', hanswer, rfl⟩ := h
    exact ⟨_, .made (needsEnvironment_iff.mpr hneeds) hdirectory hdescription hanswer, rfl⟩

theorem runtimeFor_wanting (h : settings.runtimeFor p n name j = (.error e, j')) :
    ∃ rs, settings.RuntimeWanting p n name j.host rs e j'.host ∧
      j'.requests = j.requests ++ rs := by
  rw [runtimeFor] at h
  split at h
  · exact absurd h Act.pure_ne_error
  · next hneeds =>
    have hneeds := needsEnvironment_iff.mpr hneeds
    obtain h | ⟨_, j₁, hmade, h⟩ := Act.bind_eq_error_iff.mp h
    · obtain ⟨fault, d, hdirectory, rfl, rfl⟩ := Journal.files_eq_error_iff.mp h
      exact ⟨[], .directory hneeds hdirectory, (List.append_nil _).symm⟩
    obtain ⟨d, hdirectory, rfl⟩ := Journal.files_eq_ok_iff.mp hmade
    obtain h | ⟨_, j₂, hwritten, h⟩ := Act.bind_eq_error_iff.mp h
    · obtain ⟨fault, hdescription, rfl, rfl⟩ := Journal.change_eq_error_iff.mp h
      exact ⟨[], .description hneeds hdirectory hdescription, (List.append_nil _).symm⟩
    obtain ⟨d', hdescription, rfl⟩ := Journal.change_eq_ok_iff.mp hwritten
    obtain ⟨h', hanswer, rfl⟩ := Journal.environment_eq_error_iff.mp h
    exact ⟨_, .refused hneeds hdirectory hdescription hanswer, rfl⟩

section Process

variable {file : Path} {runtime : String} {count : Nat}

theorem processFor_provided {process : ProcessModule}
    (h : (settings.emission p).processFor ⟨n, name, file, runtime, count⟩ j = (.ok process, j')) :
    ∃ rs, settings.ProcessProvided p n file runtime j.host rs j'.host ∧
      j'.requests = j.requests ++ rs := by
  rw [Emission.processFor] at h
  dsimp only at h
  rcases hoperator : n.operator with _ | (_ | _ | _ | word) <;> rw [hoperator] at h
  · cases h
  · obtain ⟨-, rfl⟩ := Act.pure_eq_ok_iff.mp h
    exact ⟨[], .script (.inl hoperator), (List.append_nil _).symm⟩
  · obtain ⟨-, rfl⟩ := Act.pure_eq_ok_iff.mp h
    exact ⟨[], .script (.inr hoperator), (List.append_nil _).symm⟩
  · simp only [Emission.notebookProcess, Act.bind_eq_ok_iff, Journal.ask_eq_ok_iff,
      Journal.kernel_eq_ok_iff, Act.pure_eq_ok_iff] at h
    obtain ⟨family, _, ⟨hfamily, rfl⟩, kernel, _, ⟨h', hanswer, rfl⟩, -, rfl⟩ := h
    obtain ⟨language, hlanguage, hfamily⟩ := StepSource.family_eq_ok hfamily
    exact ⟨_, .notebook hoperator hlanguage hfamily hanswer, rfl⟩
  · cases h

theorem processFor_wanting
    (h : (settings.emission p).processFor ⟨n, name, file, runtime, count⟩ j = (.error e, j')) :
    ∃ rs, settings.ProcessWanting p n name file runtime j.host rs e j'.host ∧
      j'.requests = j.requests ++ rs := by
  rw [Emission.processFor] at h
  dsimp only at h
  rcases hoperator : n.operator with _ | (_ | _ | _ | word) <;> rw [hoperator] at h
  · cases h
    exact ⟨[], .unsupported (.inl hoperator) _, (List.append_nil _).symm⟩
  · exact absurd h Act.pure_ne_error
  · exact absurd h Act.pure_ne_error
  · obtain hunknown | ⟨family, j₁, hasked, hkernel⟩ := Act.bind_eq_error_iff.mp h
    · obtain ⟨hunknown, rfl⟩ := Journal.ask_eq_error_iff.mp hunknown
      obtain hread | ⟨language, hread, hfamily⟩ := bind_eq_error_iff.mp hunknown
      · obtain ⟨e', hlanguage, rfl⟩ := mapError_eq_error_iff.mp hread
        exact ⟨[], .speechless hoperator (.inl ⟨e', hlanguage⟩) _, (List.append_nil _).symm⟩
      · obtain ⟨e', hstranger, rfl⟩ := mapError_eq_error_iff.mp hfamily
        exact ⟨[], .speechless hoperator
          (.inr ⟨language, mapError_eq_ok_iff.mp hread, e', hstranger⟩) _,
          (List.append_nil _).symm⟩
    obtain ⟨hfamily, rfl⟩ := Journal.ask_eq_ok_iff.mp hasked
    obtain ⟨language, hlanguage, hfamily⟩ := StepSource.family_eq_ok hfamily
    obtain hrefused | ⟨kernel, j₂, -, hmade⟩ := Act.bind_eq_error_iff.mp hkernel
    · obtain ⟨h', hanswer, rfl⟩ := Journal.kernel_eq_error_iff.mp hrefused
      exact ⟨_, .refused hoperator hlanguage hfamily hanswer, rfl⟩
    · exact absurd hmade Act.pure_ne_error
  · cases h
    exact ⟨[], .unsupported (.inr ⟨word, hoperator⟩) _, (List.append_nil _).symm⟩

end Process

/-! ## Steps -/

/-- A step has been dealt with: its environment and its process have been provided, in that order,
and its module has been written. -/
structure StepServed (settings : GenerationSettings) (p : Provisioners) (s : EmittedStep)
    (h : Host) (rs : List Request) (h' : Host) : Prop where
  name_eq : StepName.of s.node = .ok s.name
  filename_eq : settings.sourcePath s.node = .ok s.filename
  served : ∃ environments kernels h₁ h₂ d, rs = environments ++ kernels ∧
    settings.RuntimeProvided p s.node s.name h environments s.runtime h₁ ∧
    settings.ProcessProvided p s.node s.filename s.runtime h₁ kernels h₂ ∧
    h₂.disk.writeText (settings.modulePath s.name) s.process.render = .ok d ∧
    h' = { h₂ with disk := d }

/-- Steps have been dealt with one after the other. -/
inductive StepsServed (settings : GenerationSettings) (p : Provisioners) :
    List EmittedStep → Host → List Request → Host → Prop where
  | nil (h : Host) : StepsServed settings p [] h [] h
  | cons {s : EmittedStep} {steps : List EmittedStep} {h h₁ h' : Host} {rs more : List Request}
      (hstep : settings.StepServed p s h rs h₁) (hrest : StepsServed settings p steps h₁ more h') :
      StepsServed settings p (s :: steps) h (rs ++ more) h'

/-- Dealing with a step has failed, with what it has asked until then. -/
inductive StepStopped (settings : GenerationSettings) (p : Provisioners) (g : Graph) (n : Node)
    (h : Host) : List Request → Error → Host → Prop where
  | name {e : Error} (hname : StepName.of n = .error e) : StepStopped settings p g n h [] e h
  | file {e : Error} (hfile : settings.sourcePath n = .error e) :
      StepStopped settings p g n h [] e h
  | runtime {name : StepName} {rs : List Request} {e : Error} {h' : Host}
      (hname : StepName.of n = .ok name) (hfile : ∃ file, settings.sourcePath n = .ok file)
      (hwanting : settings.RuntimeWanting p n name h rs e h') : StepStopped settings p g n h rs e h'
  | bindings {name : StepName} {handled : Handled} {rs : List Request} {runtime : String}
      {e : Error} {h' : Host} (hname : StepName.of n = .ok name)
      (hfile : ∃ file, settings.sourcePath n = .ok file)
      (hruntime : settings.RuntimeProvided p n name h rs runtime h')
      (hbindings : g.bindStep settings.policy handled n name = .error e) :
      StepStopped settings p g n h rs e h'
  | process {name : StepName} {file : Path} {rs more : List Request} {runtime : String} {e : Error}
      {h₁ h' : Host} (hname : StepName.of n = .ok name)
      (hfile : settings.sourcePath n = .ok file)
      (hruntime : settings.RuntimeProvided p n name h rs runtime h₁)
      (hwanting : settings.ProcessWanting p n name file runtime h₁ more e h') :
      StepStopped settings p g n h (rs ++ more) e h'
  | module {name : StepName} {file : Path} {rs more : List Request} {runtime text : String}
      {fault : DiskFault} {h₁ h' : Host} (hname : StepName.of n = .ok name)
      (hfile : settings.sourcePath n = .ok file)
      (hruntime : settings.RuntimeProvided p n name h rs runtime h₁)
      (hprocess : settings.ProcessProvided p n file runtime h₁ more h')
      (hmodule : h'.disk.writeText (settings.modulePath name) text = .error fault) :
      StepStopped settings p g n h (rs ++ more) (.disk fault) h'

theorem StepRun.served {step : EmittedStep} (h : settings.StepRun p g handled n j step j') :
    ∃ rs, settings.StepServed p step j.host rs j'.host ∧ j'.requests = j.requests ++ rs := by
  obtain ⟨j₁, j₂, hruntime, hprocess, hmodule⟩ := h.ran
  obtain ⟨environments, hprovided, henvironments⟩ := runtimeFor_provided hruntime
  obtain ⟨kernels, hmade, hkernels⟩ := processFor_provided hprocess
  obtain ⟨d, hwritten, rfl⟩ := Journal.change_eq_ok_iff.mp hmodule
  obtain rfl := h.node_eq
  refine ⟨environments ++ kernels, ⟨h.name_eq, h.filename_eq, environments, kernels, j₁.host,
    j₂.host, d, rfl, hprovided, hmade, h.modulePath_eq ▸ hwritten, rfl⟩, ?_⟩
  show j₂.requests = _
  rw [hkernels, henvironments, List.append_assoc]

theorem emitStep_stopped (h : settings.emitStep p g handled n j = (.error e, j')) :
    ∃ rs, settings.StepStopped p g n j.host rs e j'.host ∧ j'.requests = j.requests ++ rs := by
  obtain hfailed | ⟨name, _, hsettled, hnamed⟩ := Act.bind_eq_error_iff.mp h
  · obtain ⟨hname, rfl⟩ := Act.settle_eq_error_iff.mp hfailed
    exact ⟨[], .name hname, (List.append_nil _).symm⟩
  obtain ⟨hname, rfl⟩ := Act.settle_eq_ok_iff.mp hsettled
  obtain hfailed | ⟨file, _, hsettled, hlocated⟩ := Act.bind_eq_error_iff.mp hnamed
  · obtain ⟨hfile, rfl⟩ := Act.settle_eq_error_iff.mp hfailed
    exact ⟨[], .file hfile, (List.append_nil _).symm⟩
  obtain ⟨hfile, rfl⟩ := Act.settle_eq_ok_iff.mp hsettled
  obtain hfailed | ⟨runtime, j₁, hran, hfound⟩ := Act.bind_eq_error_iff.mp hlocated
  · obtain ⟨rs, hwanting, hrequests⟩ := runtimeFor_wanting hfailed
    exact ⟨rs, .runtime hname ⟨file, hfile⟩ hwanting, hrequests⟩
  obtain ⟨rs, hruntime, hrequests⟩ := runtimeFor_provided hran
  obtain hfailed | ⟨bindings, _, hsettled, hbound⟩ := Act.bind_eq_error_iff.mp hfound
  · obtain ⟨hbindings, rfl⟩ := Act.settle_eq_error_iff.mp hfailed
    exact ⟨rs, .bindings hname ⟨file, hfile⟩ hruntime hbindings, hrequests⟩
  obtain ⟨-, rfl⟩ := Act.settle_eq_ok_iff.mp hsettled
  obtain hfailed | ⟨process, j₂, hmade, hwriting⟩ := Act.bind_eq_error_iff.mp hbound
  · obtain ⟨more, hwanting, hmore⟩ := processFor_wanting hfailed
    exact ⟨rs ++ more, .process hname hfile hruntime hwanting, by
      rw [hmore, hrequests, List.append_assoc]⟩
  obtain ⟨more, hprocess, hmore⟩ := processFor_provided hmade
  obtain hfailed | ⟨_, j₃, -, hdone⟩ := Act.bind_eq_error_iff.mp hwriting
  · obtain ⟨fault, hmodule, rfl, rfl⟩ := Journal.change_eq_error_iff.mp hfailed
    exact ⟨rs ++ more, .module hname hfile hruntime hprocess hmodule, by
      rw [← List.append_assoc, ← hrequests, ← hmore]⟩
  · exact absurd hdone Act.pure_ne_error

theorem emitSteps_served {nodes : List Node} {steps : List EmittedStep}
    (h : settings.emitSteps p g handled nodes j = (.ok steps, j')) :
    ∃ rs, settings.StepsServed p steps j.host rs j'.host ∧ steps.map EmittedStep.node = nodes ∧
      j'.requests = j.requests ++ rs := by
  induction nodes generalizing handled j steps with
  | nil =>
    obtain ⟨rfl, rfl⟩ := Act.pure_eq_ok_iff.mp h
    exact ⟨[], .nil _, rfl, (List.append_nil _).symm⟩
  | cons n rest ih =>
    obtain ⟨step, others, j₁, rfl, hstep, hothers⟩ := emitSteps_cons_ok h
    obtain ⟨rs, hserved, hrequests⟩ := hstep.served
    obtain ⟨more, hrest, hnodes, hmore⟩ := ih hothers
    refine ⟨rs ++ more, .cons hserved hrest, ?_, ?_⟩
    · rw [List.map_cons, hstep.node_eq, hnodes]
    · rw [hmore, hrequests, List.append_assoc]

/-- When dealing with steps fails, those before some step have been dealt with, and that step has
failed. -/
theorem emitSteps_stopped {nodes : List Node}
    (h : settings.emitSteps p g handled nodes j = (.error e, j')) :
    ∃ done n rest rs more h₁, nodes = done.map EmittedStep.node ++ n :: rest ∧
      settings.StepsServed p done j.host rs h₁ ∧ settings.StepStopped p g n h₁ more e j'.host ∧
      j'.requests = j.requests ++ (rs ++ more) := by
  induction nodes generalizing handled j with
  | nil => exact absurd h Act.pure_ne_error
  | cons n rest ih =>
    obtain h | ⟨step, j₁, hstep, h⟩ := Act.bind_eq_error_iff.mp h
    · obtain ⟨more, hstopped, hmore⟩ := emitStep_stopped h
      exact ⟨[], n, rest, [], more, j.host, rfl, .nil _, hstopped, hmore⟩
    obtain h | ⟨others, j₂, -, h⟩ := Act.bind_eq_error_iff.mp h
    · have hstep := emitStep_ok hstep
      obtain ⟨rs, hserved, hrequests⟩ := hstep.served
      obtain ⟨done, m, rest', rs', more, h₁, hnodes, hdone, hstopped, hmore⟩ := ih h
      refine ⟨step :: done, m, rest', rs ++ rs', more, h₁, ?_, .cons hserved hdone, hstopped, ?_⟩
      · rw [List.map_cons, hstep.node_eq, hnodes]
        rfl
      · rw [hmore, hrequests]
        simp only [List.append_assoc]
    · exact absurd h Act.pure_ne_error

/-! ## The whole -/

/-- Generating has come so far: some steps of the graph of the document have been dealt with, and
others have not. -/
structure Underway (settings : GenerationSettings) (p : Provisioners) (input : Path) (h : Host)
    (g : Graph) (done : List EmittedStep) (todo : List Node) (rs : List Request) (h' : Host) :
    Prop where
  loaded : settings.loadGraph input h.disk = .ok g
  nodes : g.stepNodes = .ok (done.map EmittedStep.node ++ todo)
  served : ∃ d, DiskAct.makeDirectories settings.modulesPath h.disk = (.ok (), d) ∧
    settings.StepsServed p done { h with disk := d } rs h'

/-- Generating has stopped: before the first step, at a step, or over the disk or the skeleton after
the last one. -/
inductive StoppedAsking (settings : GenerationSettings) (p : Provisioners) (input : Path)
    (h : Host) : List Request → Error → Prop where
  | loading {e : Error} (hload : settings.loadGraph input h.disk = .error e) :
      StoppedAsking settings p input h [] e
  | ordering {g : Graph} {e : Error} (hload : settings.loadGraph input h.disk = .ok g)
      (hnodes : g.stepNodes = .error e) : StoppedAsking settings p input h [] e
  | making {fault : DiskFault}
      (hmake : (DiskAct.makeDirectories settings.modulesPath h.disk).1 = .error fault) :
      StoppedAsking settings p input h [] (.disk fault)
  | step {g : Graph} {done : List EmittedStep} {n : Node} {rest : List Node}
      {rs more : List Request} {e : Error} {h₁ h' : Host}
      (hunderway : settings.Underway p input h g done (n :: rest) rs h₁)
      (hstopped : settings.StepStopped p g n h₁ more e h') :
      StoppedAsking settings p input h (rs ++ more) e
  | finishing {g : Graph} {done : List EmittedStep} {rs : List Request} {e : Error} {h' : Host}
      (hunderway : settings.Underway p input h g done [] rs h')
      (he : (∃ fault, e = .disk fault) ∨ ∃ fault, e = .template fault) :
      StoppedAsking settings p input h rs e

/-- Nothing is asked of the provisioners. -/
def KeepsRequests (j j' : Journal) : Prop := j'.requests = j.requests

instance : IsPreorder Journal KeepsRequests where
  refl _ := rfl
  trans _ _ _ h h' := Eq.trans h' h

theorem keepsRequests_files {α : Type} (action : DiskAct α) :
    (Journal.files action).Along KeepsRequests := fun _ => rfl

theorem keepsRequests_writeMain (settings : GenerationSettings) (composition : Composition) :
    (settings.writeMain composition).Along KeepsRequests :=
  .bind (fun _ => rfl) fun _ => .bind (keepsRequests_files _) fun _ => keepsRequests_files _

theorem keepsRequests_keepInput (settings : GenerationSettings) (input : Path) :
    (settings.keepInput input).Along KeepsRequests := by
  refine .bind .get fun k => ?_
  split
  · exact .pure _
  · exact keepsRequests_files _

/-- Finishing the project fails over the disk or over the skeleton. -/
theorem writeMain_fault {composition : Composition}
    (h : settings.writeMain composition j = (.error e, j')) :
    (∃ fault, e = .disk fault) ∨ ∃ fault, e = .template fault := by
  obtain hasked | ⟨skeleton, j₁, -, h⟩ := Act.bind_eq_error_iff.mp h
  · right
    obtain ⟨hskeleton, -⟩ := Journal.ask_eq_error_iff.mp hasked
    obtain hread | ⟨source, -, hparse⟩ := bind_eq_error_iff.mp hskeleton
    · obtain ⟨fault, -, rfl⟩ := mapError_eq_error_iff.mp hread
      exact ⟨_, rfl⟩
    · obtain ⟨fault, -, rfl⟩ := mapError_eq_error_iff.mp hparse
      exact ⟨_, rfl⟩
  · left
    obtain h | ⟨_, j₂, -, h⟩ := Act.bind_eq_error_iff.mp h
    · exact Journal.change_eq_error h
    · exact Journal.change_eq_error h

/-- A run has dealt with all its steps, and what these have asked is what has been asked. -/
theorem Run.underway {input : Path} {steps : List EmittedStep} {report : GenerationReport}
    (hrun : settings.Run p input j g steps report j') :
    ∃ rs h', settings.Underway p input j.host g steps [] rs h' ∧
      j'.requests = j.requests ++ rs := by
  obtain ⟨nodes, j₁, j₂, j₃, hnodes, hmade, hsteps, hmain, hkept⟩ := hrun.ran
  obtain ⟨d, hmake, rfl⟩ := Journal.files_eq_ok_iff.mp hmade
  obtain ⟨rs, hserved, rfl, hrequests⟩ := emitSteps_served hsteps
  have hwritten : j₃.requests = j₂.requests := (keepsRequests_writeMain _ _).of_run hmain
  have hcopied : j'.requests = j₃.requests := (keepsRequests_keepInput _ _).of_run hkept
  refine ⟨rs, j₂.host, ⟨hrun.loaded, by rw [hnodes, List.append_nil], d, hmake, hserved⟩, ?_⟩
  rw [hcopied, hwritten, hrequests]

theorem generate_served {input : Path} {report : GenerationReport}
    (h : settings.generate p input j = (.ok report, j')) : ∃ g steps rs h',
      settings.Underway p input j.host g steps [] rs h' ∧
        report.order = steps.map EmittedStep.name ∧ j'.requests = j.requests ++ rs := by
  obtain ⟨g, steps, hrun⟩ := generate_ok h
  obtain ⟨rs, h', hunderway, hrequests⟩ := hrun.underway
  exact ⟨g, steps, rs, h', hunderway, by rw [hrun.report_eq], hrequests⟩

theorem generate_stopped {input : Path} (h : settings.generate p input j = (.error e, j')) :
    ∃ rs, settings.StoppedAsking p input j.host rs e ∧ j'.requests = j.requests ++ rs := by
  obtain hfailed | ⟨g, j₀, hasked, hloaded⟩ := Act.bind_eq_error_iff.mp h
  · obtain ⟨hload, rfl⟩ := Journal.ask_eq_error_iff.mp hfailed
    exact ⟨[], .loading hload, (List.append_nil _).symm⟩
  obtain ⟨hload, rfl⟩ := Journal.ask_eq_ok_iff.mp hasked
  obtain hfailed | ⟨nodes, j₁, hsettled, hordered⟩ := Act.bind_eq_error_iff.mp hloaded
  · obtain ⟨hnodes, rfl⟩ := Act.settle_eq_error_iff.mp hfailed
    exact ⟨[], .ordering hload hnodes, (List.append_nil _).symm⟩
  obtain ⟨hnodes, rfl⟩ := Act.settle_eq_ok_iff.mp hsettled
  obtain hfailed | ⟨_, j₂, hmade, hplaced⟩ := Act.bind_eq_error_iff.mp hordered
  · obtain ⟨fault, d, hmake, rfl, rfl⟩ := Journal.files_eq_error_iff.mp hfailed
    exact ⟨[], .making (congrArg Prod.fst hmake), (List.append_nil _).symm⟩
  obtain ⟨d, hmake, rfl⟩ := Journal.files_eq_ok_iff.mp hmade
  obtain hfailed | ⟨steps, j₂, hsteps, hemitted⟩ := Act.bind_eq_error_iff.mp hplaced
  · obtain ⟨done, n, rest, rs, more, h₁, rfl, hdone, hstopped, hmore⟩ := emitSteps_stopped hfailed
    exact ⟨rs ++ more, .step ⟨hload, hnodes, d, hmake, hdone⟩ hstopped, hmore⟩
  obtain ⟨rs, hserved, rfl, hrequests⟩ := emitSteps_served hsteps
  have hunderway : settings.Underway p input j₁.host g steps [] rs j₂.host :=
    ⟨hload, by rw [hnodes, List.append_nil], d, hmake, hserved⟩
  obtain hfailed | ⟨_, j₃, hmain, hcomposed⟩ := Act.bind_eq_error_iff.mp hemitted
  · have hwritten : j'.requests = j₂.requests := (keepsRequests_writeMain _ _).of_run hfailed
    exact ⟨rs, .finishing hunderway (writeMain_fault hfailed), hwritten.trans hrequests⟩
  have hwritten : j₃.requests = j₂.requests := (keepsRequests_writeMain _ _).of_run hmain
  obtain hfailed | ⟨_, j₄, -, hdone⟩ := Act.bind_eq_error_iff.mp hcomposed
  · have hcopied : j'.requests = j₃.requests := (keepsRequests_keepInput _ _).of_run hfailed
    exact ⟨rs, .finishing hunderway (.inl (keepInput_error hfailed)), by
      rw [hcopied, hwritten, hrequests]⟩
  · exact absurd hdone Act.pure_ne_error

/-- When generating succeeds, what has been asked is what the steps of the document have asked, step
by step in execution order: an environment first if the step needs one, and then a kernel if it is a
notebook.  When generating fails, what has been asked is that of the steps before the one that has
failed, and then what that one has asked until it failed; a request that has been answered with an
error is the last one, and generating fails with that very error. -/
theorem generate_requests (settings : GenerationSettings) (p : Provisioners) (input : Path)
    (j : Journal) :
    (∀ report j', settings.generate p input j = (.ok report, j') → ∃ g steps rs h,
      settings.Underway p input j.host g steps [] rs h ∧
        report.order = steps.map EmittedStep.name ∧ j'.requests = j.requests ++ rs) ∧
    ∀ e j', settings.generate p input j = (.error e, j') → ∃ rs,
      settings.StoppedAsking p input j.host rs e ∧ j'.requests = j.requests ++ rs :=
  ⟨fun _ _ h => generate_served h, fun _ _ h => generate_stopped h⟩

/-! ### A kernel that is refused -/

/-- Provisioners that make environments and have no kernels. -/
def kernellessProvisioners : Provisioners where
  kernel runtime _ h := (.error (.environmentNotFound runtime), h)
  environment name _ h := (.ok name, h)

/-- A disk with a document of two notebooks, the first of which needs an environment. -/
def kernellessJournal : Journal where
  host := { disk := {
    children := [
      ("doc", .file ("[[[\"\",[" ++
        "[\"b\",\"execution_node\",\"notebook-node\",[null,\"b\",\"\",\"dependencies\"]]," ++
        "[\"c\",\"execution_node\",\"notebook-node\",[null,\"b\",\"e\"]]]]]]").toUTF8 false),
      ("b", .file
        "\x7b\"metadata\":\x7b\"kernelspec\":\x7b\"language\":\"r\"\x7d\x7d\x7d".toUTF8 false)]
    workingDirectory := [] } }

/-- The environment that does not exist, when that is why there is no result. -/
def missingEnvironment? {α : Type} : Except Error α → Option String
  | .error (.environmentNotFound path) => some path
  | .error _ | .ok _ => none

theorem eq_of_missingEnvironment? {α : Type} {result : Except Error α} {path : String}
    (h : missingEnvironment? result = some path) : result = .error (.environmentNotFound path) := by
  unfold missingEnvironment? at h
  split at h <;> cases h
  rfl

theorem generate_kernellessJournal : ∃ j',
    smallSettings.generate kernellessProvisioners "doc" kernellessJournal =
      (.error (.environmentNotFound "bB_env"), j') ∧
    j'.requests = [.environment "bB_env" "out/env/bB_env.yaml", .kernel "bB_env" .python] := by
  have hends : (missingEnvironment?
        (smallSettings.generate kernellessProvisioners "doc" kernellessJournal).1,
      (smallSettings.generate kernellessProvisioners "doc" kernellessJournal).2.requests) =
      (some "bB_env",
        [.environment "bB_env" "out/env/bB_env.yaml", .kernel "bB_env" .python]) := by
    decide +kernel
  rcases hrun : smallSettings.generate kernellessProvisioners "doc" kernellessJournal
    with ⟨result, j'⟩
  rw [hrun] at hends
  obtain ⟨hmissing, hrequests⟩ := Prod.mk.inj hends
  exact ⟨j', by rw [← eq_of_missingEnvironment? hmissing], hrequests⟩

/-- The environment of the first notebook is made, its kernel is refused, and nothing more is
asked. -/
theorem generate_kernellessJournal_requests :
    smallSettings.StoppedAsking kernellessProvisioners "doc" kernellessJournal.host
      [.environment "bB_env" "out/env/bB_env.yaml", .kernel "bB_env" .python]
      (.environmentNotFound "bB_env") := by
  obtain ⟨j', hrun, hrequests⟩ := generate_kernellessJournal
  obtain ⟨rs, hstopped, hrs⟩ :=
    (generate_requests smallSettings kernellessProvisioners "doc" kernellessJournal).2 _ j' hrun
  have hnothing : kernellessJournal.requests = [] := rfl
  rw [hnothing, List.nil_append, hrequests] at hrs
  rwa [hrs]

end GenerationSettings

end Pipewright
