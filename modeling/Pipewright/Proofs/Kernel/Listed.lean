import Mathlib.Data.List.Pairwise
import Pipewright.Kernel.Provision
import Pipewright.Proofs.Commands
import Pipewright.Proofs.Json.Gives
import Pipewright.Proofs.Text.Bytes

/-!
# Kernels that are listed

The kernels that are known for an environment are those of a list that a command prints.  A list
that cannot be had counts as an empty one.  Of the kernels on the list those serve an environment
whose program has the path of the environment in its own and the mark of the family, and their names
are given in order.

* `InstalledKernel.Serves`: the kernels that can be used for an environment.
* `InstalledKernel.namesInOrder_parseList`: a list is in the order of the names.
* `InstalledKernel.servingNames`, `InstalledKernel.LeastServing`: the names of those that serve, and
  the one that comes before all others.
* `ToolNames.Lists`: the kernels that are listed on a host.
* `ToolNames.existingKernels_of_lists`: the names that are found.
-/

namespace Pipewright

open Json

/-! ## Lists of kernels -/

namespace InstalledKernel

/-- The path of the program has the path of the environment in it, and the mark of the family. -/
structure Serves (k : InstalledKernel) (runtime : Path) (family : KernelFamily) : Prop where
  runtime : runtime.toList <:+: k.executable.toList
  family : family.interpreterMark.toList <:+: k.executable.toList

theorem serves_iff {k : InstalledKernel} {runtime : Path} {family : KernelFamily} :
    k.serves runtime family = true ↔ k.Serves runtime family := by
  rw [serves, KernelFamily.isInterpreter, Bool.and_eq_true, Text.occursIn_iff, Text.occursIn_iff]
  exact ⟨fun h => ⟨h.1, h.2⟩, fun h => ⟨h.runtime, h.family⟩⟩

/-- The kernels stand in the order of their names, each name once. -/
def NamesInOrder (kernels : List InstalledKernel) : Prop :=
  kernels.Pairwise fun k l => k.name < l.name

/-- A list is read into the order of its names. -/
theorem gives_listDecoder : listDecoder.Gives KeysInOrder := by
  have hdictionary : entryDecoder.dictionary.Gives KeysInOrder := by
    intro depth
    refine .bind fun next => ?_
    split
    · exact .failAtNext _ _
    · refine Reader.gives_inCurly (fun inner => Reader.gives_readMembers ?_ List.Pairwise.nil) _
      exact fun key soFar hsoFar =>
        .bind fun _ => .bind fun entry => .pure (keysInOrder_putKey hsoFar key entry)
    · exact Decoder.gives_wrongKind _ _
  refine Decoder.gives_record rfl ?_ List.Pairwise.nil
  exact List.forall_mem_singleton.mpr (.of_gives hdictionary rfl fun _ hx _ _ => hx)

theorem namesInOrder_parseList {text : String} {kernels : List InstalledKernel}
    (h : parseList text = .ok kernels) : NamesInOrder kernels := by
  rw [parseList] at h
  split at h
  · next entries hentries =>
    obtain rfl := Except.ok.inj h
    have hread : (listDecoder.read Decoder.maxDepth >>= fun entries => do
        Reader.endOfText
        return entries).Gives KeysInOrder :=
      .bind_of (gives_listDecoder _) fun entries h => .bind fun _ => .pure h
    have hkeys : KeysInOrder entries := hread.of_run hentries
    refine List.Pairwise.filterMap ofEntry? (fun m n hmn k hk l hl => ?_) hkeys
    have hname : ∀ {m : String × String × List String} {k : InstalledKernel},
        ofEntry? m = some k → k.name = m.1 := by
      rintro ⟨name, directory, _ | ⟨executable, _⟩⟩ k hk
      · cases hk
      · obtain rfl := Option.some.inj hk
        rfl
    rwa [hname hk, hname hl]
  · cases h

/-- The names of the kernels that serve the environment. -/
def servingNames (kernels : List InstalledKernel) (runtime : Path) (family : KernelFamily) :
    List String :=
  (kernels.filter fun k => k.serves runtime family).map name

section Serving

variable {kernels : List InstalledKernel} {runtime : Path} {family : KernelFamily} {name : String}

theorem mem_servingNames_iff :
    name ∈ servingNames kernels runtime family ↔
      ∃ k ∈ kernels, k.Serves runtime family ∧ k.name = name := by
  rw [servingNames, List.mem_map]
  constructor
  · rintro ⟨k, hk, rfl⟩
    obtain ⟨hmem, hserves⟩ := List.mem_filter.mp hk
    exact ⟨k, hmem, serves_iff.mp hserves, rfl⟩
  · rintro ⟨k, hk, hserves, rfl⟩
    exact ⟨k, List.mem_filter.mpr ⟨hk, serves_iff.mpr hserves⟩, rfl⟩

theorem pairwise_servingNames (horder : NamesInOrder kernels) :
    (servingNames kernels runtime family).Pairwise (· < ·) :=
  List.pairwise_map.mpr (horder.filter _)

/-- The name is that of a kernel that serves the environment, and of the names of such kernels it is
the least in the order of bytes. -/
structure LeastServing (kernels : List InstalledKernel) (runtime : Path) (family : KernelFamily)
    (name : String) : Prop where
  serving : ∃ k ∈ kernels, k.Serves runtime family ∧ k.name = name
  least : ∀ k ∈ kernels, k.Serves runtime family → Text.bytes name ≤ Text.bytes k.name

/-- The least name comes first. -/
theorem leastServing_head {names : List String} (horder : NamesInOrder kernels)
    (hnames : servingNames kernels runtime family = name :: names) :
    LeastServing kernels runtime family name where
  serving := mem_servingNames_iff.mp (hnames ▸ List.mem_cons_self)
  least k hk hserves := by
    have hmem : k.name ∈ servingNames kernels runtime family :=
      mem_servingNames_iff.mpr ⟨k, hk, hserves, rfl⟩
    have hpairwise : (servingNames kernels runtime family).Pairwise (· < ·) :=
      pairwise_servingNames horder
    rw [hnames] at hmem hpairwise
    rw [Text.bytes_le_bytes_iff]
    obtain heq | hrest := List.mem_cons.mp hmem
    · exact le_of_eq heq.symm
    · exact le_of_lt ((List.pairwise_cons.mp hpairwise).1 _ hrest)

theorem LeastServing.unique {other : String} (h : LeastServing kernels runtime family name)
    (hother : LeastServing kernels runtime family other) : name = other := by
  obtain ⟨k, hk, hserves, rfl⟩ := h.serving
  obtain ⟨l, hl, hserves', rfl⟩ := hother.serving
  exact le_antisymm (Text.bytes_le_bytes_iff.mp (h.least l hl hserves'))
    (Text.bytes_le_bytes_iff.mp (hother.least k hk hserves))

end Serving

end InstalledKernel

/-! ## Listing the kernels -/

namespace ToolNames

variable {tools : ToolNames} {runner : CommandRunner} {h h' : Host}
  {kernels : List InstalledKernel}

/-- The kernels that are listed on the first host: those of the list that the command prints, or
none when it fails or prints no such list. -/
inductive Lists (tools : ToolNames) (runner : CommandRunner) (h : Host) :
    List InstalledKernel → Host → Prop where
  | listed {o : CommandOutput} {h' : Host} {kernels : List InstalledKernel}
      (hrun : Host.Succeeds runner tools.listCommand h o h')
      (hparse : InstalledKernel.parseList o.stdout = .ok kernels) : Lists tools runner h kernels h'
  | unreadable {o : CommandOutput} {h' : Host} {e : Error}
      (hrun : Host.Succeeds runner tools.listCommand h o h')
      (hparse : InstalledKernel.parseList o.stdout = .error e) : Lists tools runner h [] h'
  | failed {e : Error} {h' : Host} (hrun : Host.Fails runner tools.listCommand h e h') :
      Lists tools runner h [] h'

theorem exists_lists (tools : ToolNames) (runner : CommandRunner) (h : Host) :
    ∃ kernels h', tools.Lists runner h kernels h' := by
  obtain ⟨o, h', hrun⟩ | ⟨e, h', hrun⟩ := Host.succeeds_or_fails runner tools.listCommand h
  · rcases hparse : InstalledKernel.parseList o.stdout with e | kernels
    · exact ⟨[], h', .unreadable hrun hparse⟩
    · exact ⟨kernels, h', .listed hrun hparse⟩
  · exact ⟨[], h', .failed hrun⟩

/-- To list the kernels takes one command. -/
theorem Lists.commands (hlist : tools.Lists runner h kernels h') :
    h'.commands = h.commands ++ [tools.listCommand] := by
  cases hlist with
  | listed hrun _ => exact hrun.commands
  | unreadable hrun _ => exact hrun.commands
  | failed hrun => exact hrun.commands

theorem Lists.namesInOrder (hlist : tools.Lists runner h kernels h') :
    InstalledKernel.NamesInOrder kernels := by
  cases hlist with
  | listed _ hparse => exact InstalledKernel.namesInOrder_parseList hparse
  | unreadable => exact List.Pairwise.nil
  | failed => exact List.Pairwise.nil

theorem installedKernels_of_lists (hlist : tools.Lists runner h kernels h') :
    tools.installedKernels runner h = (.ok kernels, h') := by
  have hattempt : ∀ {result : Except Error CommandOutput},
      Host.runChecked runner tools.listCommand h = (result, h') →
        Act.attempt (Host.runChecked runner tools.listCommand) h = (.ok result, h') := by
    intro result hrun
    rw [Act.attempt, hrun]
  cases hlist with
  | listed hrun hparse =>
    rw [installedKernels, Act.bind_of_ok (hattempt (Host.runChecked_of_succeeds hrun))]
    simp only [hparse]
    rfl
  | unreadable hrun hparse =>
    rw [installedKernels, Act.bind_of_ok (hattempt (Host.runChecked_of_succeeds hrun))]
    simp only [hparse]
    rfl
  | failed hrun =>
    rw [installedKernels, Act.bind_of_ok (hattempt (Host.runChecked_of_fails hrun))]
    rfl

/-- The names that are found are those of the listed kernels that serve the environment. -/
theorem existingKernels_of_lists (hlist : tools.Lists runner h kernels h') (runtime : Path)
    (family : KernelFamily) :
    tools.existingKernels runner runtime family h =
      (.ok (InstalledKernel.servingNames kernels runtime family), h') := by
  rw [existingKernels, Act.bind_of_ok (installedKernels_of_lists hlist)]
  rfl

end ToolNames

end Pipewright
