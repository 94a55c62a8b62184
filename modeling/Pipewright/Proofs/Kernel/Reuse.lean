import Mathlib.Data.List.TakeWhile
import Pipewright.Proofs.Kernel.Protocol

/-!
# Kernels that are reused

A kernel belongs to an environment when its program lies in the directory of the environment.  The
kernels that are reused are found by less: the path of the environment has to stand somewhere in the
path of the program.  So a program in `/envs/ab`, or in `/mnt/envs/a`, is taken for one in
`/envs/a`.

* `InstalledKernel.Inside`: the program lies in the directory of the environment.
* `InstalledKernel.Inside.serves`: a kernel of the environment is found.
* `ToolNames.existingKernels_inside_iff`: which kernels are found, and when those alone that belong
  to the environment.
-/

namespace Pipewright

/-! ## Programs in a directory -/

namespace InstalledKernel

/-- The path of the program is that of the environment, less the slashes at its end, with a slash
and a further path. -/
def Inside (k : InstalledKernel) (runtime : Path) : Prop :=
  ∃ rest ≠ [], k.executable.toList = (withoutTrailingSlashes runtime).toList ++ '/' :: rest

/-- A text ends with the slashes that are taken off. -/
theorem toList_withoutTrailingSlashes (s : String) :
    ∃ n, s.toList = (withoutTrailingSlashes s).toList ++ List.replicate n '/' := by
  have hslashes := List.eq_replicate_of_mem (a := '/') (l := s.toList.reverse.takeWhile (· = '/'))
    fun c hc => of_decide_eq_true (List.mem_takeWhile_imp (p := fun c => decide (c = '/')) hc)
  refine ⟨(s.toList.reverse.takeWhile (· = '/')).length, ?_⟩
  rw [withoutTrailingSlashes, String.toList_ofList, ← List.reverse_replicate, ← hslashes,
    ← List.reverse_append, List.takeWhile_append_dropWhile, List.reverse_reverse]

/-- A kernel of the environment and of the family is found, unless the path of the environment ends
with two slashes. -/
theorem Inside.serves {k : InstalledKernel} {runtime : Path} {family : KernelFamily}
    (hinside : k.Inside runtime) (hslashes : ¬ "//".toList <:+ runtime.toList)
    (hfamily : family.interpreterMark.toList <:+: k.executable.toList) :
    k.Serves runtime family where
  runtime := by
    obtain ⟨rest, -, hexecutable⟩ := hinside
    refine List.IsPrefix.isInfix ?_
    obtain ⟨n, hruntime⟩ := toList_withoutTrailingSlashes runtime
    rw [hexecutable]
    generalize (withoutTrailingSlashes runtime).toList = lead, runtime.toList = path at *
    rw [hruntime]
    match n with
    | 0 => exact ⟨'/' :: rest, by rw [List.replicate_zero, List.append_nil]⟩
    | 1 => exact ⟨rest, by rw [List.replicate_one, List.append_assoc, List.singleton_append]⟩
    | n + 2 =>
      have hends : "//".toList <:+ path := by
        rw [hruntime, List.replicate_add]
        exact (List.suffix_append _ _).trans (List.suffix_append _ _)
      exact absurd hends hslashes
  family := hfamily

/-- In a list a name tells the kernel. -/
theorem NamesInOrder.eq_of_name {kernels : List InstalledKernel} (horder : NamesInOrder kernels)
    {k l : InstalledKernel} (hk : k ∈ kernels) (hl : l ∈ kernels) (hname : k.name = l.name) :
    k = l := by
  have hnodup : (kernels.map name).Nodup :=
    (List.pairwise_map.mpr horder).imp fun hlt => ne_of_lt hlt
  exact List.inj_on_of_nodup_map hnodup hk hl hname

end InstalledKernel

/-! ## The kernels that are found -/

namespace ToolNames

open InstalledKernel

/-- On every host the names that are found are those of the listed kernels whose program has the
path of the environment, and the mark of the family, somewhere in its own path.  The first of them
is reused.  The kernels of the family in the directory of the environment are among them, and they
are the only ones exactly when no other kernel of the family has the path of the environment in the
path of its program. -/
theorem existingKernels_inside_iff (tools : ToolNames) (runner : CommandRunner) (runtime : Path)
    (family : KernelFamily) (h : Host) :
    ∃ kernels names h', tools.Lists runner h kernels h' ∧
      tools.existingKernels runner runtime family h = (.ok names, h') ∧
      names.Pairwise (· < ·) ∧
      (∀ name, name ∈ names ↔ ∃ k ∈ kernels, k.Serves runtime family ∧ k.name = name) ∧
      (h.disk.exists runtime = true → ∀ name ∈ names.head?,
        tools.provisionKernel runner runtime family h = (.ok name, h')) ∧
      (¬ "//".toList <:+ runtime.toList → ∀ k ∈ kernels, k.Inside runtime →
        family.interpreterMark.toList <:+: k.executable.toList → k.name ∈ names) ∧
      ((∀ name ∈ names, ∃ k ∈ kernels, k.Inside runtime ∧
          family.interpreterMark.toList <:+: k.executable.toList ∧ k.name = name) ↔
        ∀ k ∈ kernels, k.Serves runtime family → k.Inside runtime) := by
  obtain ⟨kernels, h', hlist⟩ := exists_lists tools runner h
  have horder := hlist.namesInOrder
  refine ⟨kernels, servingNames kernels runtime family, h', hlist,
    existingKernels_of_lists hlist runtime family, pairwise_servingNames horder,
    fun name => mem_servingNames_iff, fun hexists name hname => ?_,
    fun hslashes k hk hinside hfamily => ?_, fun hinside k hk hserves => ?_,
    fun hall name hmem => ?_⟩
  · obtain ⟨others, hnames⟩ := List.head?_eq_some_iff.mp hname
    exact provisionKernel_of_leastServing hexists hlist (leastServing_head horder hnames)
  · have hserves : k.Serves runtime family := hinside.serves hslashes hfamily
    exact mem_servingNames_iff.mpr ⟨k, hk, hserves, rfl⟩
  · obtain ⟨l, hl, hlinside, -, hname⟩ :=
      hinside k.name (mem_servingNames_iff.mpr ⟨k, hk, hserves, rfl⟩)
    rwa [horder.eq_of_name hl hk hname] at hlinside
  · obtain ⟨k, hk, hserves, hname⟩ := mem_servingNames_iff.mp hmem
    exact ⟨k, hk, hall k hk hserves, hserves.family, hname⟩

/-- A program of another environment, whose path goes on where that of the environment ends. -/
example : serves ⟨"kernel", "", "/envs/ab/bin/python"⟩ "/envs/a" .python = true := by
  decide +kernel

end ToolNames

end Pipewright
