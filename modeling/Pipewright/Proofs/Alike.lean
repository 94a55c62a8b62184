import Pipewright.Proofs.Disk.Outside
import Pipewright.Proofs.Frames

/-!
# Two runs side by side

Two disks are alike outside a directory when the same is seen outside and, below, certain files have
the same bytes on both.  Whatever is done on both disks with the same paths and the same texts keeps
them alike, and a file that is written on both is one more with the same bytes.  What is read from
such files, or from outside, is the same on both.

* `Disk.Alike`: the disks, and `Host.Alike`: the hosts with the commands that have been run.
* `Disk.Alike.makeDirectories`, `Disk.Alike.writeText`, `Disk.Alike.remove`, `Disk.Alike.copyFile`:
  what is done on both disks.
* `Disk.Alike.readText_eq`: what is read.
* `Provisioners.Agree`: provisioners that answer alike on hosts that are alike;
  `Provisioners.Agree.kernel_alike`, `Provisioners.Agree.environment_alike`: asking them.
-/

namespace Pipewright

namespace Disk

variable {base d d' e e' : Disk} {directory p : Path} {written written' : Set Path}

/-- Outside the directory the same is seen on both disks, and the files of the paths that have been
written, all below the directory, are there on both and have the same bytes.  The base is a disk that
tells the places of paths. -/
structure Alike (base : Disk) (directory : Path) (written : Set Path) (d d' : Disk) : Prop where
  workingDirectory : d.workingDirectory = base.workingDirectory
  outside : SameOutside (base.placeOf directory) d d'
  below : ∀ p ∈ written, base.placeOf directory <+: base.placeOf p
  bytes : ∀ p ∈ written, ∃ bytes, d.bytesAt p = some bytes ∧ d'.bytesAt p = some bytes

namespace Alike

section

variable (h : Alike base directory written d d')
include h

theorem placeOf_eq (p : Path) : d.placeOf p = base.placeOf p :=
  placeOf_congr h.workingDirectory p

theorem placeOf_eq' (p : Path) : d'.placeOf p = base.placeOf p :=
  (placeOf_congr h.outside.workingDirectory p).trans (h.placeOf_eq p)

theorem mono (hwritten : written' ⊆ written) : Alike base directory written' d d' :=
  ⟨h.workingDirectory, h.outside, fun p hp => h.below p (hwritten hp),
    fun p hp => h.bytes p (hwritten hp)⟩

/-! ## Reading -/

/-- A text that is read from both disks is the same, be it from outside or from a file that has been
written. -/
theorem readText_eq {text text' : String}
    (hp : p ∈ written ∨ ¬ base.placeOf directory <+: base.placeOf p)
    (hread : d.readText p = .ok text) (hread' : d'.readText p = .ok text') : text' = text := by
  rcases hp with hp | hp
  · obtain ⟨bytes, hbytes, hbytes'⟩ := h.bytes p hp
    rw [bytesAt_of_readText hread] at hbytes
    rw [bytesAt_of_readText hread', ← hbytes] at hbytes'
    exact String.toByteArray_inj.mp (Option.some.inj hbytes')
  · rw [← h.placeOf_eq p] at hp
    exact h.outside.readText_eq hp hread hread'

/-! ## Changing -/

/-- Directories that are made below on both disks keep them alike. -/
theorem makeDirectories (hp : base.placeOf directory <+: base.placeOf p)
    (hrun : DiskAct.makeDirectories p d = (.ok (), e))
    (hrun' : DiskAct.makeDirectories p d' = (.ok (), e')) :
    Alike base directory written e e' := by
  have hmade := DiskAct.changedAt_makeDirectories p d
  have hmade' := DiskAct.changedAt_makeDirectories p d'
  rw [hrun] at hmade
  rw [hrun'] at hmade'
  refine ⟨hmade.workingDirectory.trans h.workingDirectory, ?_, h.below, fun q hq => ?_⟩
  · rw [← h.placeOf_eq p] at hp
    exact DiskAct.sameOutside_of_makeDirectories hp h.outside.workingDirectory
      (fun q hq _ => h.outside.look q hq) hrun hrun'
  · rw [hmade.bytesAt_eq (Set.notMem_empty _), hmade'.bytesAt_eq (Set.notMem_empty _)]
    exact h.bytes q hq

/-- A change at the place of one path below on both disks keeps them alike, but for the file of the
path. -/
theorem of_touched (hp : base.placeOf directory <+: base.placeOf p)
    (hd : Touched {d.placeOf p} d e) (hd' : Touched {d'.placeOf p} d' e') :
    Alike base directory {q ∈ written | base.placeOf q ≠ base.placeOf p} e e' := by
  refine ⟨hd.workingDirectory.trans h.workingDirectory, ?_, fun q hq => h.below q hq.1,
    fun q hq => ?_⟩
  · have hbelow := h.placeOf_eq p ▸ hp
    have hbelow' := h.placeOf_eq' p ▸ hp
    exact h.outside.of_sides (hd.sameOutside_of_path hbelow) (hd'.sameOutside_of_path hbelow')
  · obtain ⟨hq, hne⟩ := hq
    rw [hd.changedAt.bytesAt_eq (by rwa [h.placeOf_eq, h.placeOf_eq]),
      hd'.changedAt.bytesAt_eq (by rwa [h.placeOf_eq', h.placeOf_eq'])]
    exact h.bytes q hq

/-- When the file of the path has the same bytes on both disks afterwards, it is one more of those
that have been written. -/
theorem insert_of_touched (hp : base.placeOf directory <+: base.placeOf p)
    (hd : Touched {d.placeOf p} d e) (hd' : Touched {d'.placeOf p} d' e')
    (hbytes : ∃ bytes, e.bytesAt p = some bytes ∧ e'.bytesAt p = some bytes) :
    Alike base directory (insert p written) e e' := by
  have hothers := h.of_touched hp hd hd'
  refine ⟨hothers.workingDirectory, hothers.outside, ?_, ?_⟩
  · rintro q (rfl | hq)
    · exact hp
    · exact h.below q hq
  · intro q hq
    by_cases hplace : base.placeOf q = base.placeOf p
    · have hsame : e.bytesAt q = e.bytesAt p :=
        bytesAt_congr (by rw [hothers.placeOf_eq, hothers.placeOf_eq, hplace])
      have hsame' : e'.bytesAt q = e'.bytesAt p :=
        bytesAt_congr (by rw [hothers.placeOf_eq', hothers.placeOf_eq', hplace])
      rwa [hsame, hsame']
    · rcases hq with rfl | hq
      · exact absurd rfl hplace
      · exact hothers.bytes q ⟨hq, hplace⟩

/-- A text that is written to a file below on both disks keeps them alike. -/
theorem writeText {text : String} (hp : base.placeOf directory <+: base.placeOf p)
    (hrun : d.writeText p text = .ok e) (hrun' : d'.writeText p text = .ok e') :
    Alike base directory (insert p written) e e' :=
  h.insert_of_touched hp (touched_write hrun) (touched_write hrun')
    ⟨_, bytesAt_of_write hrun, bytesAt_of_write hrun'⟩

/-- A file below that is removed on both disks keeps them alike. -/
theorem remove (hp : base.placeOf directory <+: base.placeOf p) (hrun : d.remove p = .ok e)
    (hrun' : d'.remove p = .ok e') :
    Alike base directory {q ∈ written | base.placeOf q ≠ base.placeOf p} e e' :=
  h.of_touched hp (touched_remove hrun).2 (touched_remove hrun').2

/-- A file from outside that is copied below on both disks keeps them alike. -/
theorem copyFile {source : Path} (hsource : ¬ base.placeOf directory <+: base.placeOf source)
    (hp : base.placeOf directory <+: base.placeOf p) (hrun : d.copyFile source p = .ok e)
    (hrun' : d'.copyFile source p = .ok e') :
    Alike base directory (insert p written) e e' := by
  have hne : base.placeOf source ≠ base.placeOf p := fun heq => hsource (heq ▸ hp)
  have hcopied := bytesAt_of_copyFile hrun (by rwa [h.placeOf_eq, h.placeOf_eq])
  have hcopied' := bytesAt_of_copyFile hrun' (by rwa [h.placeOf_eq', h.placeOf_eq'])
  rw [h.outside.bytesAt_eq (by rwa [h.placeOf_eq])] at hcopied'
  refine h.insert_of_touched hp (touched_copyFile hrun) (touched_copyFile hrun') ?_
  obtain ⟨origin, bytes, executable, place, hnames, -, horigin, -⟩ := copyFile_eq_ok hrun
  have hbytes : d.bytesAt source = some bytes := by
    rw [bytesAt, ← hnames.eq_placeOf, file?_eq_some_iff.mpr horigin]
    rfl
  exact ⟨bytes, hcopied.trans hbytes, hcopied'.trans hbytes⟩

/-- Changes outside that leave the disks alike keep the files that have been written. -/
theorem of_below (hnew : Alike base directory ∅ e e')
    (hd : SameBelow (base.placeOf directory) d e) (hd' : SameBelow (base.placeOf directory) d' e') :
    Alike base directory written e e' := by
  refine ⟨hnew.workingDirectory, hnew.outside, h.below, fun q hq => ?_⟩
  rw [hd.bytesAt_eq (by rw [h.placeOf_eq]; exact h.below q hq),
    hd'.bytesAt_eq (by rw [h.placeOf_eq']; exact h.below q hq)]
  exact h.bytes q hq

end

end Alike

end Disk

/-! ## Provisioners -/

/-- The disks of the hosts are alike, and so are the commands that have been run. -/
structure Host.Alike (base : Disk) (directory : Path) (Commands : List Command → List Command → Prop)
    (written : Set Path) (h h' : Host) : Prop where
  disk : Disk.Alike base directory written h.disk h'.disk
  commands : Commands h.commands h'.commands

/-- The provisioners answer alike on hosts that are alike, when they are asked for a kernel for an
environment outside the directory, or for an environment whose description is the same.  They leave
the hosts alike, and the directory as it is. -/
structure Provisioners.Agree (p p' : Provisioners) (base : Disk) (directory : Path)
    (Commands : List Command → List Command → Prop) : Prop where
  kernel : ∀ {runtime family h h' k k' answer answer'},
    ¬ base.placeOf directory <+: base.placeOf runtime → h.Alike base directory Commands ∅ h' →
    p.kernel runtime family h = (.ok answer, k) → p'.kernel runtime family h' = (.ok answer', k') →
    answer' = answer ∧ k.Alike base directory Commands ∅ k'
  environment : ∀ {name description h h' k k' answer answer'},
    h.Alike base directory Commands {description} h' →
    p.environment name description h = (.ok answer, k) →
    p'.environment name description h' = (.ok answer', k') →
    answer' = answer ∧ k.Alike base directory Commands ∅ k'
  alone : p.Along (Disk.SameBelow (base.placeOf directory))
  alone' : p'.Along (Disk.SameBelow (base.placeOf directory))

namespace Provisioners.Agree

variable {p p' : Provisioners} {base : Disk} {directory : Path}
  {Commands : List Command → List Command → Prop} {written : Set Path} {h h' k k' : Host}

/-- Answers about kernels are the same and keep the hosts alike, with the files that have been
written. -/
theorem kernel_alike (hagree : p.Agree p' base directory Commands) {runtime : Path}
    {family : KernelFamily} {answer answer' : String}
    (hruntime : ¬ base.placeOf directory <+: base.placeOf runtime)
    (halike : h.Alike base directory Commands written h')
    (hrun : p.kernel runtime family h = (.ok answer, k))
    (hrun' : p'.kernel runtime family h' = (.ok answer', k')) :
    answer' = answer ∧ k.Alike base directory Commands written k' := by
  obtain ⟨rfl, hafter⟩ := hagree.kernel hruntime
    ⟨halike.disk.mono (Set.empty_subset written), halike.commands⟩ hrun hrun'
  have hbelow := hagree.alone.kernel runtime family h
  have hbelow' := hagree.alone'.kernel runtime family h'
  rw [hrun] at hbelow
  rw [hrun'] at hbelow'
  exact ⟨rfl, halike.disk.of_below hafter.disk hbelow hbelow', hafter.commands⟩

/-- Answers about environments are the same and keep the hosts alike, when the description is one of
the files that have been written. -/
theorem environment_alike (hagree : p.Agree p' base directory Commands) {name : String}
    {description answer answer' : Path} (hdescription : description ∈ written)
    (halike : h.Alike base directory Commands written h')
    (hrun : p.environment name description h = (.ok answer, k))
    (hrun' : p'.environment name description h' = (.ok answer', k')) :
    answer' = answer ∧ k.Alike base directory Commands written k' := by
  obtain ⟨rfl, hafter⟩ := hagree.environment
    ⟨halike.disk.mono (Set.singleton_subset_iff.mpr hdescription), halike.commands⟩ hrun hrun'
  have hbelow := hagree.alone.environment name description h
  have hbelow' := hagree.alone'.environment name description h'
  rw [hrun] at hbelow
  rw [hrun'] at hbelow'
  exact ⟨rfl, halike.disk.of_below hafter.disk hbelow hbelow', hafter.commands⟩

end Provisioners.Agree

end Pipewright
