import Pipewright.Proofs.Disk.Directories
import Pipewright.Proofs.Failures
import Pipewright.Proofs.Frames
import Pipewright.Proofs.Json.Shapes
import Pipewright.Run.Lifecycle

/-!
# Saving the state of a run

The state of a run that is saved is loaded again, whatever its texts are, for nothing else is
written at that moment.  Once a state has been saved in a directory, each other state could be saved
there too.

* `RunMetadata.parse_pretty`, `loadCheckpoint_of_readText`: the state of a run is read back.
* `readText_of_saveCheckpoint`, `readText_of_saveCheckpoint_error`: saving on a host.
* `Console.Saved`, `Console.Unsaved`: states have been saved, or one could not be saved.
* `Console.save_cases`, `Console.not_unsaved`: saving does one of the two, and not both.
-/

namespace Pipewright

open Json Json.Decoder

/-! ## Reading the state of a run -/

theorem RunStatus.accepts_toText (s : RunStatus) :
    RunStatus.decoder.Accepts 0 (.string s.toText) s := by
  refine accepts_word ?_
  cases s <;> rfl

namespace RunMetadata

theorem accepts_toValue (m : RunMetadata) : decoder.Accepts 1 m.toValue m :=
  accepts_record (by decide)
    (.sets (accepts_text m.id) rfl
    (.sets (accepts_text m.startTime) rfl
    (.sets (accepts_text m.changeTime) rfl
    (.sets m.status.accepts_toText rfl
    (.sets (accepts_text m.errorMessage) rfl
    (.sets (accepts_text m.logMessage) rfl (.nil _)))))))

/-- What is written for the state of a run is read for it. -/
theorem parse_pretty (m : RunMetadata) : parse m.toValue.pretty = .ok m := by
  rw [parse, Decoder.parse_pretty m.accepts_toValue (by decide)]
  rfl

end RunMetadata

/-! ## Loading what has been saved -/

/-- What can be read exists. -/
theorem Disk.tryExists_of_readText {d : Disk} {p : Path} {text : String}
    (h : d.readText p = .ok text) : d.tryExists p = .ok true := by
  obtain ⟨bytes, hbytes, -⟩ := bind_eq_ok_iff.mp h
  obtain ⟨e, hentry, -⟩ := bind_eq_ok_iff.mp hbytes
  rw [tryExists, hentry]

theorem plain_checkpointFile : Path.Plain checkpointFile :=
  ⟨by decide, by decide, by decide, by decide⟩

variable {m : RunMetadata} {directory : Path} {h h' : Host} {d : Disk}

/-- What has been written for the state of a run is loaded. -/
theorem loadCheckpoint_of_readText
    (hread : d.readText (directory.join checkpointFile) = .ok m.toValue.pretty) :
    loadCheckpoint directory d = .ok (some m) := by
  refine bind_eq_ok_iff.mpr ⟨true, mapError_eq_ok_iff.mpr (Disk.tryExists_of_readText hread), ?_⟩
  refine bind_eq_ok_iff.mpr ⟨m.toValue.pretty, mapError_eq_ok_iff.mpr hread, ?_⟩
  exact bind_eq_ok_iff.mpr ⟨m, m.parse_pretty, rfl⟩

/-- What is loaded has been read. -/
theorem exists_readText_of_loadCheckpoint (hload : loadCheckpoint directory d = .ok (some m)) :
    ∃ text, d.readText (directory.join checkpointFile) = .ok text := by
  obtain ⟨there, -, hrest⟩ := bind_eq_ok_iff.mp hload
  cases there with
  | false => cases hrest
  | true =>
    obtain ⟨text, hread, -⟩ := bind_eq_ok_iff.mp hrest
    exact ⟨text, mapError_eq_ok_iff.mp hread⟩

/-- What has been saved can be read. -/
theorem readText_of_saveCheckpoint {p : Path} (hrun : saveCheckpoint m directory h = (.ok p, h')) :
    h'.disk.readText (directory.join checkpointFile) = .ok m.toValue.pretty := by
  obtain ⟨_, h₁, -, hrest⟩ := Act.bind_eq_ok_iff.mp hrun
  obtain ⟨_, h₂, hwrite, hdone⟩ := Act.bind_eq_ok_iff.mp hrest
  obtain ⟨-, rfl⟩ := Act.pure_eq_ok_iff.mp hdone
  obtain ⟨d, hd, rfl⟩ := Host.change_eq_ok_iff.mp hwrite
  exact Disk.readText_writeText hd

/-- When the state of a run could not be saved, the file that keeps it cannot be read. -/
theorem readText_of_saveCheckpoint_error {e : Error}
    (hrun : saveCheckpoint m directory h = (.error e, h')) (text : String) :
    h'.disk.readText (directory.join checkpointFile) ≠ .ok text := by
  intro hread
  obtain hfiles | ⟨_, h₁, -, hrest⟩ := Act.bind_eq_error_iff.mp hrun
  · obtain ⟨fault, d, hmake, -, rfl⟩ := Host.files_eq_error_iff.mp hfiles
    obtain ⟨hne, hnot⟩ := DiskAct.isDirectory_of_makeDirectories_error hmake
    rw [Disk.isDirectory_of_readText_join plain_checkpointFile hread hne] at hnot
    cases hnot
  obtain hwrite | ⟨_, h₂, -, hdone⟩ := Act.bind_eq_error_iff.mp hrest
  · obtain ⟨fault, hfail, -, rfl⟩ := Host.change_eq_error_iff.mp hwrite
    obtain ⟨d, hd⟩ := Disk.exists_writeText hread m.toValue.pretty
    rw [hd] at hfail
    cases hfail
  · exact Act.pure_ne_error hdone

/-! ## Saving on a console -/

namespace Console

variable {c c' c'' : Console} {ms ms' : List RunMetadata}

/-- These states have been saved in the directory one after the other, and the last one is there. -/
structure Saved (directory : Path) (ms : List RunMetadata) (c c' : Console) : Prop where
  checkpoints : c'.checkpoints = c.checkpoints ++ ms
  readText : ∀ m ∈ ms.getLast?,
    c'.host.disk.readText (directory.join checkpointFile) = .ok m.toValue.pretty

/-- A state of a run could not be saved in the directory, with this error. -/
def Unsaved (directory : Path) (e : Error) (c' : Console) : Prop :=
  ∃ m c, save m directory c = (.error e, c')

theorem Saved.append (hfirst : Saved directory ms c c') (hrest : Saved directory ms' c' c'')
    (hne : ms' ≠ []) : Saved directory (ms ++ ms') c c'' where
  checkpoints := by rw [hrest.checkpoints, hfirst.checkpoints, List.append_assoc]
  readText := by
    rw [List.getLast?_append_of_ne_nil _ hne]
    exact hrest.readText

/-- Saving a state ends with that, or with an error. -/
theorem save_cases {result : Except Error Unit} (hrun : save m directory c = (result, c')) :
    result = .ok () ∧ Saved directory [m] c c' ∨
      ∃ e, result = .error e ∧ c'.checkpoints = c.checkpoints ∧ Unsaved directory e c' := by
  rcases result with e | _
  · refine .inr ⟨e, rfl, ?_, m, c, hrun⟩
    obtain hsave | ⟨_, c₁, -, hdone⟩ := Act.bind_eq_error_iff.mp hrun
    · obtain ⟨h₁, -, rfl⟩ := Act.within_eq_iff.mp hsave
      rfl
    · cases hdone
  · obtain ⟨_, c₁, hhost, hdone⟩ := Act.bind_eq_ok_iff.mp hrun
    obtain ⟨h₁, hsave, rfl⟩ := Act.within_eq_iff.mp hhost
    cases hdone
    refine .inl ⟨rfl, rfl, fun m' hm' => ?_⟩
    obtain rfl := Option.some.inj hm'
    exact readText_of_saveCheckpoint hsave

/-- Where a state can be read, it is not the case that one could not be saved. -/
theorem not_unsaved {text : String}
    (hread : c.host.disk.readText (directory.join checkpointFile) = .ok text) (e : Error) :
    ¬ Unsaved directory e c := by
  rintro ⟨m, c₁, hrun⟩
  obtain hhost | ⟨_, c₂, -, hdone⟩ := Act.bind_eq_error_iff.mp hrun
  · obtain ⟨h₁, hsave, rfl⟩ := Act.within_eq_iff.mp hhost
    exact readText_of_saveCheckpoint_error hsave text hread
  · cases hdone

end Console

end Pipewright
