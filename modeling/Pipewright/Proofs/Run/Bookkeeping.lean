import Pipewright.Proofs.Run.Checkpoints

/-!
# Checkpoints over the life of a run

The state of a run changes, is saved in directories and loaded from them, in any order and as often
as one likes.  As long as nothing else is written, a directory keeps the state that has been saved
there last, by whatever path it is named.

* `RunAction`, `Bookkeeping.after`: what is done with the state of a run.
* `Bookkeeping.Keeps`: the state that has been saved last in a directory.
* `saveCheckpoint_changes`: what saving changes on a disk.
* `Bookkeeping.Kept`, `Bookkeeping.Kept.perform`: what every action preserves.
* `Bookkeeping.readsBack_after`: what is loaded after any actions.
* `loadCheckpoint_dotted`: a path that is too long to ask for the file.
-/

namespace Pipewright

open Disk

/-- What is done with the state of a run.  Any state may be taken up, as that of another run. -/
inductive RunAction where
  | takeUp (m : RunMetadata)
  | transition (status : RunStatus) (time : String)
  | fail (status : RunStatus) (message time : String)
  | save (directory : Path)
  | load (directory : Path)

/-- A state that has been saved, with the path of the directory and the place of the file. -/
structure Checkpoint where
  directory : Path
  place : Location
  state : RunMetadata

/-- The state of a run at hand, the host, and what has been saved so far, the last one last. -/
structure Bookkeeping where
  state : RunMetadata
  host : Host
  saved : List Checkpoint := []

/-- An action.  A state that cannot be saved is not, and one that is loaded is taken up. -/
def RunAction.perform : RunAction → Bookkeeping → Bookkeeping
  | takeUp m, b => { b with state := m }
  | transition status time, b => { b with state := b.state.transition status time }
  | fail status message time, b => { b with state := b.state.fail status message time }
  | save directory, b =>
    match saveCheckpoint b.state directory b.host with
    | (.ok file, h) =>
      { b with host := h, saved := b.saved ++ [⟨directory, h.disk.placeOf file, b.state⟩] }
    | (.error _, h) => { b with host := h }
  | load directory, b =>
    match loadCheckpoint directory b.host.disk with
    | .ok (some m) => { b with state := m }
    | _ => b

theorem RunAction.perform_save (directory : Path) (b : Bookkeeping) :
    (save directory).perform b =
      match saveCheckpoint b.state directory b.host with
      | (.ok file, h) =>
        { b with host := h, saved := b.saved ++ [⟨directory, h.disk.placeOf file, b.state⟩] }
      | (.error _, h) => { b with host := h } :=
  (rfl)

theorem RunAction.perform_load (directory : Path) (b : Bookkeeping) :
    (load directory).perform b =
      match loadCheckpoint directory b.host.disk with
      | .ok (some m) => { b with state := m }
      | _ => b :=
  (rfl)

namespace Bookkeeping

/-- Actions one after the other, with nothing saved before. -/
def after (actions : List RunAction) (m : RunMetadata) (h : Host) : Bookkeeping :=
  actions.foldl (fun b a => a.perform b) { state := m, host := h }

/-- The state that has been saved last at a place. -/
def lastAt (b : Bookkeeping) (place : Location) : Option RunMetadata :=
  (b.saved.filter fun c => c.place = place).getLast?.map Checkpoint.state

/-- The state has been saved last in the directory that the path names. -/
def Keeps (b : Bookkeeping) (directory : Path) (m : RunMetadata) : Prop :=
  ∃ place, b.host.disk.Names (directory.join checkpointFile) place ∧ b.lastAt place = some m

/-- What is loaded by the path of a directory, when the disk was that one at the start. -/
structure ReadsBack (start : Disk) (b : Bookkeeping) (directory : Path) : Prop where
  /-- The state that has been saved last is loaded. -/
  saved : ∀ m, b.Keeps directory m → loadCheckpoint directory b.host.disk = .ok (some m)
  /-- By a path that a state has been saved by, some state is kept. -/
  named : ∀ c ∈ b.saved, c.directory = directory → ∃ m, b.Keeps directory m
  /-- Where no state has been saved none is loaded, unless something with the name of the file is
  there: a directory, or the file that was there at the start. -/
  unsaved : (∀ m, ¬ b.Keeps directory m) →
    ∀ there, b.host.disk.tryExists (directory.join checkpointFile) = .ok there →
      loadCheckpoint directory b.host.disk = .ok none ∨
      b.host.disk.isDirectory (directory.join checkpointFile) = true ∨
      ∃ place file, b.host.disk.Names (directory.join checkpointFile) place ∧
        start.file? place = some file ∧ b.host.disk.file? place = some file
  /-- Where it cannot be asked whether there is a file, that is the error. -/
  unknown : ∀ fault, b.host.disk.tryExists (directory.join checkpointFile) = .error fault →
    loadCheckpoint directory b.host.disk = .error (.disk fault)

/-- What holds of the disk whatever has been done: the states that have been saved last are in their
files, the paths that they were saved by lead there, and all other files are as at the start. -/
structure Kept (start : Disk) (b : Bookkeeping) : Prop where
  names : ∀ c ∈ b.saved, b.host.disk.Names (c.directory.join checkpointFile) c.place
  file : ∀ place m, b.lastAt place = some m →
    ∃ executable, b.host.disk.file? place = some (m.toValue.pretty.toUTF8, executable)
  rest : ∀ place, b.lastAt place = none → b.host.disk.file? place = start.file? place

end Bookkeeping

/-! ## Saving on a disk -/

theorem endsInSlash_checkpointFile (directory : Path) :
    (directory.join checkpointFile).endsInSlash = false := by
  rw [Path.join, if_neg (by decide)]
  split
  · exact Path.endsInSlash_append plain_checkpointFile _
  · exact Path.endsInSlash_append plain_checkpointFile _

/-- A state that is saved changes the file that it is saved in, and nothing else.  When it cannot be
saved, no file is changed. -/
theorem saveCheckpoint_changes {m : RunMetadata} {directory : Path} {h h' : Host}
    {result : Except Error Path} (hrun : saveCheckpoint m directory h = (result, h')) :
    (∃ e, result = .error e) ∧ ChangedAt ∅ h.disk h'.disk ∨
      ∃ place executable, result = .ok (directory.join checkpointFile) ∧
        h'.disk.Names (directory.join checkpointFile) place ∧
        ChangedAt {place} h.disk h'.disk ∧
        h'.disk.file? place = some (m.toValue.pretty.toUTF8, executable) := by
  have hmade := DiskAct.changedAt_makeDirectories directory h.disk
  rcases result with e | p
  · refine .inl ⟨⟨e, rfl⟩, ?_⟩
    obtain hfiles | ⟨_, h₁, hfiles, hrest⟩ := Act.bind_eq_error_iff.mp hrun
    · obtain ⟨fault, d, hmake, -, rfl⟩ := Host.files_eq_error_iff.mp hfiles
      rwa [hmake] at hmade
    obtain ⟨d, hmake, rfl⟩ := Host.files_eq_ok_iff.mp hfiles
    rw [hmake] at hmade
    obtain hwrite | ⟨_, h₂, -, hdone⟩ := Act.bind_eq_error_iff.mp hrest
    · obtain ⟨fault, -, -, rfl⟩ := Host.change_eq_error_iff.mp hwrite
      exact hmade
    · exact absurd hdone Act.pure_ne_error
  · obtain ⟨_, h₁, hfiles, hrest⟩ := Act.bind_eq_ok_iff.mp hrun
    obtain ⟨_, h₂, hwrite, hdone⟩ := Act.bind_eq_ok_iff.mp hrest
    obtain ⟨rfl, rfl⟩ := Act.pure_eq_ok_iff.mp hdone
    obtain ⟨d, hmake, rfl⟩ := Host.files_eq_ok_iff.mp hfiles
    rw [hmake] at hmade
    obtain ⟨d', hd', rfl⟩ := Host.change_eq_ok_iff.mp hwrite
    obtain ⟨place, executable, hnames, -, hchanged, hafter⟩ := changedAt_write hd'
    refine .inr ⟨place, executable, rfl, ?_, ?_, file?_eq_some_iff.mpr hafter⟩
    · exact hnames.of_changedAt hchanged (hchanged.notDirectory place rfl) hafter
    · simpa only [Set.empty_union] using hmade.trans hchanged

namespace Bookkeeping

variable {b : Bookkeeping} {start : Disk} {c : Checkpoint} {place : Location} {h' : Host}

/-! ## The last state at a place -/

theorem exists_lastAt (hc : c ∈ b.saved) : ∃ m, b.lastAt c.place = some m := by
  have hmem : c ∈ b.saved.filter fun c' => c'.place = c.place :=
    List.mem_filter.mpr ⟨hc, decide_eq_true rfl⟩
  have hne := List.ne_nil_of_mem hmem
  exact ⟨_, by rw [lastAt, List.getLast?_eq_some_getLast hne, Option.map_some]⟩

/-- A state that is saved becomes the last one at its place. -/
theorem lastAt_append (b : Bookkeeping) (h' : Host) (c : Checkpoint) (place : Location) :
    lastAt { b with host := h', saved := b.saved ++ [c] } place =
      if c.place = place then some c.state else b.lastAt place := by
  rw [lastAt, List.filter_append]
  by_cases hplace : c.place = place
  · rw [if_pos hplace, List.filter_cons_of_pos (by simpa using hplace), List.filter_nil,
      List.getLast?_concat, Option.map_some]
  · rw [if_neg hplace, List.filter_cons_of_neg (by simpa using hplace), List.filter_nil,
      List.append_nil, lastAt]

/-! ## What every action preserves -/

/-- The files of the states that have been saved are there. -/
theorem Kept.exists_file (hb : b.Kept start) (hc : c ∈ b.saved) :
    ∃ bytes executable, b.host.disk.at? c.place = some (.file bytes executable) := by
  obtain ⟨m, hm⟩ := exists_lastAt hc
  obtain ⟨executable, hfile⟩ := hb.file c.place m hm
  exact ⟨_, _, file?_eq_some_iff.mp hfile⟩

/-- The paths that states were saved by lead to their files as long as these are files. -/
theorem Kept.names_of_changedAt (hb : b.Kept start) {places : Set Location}
    (hd : ChangedAt places b.host.disk h'.disk) (hc : c ∈ b.saved) {file : ByteArray × Bool}
    (hfile : h'.disk.file? c.place = some file) :
    h'.disk.Names (c.directory.join checkpointFile) c.place := by
  obtain ⟨bytes, executable, hplace⟩ := hb.exists_file hc
  exact (hb.names c hc).of_changedAt hd (by simp [hplace]) (file?_eq_some_iff.mp hfile)

/-- Where no file is changed all stays kept. -/
theorem Kept.unchanged (hb : b.Kept start) (hd : ChangedAt ∅ b.host.disk h'.disk) :
    Kept start { b with host := h' } where
  names c hc := by
    obtain ⟨m, hm⟩ := exists_lastAt hc
    obtain ⟨executable, hfile⟩ := hb.file c.place m hm
    exact hb.names_of_changedAt hd hc ((hd.file? c.place (Set.notMem_empty _)).trans hfile)
  file place m hm := by
    obtain ⟨executable, hfile⟩ := hb.file place m hm
    exact ⟨executable, (hd.file? place (Set.notMem_empty _)).trans hfile⟩
  rest place hnone := (hd.file? place (Set.notMem_empty _)).trans (hb.rest place hnone)

/-- A state that is saved is kept from then on, in place of the one before. -/
theorem Kept.saved (hb : b.Kept start) (hd : ChangedAt {c.place} b.host.disk h'.disk)
    (hnames : h'.disk.Names (c.directory.join checkpointFile) c.place) {executable : Bool}
    (hfile : h'.disk.file? c.place = some (c.state.toValue.pretty.toUTF8, executable)) :
    Kept start { b with host := h', saved := b.saved ++ [c] } := by
  have hlast : ∀ place m, lastAt { b with host := h', saved := b.saved ++ [c] } place = some m →
      ∃ executable, h'.disk.file? place = some (m.toValue.pretty.toUTF8, executable) := by
    intro place m hm
    rw [lastAt_append] at hm
    split at hm
    · next hplace =>
      obtain rfl := Option.some.inj hm
      exact ⟨executable, hplace ▸ hfile⟩
    · next hplace =>
      obtain ⟨x, hbefore⟩ := hb.file place m hm
      exact ⟨x, (hd.file? place (Ne.symm hplace)).trans hbefore⟩
  refine ⟨fun c' hc' => ?_, hlast, fun place hnone => ?_⟩
  · obtain hold | hnew := List.mem_append.mp hc'
    · obtain ⟨m, hm⟩ := exists_lastAt hc'
      obtain ⟨x, hfile'⟩ := hlast c'.place m hm
      exact hb.names_of_changedAt hd hold hfile'
    · obtain rfl := List.mem_singleton.mp hnew
      exact hnames
  · rw [lastAt_append] at hnone
    split at hnone
    · cases hnone
    · next hplace => exact (hd.file? place (Ne.symm hplace)).trans (hb.rest place hnone)

/-- Each action preserves what is kept. -/
theorem Kept.perform (hb : b.Kept start) (a : RunAction) : (a.perform b).Kept start := by
  cases a with
  | takeUp m => exact ⟨hb.names, hb.file, hb.rest⟩
  | transition status time => exact ⟨hb.names, hb.file, hb.rest⟩
  | fail status message time => exact ⟨hb.names, hb.file, hb.rest⟩
  | load directory =>
    rw [RunAction.perform_load]
    split
    · exact ⟨hb.names, hb.file, hb.rest⟩
    · exact hb
  | save directory =>
    rcases hrun : saveCheckpoint b.state directory b.host with ⟨result, h'⟩
    obtain ⟨⟨e, rfl⟩, hd⟩ | ⟨place, executable, rfl, hnames, hd, hfile⟩ :=
      saveCheckpoint_changes hrun
    · rw [RunAction.perform_save, hrun]
      exact hb.unchanged hd
    · rw [RunAction.perform_save, hrun]
      obtain rfl := hnames.eq_placeOf
      exact hb.saved hd hnames hfile

/-- At the start nothing is kept. -/
theorem kept_start (m : RunMetadata) (h : Host) : Kept h.disk { state := m, host := h } where
  names c hc := absurd hc List.not_mem_nil
  file place m' hm' := by cases hm'
  rest place _ := rfl

/-- What is kept is kept over any actions. -/
theorem kept_after (actions : List RunAction) (m : RunMetadata) (h : Host) :
    (after actions m h).Kept h.disk := by
  rw [after]
  generalize hb : ({ state := m, host := h } : Bookkeeping) = b
  have hkept : b.Kept h.disk := hb ▸ kept_start m h
  clear hb
  induction actions generalizing b with
  | nil => exact hkept
  | cons a actions ih => exact ih (a.perform b) (hkept.perform a)

/-! ## Reading back -/

/-- What is kept is loaded. -/
theorem Kept.readsBack (hb : b.Kept start) (directory : Path) : b.ReadsBack start directory where
  saved m hkeeps := by
    obtain ⟨place, hnames, hlast⟩ := hkeeps
    obtain ⟨executable, hfile⟩ := hb.file place m hlast
    exact loadCheckpoint_of_readText (readText_eq_ok_iff.mpr
      ⟨place, executable, hnames, endsInSlash_checkpointFile directory, hfile⟩)
  named c hc hdirectory := by
    obtain ⟨m, hm⟩ := exists_lastAt hc
    exact ⟨m, c.place, hdirectory ▸ hb.names c hc, hm⟩
  unsaved hnone there hthere := by
    cases there with
    | false =>
      refine .inl (bind_eq_ok_iff.mpr ⟨false, ?_, rfl⟩)
      exact mapError_eq_ok_iff.mpr hthere
    | true =>
      refine .inr ?_
      rw [tryExists] at hthere
      split at hthere
      · next e hentry =>
        obtain ⟨⟨place, f⟩, hfound, hf⟩ := bind_eq_ok_iff.mp hentry
        obtain ⟨hnames, hplace, -⟩ := found_eq_ok_iff.mp hfound
        cases hf
        rcases f with ⟨bytes, executable⟩ | cs
        · have hfile := file?_eq_some_iff.mpr hplace
          have hlast : b.lastAt place = none := Option.eq_none_iff_forall_ne_some.mpr
            fun m hm => hnone m ⟨place, hnames, hm⟩
          exact .inr ⟨place, _, hnames, (hb.rest place hlast).symm.trans hfile, hfile⟩
        · exact .inl (by rw [isDirectory, hentry]; rfl)
      · cases hthere
      · cases hthere
  unknown fault hfault := by
    rw [loadCheckpoint, hfault]
    rfl

/-- After any actions each directory keeps the state that has been saved there last: it is loaded by
whatever path to the directory.  Where none has been saved none is loaded. -/
theorem readsBack_after (actions : List RunAction) (m : RunMetadata) (h : Host)
    (directory : Path) : (after actions m h).ReadsBack h.disk directory :=
  (kept_after actions m h).readsBack directory

end Bookkeeping

/-! ## Paths that are too long -/

/-- The working directory, with slashes behind it. -/
def Path.dotted : Nat → Path
  | 0 => "."
  | n + 1 => dotted n ++ String.singleton '/'

namespace Path

theorem utf8ByteSize_dotted (n : Nat) : (dotted n).utf8ByteSize = n + 1 := by
  induction n with
  | zero => rfl
  | succ n ih =>
    rw [dotted, String.utf8ByteSize_append, ih]
    rfl

theorem mem_toList_dotted {n : Nat} {c : Char} (hc : c ∈ (dotted n).toList) : c = '.' ∨ c = '/' := by
  induction n with
  | zero => exact .inl (List.mem_singleton.mp hc)
  | succ n ih =>
    rw [dotted, String.toList_append, List.mem_append] at hc
    exact hc.elim ih fun hlast => .inr (List.mem_singleton.mp hlast)

/-- However many slashes stand behind it, the only name along the path is the one that stays. -/
theorem names_dotted (n : Nat) : (dotted n).names = ["."] := by
  induction n with
  | zero => rfl
  | succ n ih =>
    have hsplit := Text.pieces_append_singleton_append '/' (dotted n) ""
    rw [String.append_empty] at hsplit
    rw [dotted, names, hsplit, List.filter_append]
    exact (List.append_nil _).trans ih

theorem usable_dotted {n : Nat} (hshort : n + 1 < pathLimit) : (dotted n).Usable where
  noZero hzero := by
    rcases mem_toList_dotted hzero with h | h
    · cases h
    · cases h
  notEmpty hempty := by
    have hsize := utf8ByteSize_dotted n
    rw [String.isEmpty_iff.mp hempty] at hsize
    cases hsize
  short := by
    rw [utf8ByteSize_dotted]
    exact Nat.not_le.mpr hshort

theorem join_dotted (n : Nat) (name : String) (hname : isAbsolute name = false) :
    join (dotted (n + 1)) name = dotted (n + 1) ++ name := by
  have hends : (dotted (n + 1)).endsInSlash = true := by
    rw [endsInSlash, dotted, String.toList_append, String.toList_singleton, List.getLast?_concat]
    rfl
  rw [join, if_neg (by simp [hname]), if_pos (by simp [hends])]

end Path

/-- The working directory can be named by a path that is short enough, though the path of a file in
it is too long. -/
theorem loadCheckpoint_dotted :
    let b := Bookkeeping.after [] default ⟨⟨[], []⟩, []⟩
    b.host.disk.list (Path.dotted 4090) = .ok [] ∧ b.saved = [] ∧
      loadCheckpoint (Path.dotted 4090) b.host.disk = .error (.disk .nameTooLong) := by
  have husable : (Path.dotted 4090).Usable := Path.usable_dotted (by decide)
  have hnames : Names ⟨[], []⟩ (Path.dotted 4090) [] := by
    refine locate_eq_ok_iff.mpr ⟨husable, ?_⟩
    rw [way, Path.names_dotted, ite_self]
    rfl
  have hfound : found ⟨[], []⟩ (Path.dotted 4090) = .ok ([], .directory []) :=
    found_eq_ok_iff.mpr ⟨hnames, rfl, Bool.and_false _⟩
  refine ⟨?_, rfl, ?_⟩
  · show list ⟨[], []⟩ (Path.dotted 4090) = _
    rw [list, entry, hfound]
    rfl
  · have hlocate : locate ⟨[], []⟩ ((Path.dotted 4090).join checkpointFile) =
        .error .nameTooLong := by
      rw [Path.join_dotted 4089 checkpointFile (by decide), locate, if_neg, if_neg, if_pos]
      · rw [String.utf8ByteSize_append, Path.utf8ByteSize_dotted]
        decide
      · simp [checkpointFile]
      · rw [String.toList_append, List.mem_append]
        exact fun hzero => hzero.elim husable.noZero (by decide)
    show loadCheckpoint (Path.dotted 4090) ⟨[], []⟩ = _
    rw [loadCheckpoint, tryExists, entry, found, hlocate]
    rfl

end Pipewright
