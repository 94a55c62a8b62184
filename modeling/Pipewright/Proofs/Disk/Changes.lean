import Pipewright.Disk.Tree
import Pipewright.Proofs.Disk.Looks
import Pipewright.Proofs.Runs

/-!
# What operations leave as it is

Each operation on files changes a disk at one place, which is not that of a directory.  All other
files stay what they are and all directories stay directories, so paths that led to a directory or
to another place lead there afterwards.

* `Disk.ChangedAt`: nothing has changed but at certain places, none of them that of a directory.
* `Disk.Names`: a path leads to a place.
* `Disk.touched_write`, `Disk.touched_remove`, `Disk.touched_copyFile`: what operations change;
  `Disk.changedAt_write`, `Disk.changedAt_remove`, `Disk.changedAt_copyFile`: what they leave.
* `Disk.Made`, `DiskAct.made_makeDirectories`: the directories that are made.
* `Disk.readText_of_changedAt`, `Disk.readText_writeText`: what is read afterwards.
-/

namespace Pipewright

namespace Disk

variable {d d' d'' : Disk} {p : Path} {place q : Location} {places places' : Set Location}

/-- From one disk to the other nothing has changed but at certain places, none of which is that of
a directory.  There may be new directories. -/
structure ChangedAt (places : Set Location) (d d' : Disk) : Prop where
  workingDirectory : d'.workingDirectory = d.workingDirectory
  notDirectory : ∀ q ∈ places, ∀ cs, d.at? q ≠ some (.directory cs)
  directory : ∀ q cs, d.at? q = some (.directory cs) → ∃ cs', d'.at? q = some (.directory cs')
  file? : ∀ q, q ∉ places → d'.file? q = d.file? q

namespace ChangedAt

theorem trans (h : ChangedAt places d d') (h' : ChangedAt places' d' d'') :
    ChangedAt (places ∪ places') d d'' where
  workingDirectory := h'.workingDirectory.trans h.workingDirectory
  notDirectory q hq cs hcs := by
    obtain hq | hq := hq
    · exact h.notDirectory q hq cs hcs
    · obtain ⟨cs', hcs'⟩ := h.directory q cs hcs
      exact h'.notDirectory q hq cs' hcs'
  directory q cs hcs := by
    obtain ⟨cs', hcs'⟩ := h.directory q cs hcs
    exact h'.directory q cs' hcs'
  file? q hq := by
    rw [Set.mem_union, not_or] at hq
    rw [h'.file? q hq.2, h.file? q hq.1]

end ChangedAt

/-- Where nothing else is seen to have changed, nothing else has. -/
theorem Touched.changedAt (h : Touched places d d') : ChangedAt places d d' where
  workingDirectory := h.workingDirectory
  notDirectory q hq := look_ne_directory_iff.mp (h.notDirectory q hq)
  directory q cs hcs := by
    have hlook := look_eq_directory_iff.mpr ⟨cs, hcs⟩
    have hq : q ∉ places := fun hq => h.notDirectory q hq hlook
    exact look_eq_directory_iff.mp ((h.look q hq).trans hlook)
  file? q hq := by rw [file?_eq_join, file?_eq_join, h.look q hq]

/-! ## Files that paths name -/

/-- The path leads to the place. -/
def Names (d : Disk) (p : Path) (place : Location) : Prop :=
  d.locate p = .ok ⟨place, d.at? place⟩

theorem names_of_locate {t : Target} (h : d.locate p = .ok t) : d.Names p t.place := by
  rw [Names, ← (hasPlace_of_locate h).entry_eq]
  exact h

theorem Names.eq (h : d.Names p place) (h' : d.Names p q) : place = q := by
  have htarget := Except.ok.inj (h.symm.trans h')
  exact congrArg Target.place htarget

/-- Where a path leads, if it leads anywhere, is its place. -/
theorem Names.eq_placeOf (h : d.Names p place) : place = d.placeOf p :=
  place_of_locate h

theorem Names.holds (h : d.Names p place) : d.Holds place :=
  (hasPlace_of_locate h).holds

/-- A path that led to a file, or to nothing, leads to the same place after changes that leave
something there. -/
theorem Names.of_changedAt (h : d.Names p place) (hd : ChangedAt places d d')
    (hplace : ∀ cs, d.at? place ≠ some (.directory cs)) {e : Entry}
    (he : d'.at? place = some e) : d'.Names p place := by
  obtain ⟨husable, hlead⟩ := locate_eq_ok_iff.mp h
  have hway : d'.way p = d.way p := by
    rw [way, way, hd.workingDirectory]
  rw [Names, locate_eq_ok_iff, hway, he]
  exact ⟨husable, lead_of_directories hd.directory hlead hplace he⟩

/-- What has been found is at the place that the path leads to. -/
theorem found_eq_ok_iff {e : Entry} :
    d.found p = .ok (place, e) ↔
      d.Names p place ∧ d.at? place = some e ∧ (p.endsInSlash && !e.isDirectory) = false := by
  rw [found, bind_eq_ok_iff]
  constructor
  · rintro ⟨⟨q, f⟩, hlocate, hfound⟩
    have hnames := names_of_locate hlocate
    have hentry := (hasPlace_of_locate hlocate).entry_eq
    rcases f with _ | f
    · cases hfound
    · dsimp only at hfound hentry
      by_cases hslash : (p.endsInSlash && !f.isDirectory) = true
      · rw [if_pos hslash] at hfound
        cases hfound
      · rw [if_neg hslash] at hfound
        cases hfound
        exact ⟨hnames, hentry.symm, Bool.not_eq_true _ ▸ hslash⟩
  · rintro ⟨hnames, he, hslash⟩
    refine ⟨⟨place, some e⟩, he ▸ hnames, ?_⟩
    simp only [hslash]
    rfl

/-- The place where a file can be written is named by the path, and no directory is there. -/
theorem fileAt_eq_ok {before : ByteArray} {executable : Bool}
    (h : d.fileAt p = .ok (place, before, executable)) :
    d.Names p place ∧ p.endsInSlash = false ∧ ∀ cs, d.at? place ≠ some (.directory cs) := by
  rw [fileAt] at h
  obtain ⟨⟨q, f⟩, hlocate, h⟩ := bind_eq_ok_iff.mp h
  have hnames := names_of_locate hlocate
  have hentry := (hasPlace_of_locate hlocate).entry_eq
  by_cases hslash : p.endsInSlash = true
  · rw [if_pos hslash] at h
    cases h
  rw [if_neg hslash] at h
  dsimp only at hentry hnames h
  rcases f with _ | (_ | cs)
  · cases h
    exact ⟨hnames, Bool.not_eq_true _ ▸ hslash, by simp [← hentry]⟩
  · cases h
    exact ⟨hnames, Bool.not_eq_true _ ▸ hslash, by simp [← hentry]⟩
  · cases h

/-! ## Reading -/

theorem fromUTF8?_eq_some_iff {bytes : ByteArray} {text : String} :
    String.fromUTF8? bytes = some text ↔ bytes = text.toUTF8 := by
  rw [String.fromUTF8?]
  constructor
  · intro h
    split at h
    · cases h
      rfl
    · cases h
  · rintro rfl
    exact dif_pos text.isValidUTF8

/-- A text is read when its bytes are in the file that the path leads to. -/
theorem readText_eq_ok_iff {text : String} :
    d.readText p = .ok text ↔ ∃ place executable, d.Names p place ∧ p.endsInSlash = false ∧
      d.file? place = some (text.toUTF8, executable) := by
  rw [readText, bind_eq_ok_iff]
  constructor
  · rintro ⟨bytes, hbytes, htext⟩
    rw [readBytes, bind_eq_ok_iff] at hbytes
    obtain ⟨e, hentry, hbytes⟩ := hbytes
    rw [entry, bind_eq_ok_iff] at hentry
    obtain ⟨⟨place, f⟩, hfound, hf⟩ := hentry
    cases hf
    obtain ⟨hnames, hplace, hslash⟩ := found_eq_ok_iff.mp hfound
    rcases f with ⟨b, executable⟩ | cs
    · obtain rfl : b = bytes := Except.ok.inj hbytes
      rcases hdecode : String.fromUTF8? b with _ | t
      · rw [hdecode] at htext
        cases htext
      · rw [hdecode] at htext
        cases htext
        obtain rfl := fromUTF8?_eq_some_iff.mp hdecode
        refine ⟨place, executable, hnames, ?_, file?_eq_some_iff.mpr hplace⟩
        simpa [Entry.isDirectory] using hslash
    · cases hbytes
  · rintro ⟨place, executable, hnames, hslash, hfile⟩
    have hplace := file?_eq_some_iff.mp hfile
    have hfound : d.found p = .ok (place, .file text.toUTF8 executable) :=
      found_eq_ok_iff.mpr ⟨hnames, hplace, by rw [hslash]; rfl⟩
    refine ⟨text.toUTF8, ?_, ?_⟩
    · rw [readBytes, entry, hfound]
      rfl
    · rw [fromUTF8?_eq_some_iff.mpr rfl]
      rfl

/-- What could be read can be read after changes at other places. -/
theorem readText_of_changedAt {text : String} (hd : ChangedAt places d d')
    (hp : ∀ place, d.Names p place → place ∉ places) (h : d.readText p = .ok text) :
    d'.readText p = .ok text := by
  obtain ⟨place, executable, hnames, hslash, hfile⟩ := readText_eq_ok_iff.mp h
  have hplace := file?_eq_some_iff.mp hfile
  have hfile' : d'.file? place = some (text.toUTF8, executable) := by
    rw [hd.file? place (hp place hnames), hfile]
  have hnames' := hnames.of_changedAt hd (by simp [hplace]) (file?_eq_some_iff.mp hfile')
  exact readText_eq_ok_iff.mpr ⟨place, executable, hnames', hslash, hfile'⟩

/-! ## Writing, removing and copying -/

/-- Writing puts a file at the place that the path leads to. -/
theorem write_eq_ok {bytes : ByteArray} (h : d.write p bytes = .ok d') :
    ∃ place executable, d.Names p place ∧ p.endsInSlash = false ∧
      (∀ cs, d.at? place ≠ some (.directory cs)) ∧ d' = d.put place (.file bytes executable) := by
  rw [write] at h
  obtain ⟨⟨place, before, executable⟩, hfile, h⟩ := bind_eq_ok_iff.mp h
  cases h
  obtain ⟨hnames, hslash, hplace⟩ := fileAt_eq_ok hfile
  exact ⟨place, executable, hnames, hslash, hplace, rfl⟩

/-- What has been put at a place is there. -/
theorem at?_put_self (hplace : ∀ cs, d.at? place ≠ some (.directory cs)) (hholds : d.Holds place)
    (e : Entry) : (d.put place e).at? place = some e := by
  have hafter := at?_put_append (ne_nil_of_not_directory hplace) hholds e []
  rwa [List.append_nil, Entry.at?_nil] at hafter

/-- Writing a file changes the place that the path leads to. -/
theorem changedAt_write {bytes : ByteArray} (h : d.write p bytes = .ok d') :
    ∃ place executable, d.Names p place ∧ p.endsInSlash = false ∧ ChangedAt {place} d d' ∧
      d'.at? place = some (.file bytes executable) := by
  obtain ⟨place, executable, hnames, hslash, hplace, rfl⟩ := write_eq_ok h
  exact ⟨place, executable, hnames, hslash,
    (touched_put_file hplace hnames.holds bytes executable).changedAt,
    at?_put_self hplace hnames.holds _⟩

/-- Writing a file touches the place of the path. -/
theorem touched_write {bytes : ByteArray} (h : d.write p bytes = .ok d') :
    Touched {d.placeOf p} d d' := by
  obtain ⟨place, executable, hnames, -, hplace, rfl⟩ := write_eq_ok h
  rw [← hnames.eq_placeOf]
  exact touched_put_file hplace hnames.holds bytes executable

/-- What has been written is read. -/
theorem readText_writeText {text : String} (h : d.writeText p text = .ok d') :
    d'.readText p = .ok text := by
  obtain ⟨place, executable, hnames, hslash, hd, hafter⟩ := changedAt_write h
  have hnames' := hnames.of_changedAt hd (hd.notDirectory place rfl) hafter
  exact readText_eq_ok_iff.mpr
    ⟨place, executable, hnames', hslash, file?_eq_some_iff.mpr hafter⟩

/-- Removing a file touches the place of the path. -/
theorem touched_remove (h : d.remove p = .ok d') :
    d.Names p (d.placeOf p) ∧ Touched {d.placeOf p} d d' := by
  rw [remove] at h
  obtain ⟨⟨place, e⟩, hfound, h⟩ := bind_eq_ok_iff.mp h
  obtain ⟨hnames, hplace, -⟩ := found_eq_ok_iff.mp hfound
  rcases e with ⟨bytes, executable⟩ | cs
  · cases h
    rw [← hnames.eq_placeOf]
    exact ⟨hnames, touched_alter (by simp [hplace]) hnames.holds (by simp)⟩
  · cases h

/-- Removing a file changes the place that the path leads to. -/
theorem changedAt_remove (h : d.remove p = .ok d') :
    ∃ place, d.Names p place ∧ ChangedAt {place} d d' := by
  obtain ⟨hnames, htouched⟩ := touched_remove h
  exact ⟨_, hnames, htouched.changedAt⟩

/-- Copying a file puts its bytes at the place that the path to copy to leads to, unless it is
copied to itself. -/
theorem copyFile_eq_ok {source target : Path} (h : d.copyFile source target = .ok d') :
    ∃ origin bytes executable place, d.Names source origin ∧ source.endsInSlash = false ∧
      d.at? origin = some (.file bytes executable) ∧ d.Names target place ∧
      target.endsInSlash = false ∧ Touched {place} d d' ∧
      (origin ≠ place → d'.at? place = some (.file bytes executable)) := by
  rw [copyFile] at h
  obtain ⟨⟨origin, e⟩, hfound, h⟩ := bind_eq_ok_iff.mp h
  obtain ⟨hnames, horigin, hends⟩ := found_eq_ok_iff.mp hfound
  rcases e with ⟨bytes, executable⟩ | cs
  · obtain ⟨⟨place, before, x⟩, hfile, h⟩ := bind_eq_ok_iff.mp h
    obtain ⟨hnames', hslash, hplace⟩ := fileAt_eq_ok hfile
    have hempty := touched_put_file hplace hnames'.holds .empty executable
    refine ⟨origin, bytes, executable, place, hnames, by simpa [Entry.isDirectory] using hends,
      horigin, hnames', hslash, ?_⟩
    -- the file to write to is a file already when it is filled
    have hafter := at?_put_self hplace hnames'.holds (.file .empty executable)
    have hfile : ∀ cs, (d.put place (.file .empty executable)).at? place ≠
        some (.directory cs) := by simp [hafter]
    dsimp only at h
    split at h
    · next b x hb =>
      cases h
      have hholds := holds_of_at? hafter
      refine ⟨hempty.trans_self (touched_put_file hfile hholds b executable), fun hne => ?_⟩
      have hsame := hempty.look origin hne
      rw [look_eq_file_iff.mpr hb, look_eq_file_iff.mpr horigin] at hsame
      obtain ⟨rfl, -⟩ := Prod.mk.inj (Option.some.inj (Option.some.inj hsame))
      exact at?_put_self hfile hholds _
    · next hnone =>
      cases h
      refine ⟨hempty, fun hne => ?_⟩
      have hsame := hempty.look origin hne
      rw [look_eq_file_iff.mpr horigin, look_eq_file_iff] at hsame
      exact absurd hsame (hnone _ _)
  · cases h

/-- Copying a file changes the place that the path to copy to leads to. -/
theorem changedAt_copyFile {source target : Path} (h : d.copyFile source target = .ok d') :
    ∃ place, d.Names target place ∧ target.endsInSlash = false ∧ ChangedAt {place} d d' := by
  obtain ⟨origin, bytes, executable, place, -, -, -, hnames, hslash, htouched, -⟩ :=
    copyFile_eq_ok h
  exact ⟨place, hnames, hslash, htouched.changedAt⟩

/-- Copying a file touches the place of the path to copy to. -/
theorem touched_copyFile {source target : Path} (h : d.copyFile source target = .ok d') :
    Touched {d.placeOf target} d d' := by
  obtain ⟨origin, bytes, executable, place, -, -, -, hnames, -, htouched, -⟩ := copyFile_eq_ok h
  rwa [← hnames.eq_placeOf]

/-! ## Making directories -/

/-- From one disk to the other only directories have been made, at the places of certain paths,
where there was nothing. -/
structure Made (paths : Set Path) (d d' : Disk) : Prop where
  workingDirectory : d'.workingDirectory = d.workingDirectory
  look : ∀ q, d'.look q = d.look q ∨
    (∃ p ∈ paths, q = d.placeOf p) ∧ d.look q = none ∧ d'.look q = some none

namespace Made

variable {paths paths' : Set Path}

theorem refl (paths : Set Path) (d : Disk) : Made paths d d where
  workingDirectory := rfl
  look _ := .inl rfl

theorem trans (h : Made paths d d') (h' : Made paths d' d'') : Made paths d d'' where
  workingDirectory := h'.workingDirectory.trans h.workingDirectory
  look q := by
    rcases h'.look q with hq' | ⟨⟨p, hp, hq'⟩, hnone, hmade⟩
    · rw [hq']
      exact h.look q
    · rcases h.look q with hq | ⟨-, -, hmade'⟩
      · rw [placeOf_congr h.workingDirectory] at hq'
        exact .inr ⟨⟨p, hp, hq'⟩, hq ▸ hnone, hmade⟩
      · rw [hmade'] at hnone
        cases hnone

theorem mono (h : Made paths d d') (hpaths : paths ⊆ paths') : Made paths' d d' where
  workingDirectory := h.workingDirectory
  look q := (h.look q).imp_right fun ⟨⟨p, hp, hq⟩, hlook⟩ => ⟨⟨p, hpaths hp, hq⟩, hlook⟩

/-- Making directories changes no files. -/
theorem changedAt (h : Made paths d d') : ChangedAt ∅ d d' where
  workingDirectory := h.workingDirectory
  notDirectory q hq := absurd hq (Set.notMem_empty q)
  directory q cs hcs := by
    have hlook := look_eq_directory_iff.mpr ⟨cs, hcs⟩
    rcases h.look q with hq | ⟨-, hnone, -⟩
    · exact look_eq_directory_iff.mp (hq.trans hlook)
    · rw [hlook] at hnone
      cases hnone
  file? q _ := by
    rw [file?_eq_join, file?_eq_join]
    rcases h.look q with hq | ⟨-, hnone, hmade⟩
    · rw [hq]
    · rw [hnone, hmade]
      rfl

end Made

end Disk

/-- The directories on the way to a path, that in which it starts left out. -/
def Path.above (p : Path) : Set Path :=
  {q | ∃ n, 0 < n ∧ n < p.components.length ∧ q = p.upTo n}

namespace DiskAct

open Disk

theorem made_makeDirectory {d d' : Disk} {p : Path} (h : d.makeDirectory p = .ok d') :
    Made {p} d d' := by
  rw [makeDirectory] at h
  obtain ⟨⟨place, e⟩, hlocate, h⟩ := bind_eq_ok_iff.mp h
  have hplace := hasPlace_of_locate hlocate
  have hpath := place_of_locate hlocate
  rcases e with _ | e
  · cases h
    have hnone : d.at? place = none := hplace.entry_eq.symm
    have hfree : ∀ cs, d.at? place ≠ some (.directory cs) := by simp [hnone]
    refine ⟨by rw [put, alter]; split <;> rfl, fun q => ?_⟩
    by_cases hq : q = place
    · have hmade := at?_put_self hfree hplace.holds (.directory [])
      exact .inr ⟨⟨p, rfl, hq.trans hpath⟩, look_eq_none_iff.mpr (hq ▸ hnone),
        look_eq_directory_iff.mpr ⟨[], hq ▸ hmade⟩⟩
    · exact .inl (look_alter hfree (fun f hf => Option.some.inj hf ▸ rfl) hq)
  · cases h

theorem made_makeOrKeep (p : Path) (d : Disk) : Made {p} d (makeOrKeep p d).2 := by
  rw [makeOrKeep]
  split
  · next h => exact made_makeDirectory h
  · split
    · exact .refl _ d
    · exact .refl _ d

theorem made_makeAfter {above : DiskAct Unit} {p : Path} {paths : Set Path} (hp : p ∈ paths)
    (h : ∀ d, Made paths d (above d).2) (d : Disk) : Made paths d (makeAfter above p d).2 := by
  have hown : ∀ d, Made paths d (makeOrKeep p d).2 := fun d =>
    (made_makeOrKeep p d).mono (Set.singleton_subset_iff.mpr hp)
  rw [makeAfter]
  split
  · have habove := h d
    rcases hrun : above d with ⟨e | u, d'⟩
    · rw [Act.bind_of_error hrun]
      rwa [hrun] at habove
    · rw [Act.bind_of_ok hrun]
      rw [hrun] at habove
      exact habove.trans (hown d')
  · exact hown d

/-- Only the directory itself is made, and those on the way to it. -/
theorem made_makeDirectories (p : Path) (d : Disk) :
    Made (insert p p.above) d (makeDirectories p d).2 := by
  have hupTo : ∀ n < p.components.length, ∀ d, Made (insert p p.above) d (makeUpTo p n d).2 := by
    intro n
    induction n with
    | zero => exact fun _ d => .refl _ d
    | succ n ih =>
      intro hn d
      exact made_makeAfter (.inr ⟨n + 1, Nat.succ_pos n, hn, rfl⟩) (ih (Nat.lt_of_succ_lt hn)) d
  rw [makeDirectories]
  split
  · exact .refl _ d
  · refine made_makeAfter (Set.mem_insert p _) (fun d => ?_) d
    rcases Nat.eq_zero_or_pos p.components.length with hzero | hpos
    · rw [hzero]
      exact .refl _ d
    · exact hupTo _ (Nat.sub_lt hpos Nat.one_pos) d

/-- Making directories leaves all files as they are. -/
theorem changedAt_makeDirectories (p : Path) (d : Disk) :
    ChangedAt ∅ d (makeDirectories p d).2 :=
  (made_makeDirectories p d).changedAt

end DiskAct

end Pipewright
