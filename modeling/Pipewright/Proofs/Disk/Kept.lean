import Mathlib.Order.Defs.Unbundled
import Pipewright.Proofs.Disk.Paths

/-!
# Files that are kept

A directory that a path leads to stays where it is through all changes of files, and so do the
files in it whose places are not among those that change.

* `Disk.Leads.of_changedAt`: a path to a directory leads there after changes.
* `Disk.Keeps`: a file of a directory is kept, wherever a path leads to the directory.
* `Disk.ChangedAt.keeps`: changes elsewhere keep a file.
* `Disk.file?_eq_of_keeps`: a file that is kept is the same before and after.
* `DiskAct.leads_of_makeDirectories`: a path leads to the directory that has been made.
-/

namespace Pipewright

namespace Disk

variable {d d' : Disk} {directory p : Path} {name : String} {place q above : Location}
  {places : Set Location}

/-! ## Directories stay -/

/-- Names that lead to a directory lead to it by way of directories. -/
theorem exists_directory_of_lead_directory {names : List String} {cs : List (String × Entry)}
    (h : d.lead place names = .ok ⟨q, some (.directory cs)⟩) :
    ∃ ds, d.at? place = some (.directory ds) := by
  cases names with
  | nil => exact ⟨cs, congrArg Target.entry (Except.ok.inj h)⟩
  | cons name rest => exact exists_directory_of_lead h

/-- Names lead to a directory on each disk that has the directories on the way. -/
theorem lead_directory_of_directories {names : List String} {cs : List (String × Entry)}
    (hdir : ∀ p cs, d.at? p = some (.directory cs) → ∃ cs', d'.at? p = some (.directory cs'))
    (h : d.lead place names = .ok ⟨q, some (.directory cs)⟩) :
    ∃ cs', d'.lead place names = .ok ⟨q, some (.directory cs')⟩ := by
  induction names generalizing place with
  | nil =>
    obtain ⟨cs', hcs'⟩ := hdir place cs (congrArg Target.entry (Except.ok.inj h))
    obtain rfl : place = q := congrArg Target.place (Except.ok.inj h)
    exact ⟨cs', by rw [lead_nil, hcs']⟩
  | cons name rest ih =>
    obtain ⟨⟨ds, hds⟩, hstep⟩ := lead_cons_eq_ok_iff.mp h
    have hplace := hdir place ds hds
    rcases hstep with ⟨hname, hrest⟩ | ⟨hname, hrest⟩ | ⟨hname, -, hrest⟩ | ⟨-, -, -, htarget⟩
    · obtain ⟨cs', hcs'⟩ := ih hrest
      exact ⟨cs', lead_cons_eq_ok_iff.mpr ⟨hplace, .stay hname hcs'⟩⟩
    · obtain ⟨cs', hcs'⟩ := ih hrest
      exact ⟨cs', lead_cons_eq_ok_iff.mpr ⟨hplace, .back hname hcs'⟩⟩
    · obtain ⟨cs', hcs'⟩ := ih hrest
      obtain ⟨es, hes⟩ := exists_directory_of_lead_directory hrest
      obtain ⟨es', hes'⟩ := hdir _ es hes
      exact ⟨cs', lead_cons_eq_ok_iff.mpr ⟨hplace, .down hname hes' hcs'⟩⟩
    · cases htarget

/-- A path that led to a directory leads there after changes. -/
theorem Leads.of_changedAt (h : d.Leads p above) (hd : ChangedAt places d d') :
    d'.Leads p above := by
  obtain ⟨cs, hcs⟩ := h
  have hway : d'.way p = d.way p := by
    rw [way, way, hd.workingDirectory]
  rw [Leads, hway]
  exact lead_directory_of_directories hd.directory hcs

/-! ## Files that stay as they are -/

/-- Wherever the path leads to, it leads there afterwards, and the file in that directory is the
same. -/
def Keeps (directory : Path) (name : String) (d d' : Disk) : Prop :=
  ∀ above, d.Leads directory above →
    d'.Leads directory above ∧ d'.file? (above ++ [name]) = d.file? (above ++ [name])

instance : IsPreorder Disk (Keeps directory name) where
  refl _ _ h := ⟨h, rfl⟩
  trans _ _ _ hab hbc above h := by
    obtain ⟨hb, hfile⟩ := hab above h
    obtain ⟨hc, hfile'⟩ := hbc above hb
    exact ⟨hc, hfile'.trans hfile⟩

/-- Changes at other places keep a file. -/
theorem ChangedAt.keeps (hd : ChangedAt places d d')
    (h : ∀ above, d.Leads directory above → above ++ [name] ∉ places) :
    Keeps directory name d d' :=
  fun above habove => ⟨habove.of_changedAt hd, hd.file? _ (h above habove)⟩

/-- Where a path leads to a directory before, a file that is kept in it is the same in each
directory that the path leads to before or after. -/
theorem file?_eq_of_keeps (h : Keeps directory name d d') (hled : d.Leads directory place)
    (habove : d.Leads directory above ∨ d'.Leads directory above) :
    d'.file? (above ++ [name]) = d.file? (above ++ [name]) := by
  obtain ⟨hafter, hfile⟩ := h place hled
  rcases habove with habove | habove
  · rwa [habove.eq hled]
  · rwa [habove.eq hafter]

end Disk

/-! ## Directories that have been made -/

namespace DiskAct

open Disk

variable {d d' : Disk} {p : Path}

/-- A path leads to a directory that has been made or is there. -/
theorem leads_of_makeOrKeep (h : makeOrKeep p d = (.ok (), d')) : ∃ place, d'.Leads p place := by
  rw [makeOrKeep] at h
  split at h
  · next d₁ hmade =>
    cases h
    have hchanged := (made_makeDirectory hmade).changedAt
    rw [makeDirectory] at hmade
    obtain ⟨⟨place, e⟩, hlocate, hput⟩ := bind_eq_ok_iff.mp hmade
    have hplace := hasPlace_of_locate hlocate
    rcases e with _ | e
    · cases hput
      refine ⟨place, [], ?_⟩
      have hnone : ∀ cs, d.at? place ≠ some (.directory cs) := by simp [← hplace.entry_eq]
      have hafter := at?_put_append (ne_nil_of_not_directory hnone) hplace.holds (.directory []) []
      rw [List.append_nil, Entry.at?_nil] at hafter
      have hway : (d.put place (.directory [])).way p = d.way p := by
        rw [way, way, hchanged.workingDirectory]
      rw [hway]
      exact lead_of_directories hchanged.directory (locate_eq_ok_iff.mp hlocate).2 (by simp) hafter
    · cases hput
  · split at h
    · next hdirectory =>
      cases h
      rw [isDirectory] at hdirectory
      split at hdirectory
      · next e hentry =>
        rw [entry, bind_eq_ok_iff] at hentry
        obtain ⟨⟨place, f⟩, hfound, hf⟩ := hentry
        cases hf
        obtain ⟨hnames, hplace, -⟩ := found_eq_ok_iff.mp hfound
        rcases f with ⟨bytes, executable⟩ | cs
        · cases hdirectory
        · exact ⟨place, cs, hplace ▸ (locate_eq_ok_iff.mp hnames).2⟩
      · cases hdirectory
    · cases h

theorem leads_of_makeAfter {above : DiskAct Unit} (h : makeAfter above p d = (.ok (), d')) :
    ∃ place, d'.Leads p place := by
  rw [makeAfter] at h
  split at h
  · obtain ⟨-, d₁, -, hown⟩ := Act.bind_eq_ok_iff.mp h
    exact leads_of_makeOrKeep hown
  · exact leads_of_makeOrKeep h

/-- A path leads to the directory that has been made with all that it is in. -/
theorem leads_of_makeDirectories (hp : p ≠ "") (h : makeDirectories p d = (.ok (), d')) :
    ∃ place, d'.Leads p place := by
  rw [makeDirectories, if_neg (by simpa using hp)] at h
  exact leads_of_makeAfter h

end DiskAct

end Pipewright
