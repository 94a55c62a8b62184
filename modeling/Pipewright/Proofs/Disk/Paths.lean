import Pipewright.Proofs.Disk.Changes
import Pipewright.Proofs.Text.Lines

/-!
# Places below a directory

A path that has been taken from a directory leads through that directory, and a last name that is
not one of the two special ones is the last name of the place.  So two paths taken from the same
directory lead to the same place only when the names behind it are the same, whatever way the
directory is reached by.

* `Path.Plain`: the names that stand for themselves.
* `Path.names_join`, `Path.isAbsolute_join`: a path taken from a directory.
* `Disk.Leads`: a path leads to a directory.
* `Disk.Names.exists_leads`, `Disk.Leads.exists_leads`: the directory on the way to a place.
* `Disk.plain_of_names_join`: a file can only be written under a plain name.
-/

namespace Pipewright

namespace Path

variable {directory : Path} {name : String}

/-! ## Names -/

/-- The name stands for itself: it has no slash in it, and it is not one of those that stay or go
back. -/
structure Plain (name : String) : Prop where
  noSlash : '/' ∉ name.toList
  notEmpty : name ≠ ""
  notStay : name ≠ "."
  notBack : name ≠ ".."

theorem isAbsolute_of_noSlash (h : '/' ∉ name.toList) : isAbsolute name = false := by
  rw [isAbsolute, decide_eq_false_iff_not]
  exact fun hhead => h (List.mem_of_mem_head? hhead)

theorem names_of_noSlash (h : '/' ∉ name.toList) (hne : name ≠ "") : names name = [name] := by
  rw [names, Text.pieces_of_notMem h, List.filter_eq_self]
  simpa using hne

/-- A text that ends in a slash is another text with a slash behind it. -/
theorem exists_of_endsInSlash (h : directory.endsInSlash = true) :
    ∃ s, directory = s ++ String.singleton '/' := by
  rw [endsInSlash, decide_eq_true_iff, List.getLast?_eq_some_iff] at h
  obtain ⟨cs, hcs⟩ := h
  refine ⟨String.ofList cs, String.toList_injective ?_⟩
  simpa using hcs

/-- The names along a path taken from a directory are those along the directory, and the last
one. -/
theorem names_join (h : '/' ∉ name.toList) (hne : name ≠ "") :
    (join directory name).names = directory.names ++ [name] := by
  have hslash : ∀ s : String,
      names (s ++ String.singleton '/' ++ name) = names s ++ [name] := by
    intro s
    rw [names, Text.pieces_append_singleton_append, List.filter_append]
    exact congrArg (names s ++ ·) (names_of_noSlash h hne)
  rw [join, if_neg (by simp [isAbsolute_of_noSlash h])]
  split
  · next hdirectory =>
    rw [Bool.or_eq_true] at hdirectory
    rcases hdirectory with hempty | hends
    · rw [String.isEmpty_iff.mp hempty, String.empty_append, names_of_noSlash h hne]
      rfl
    · obtain ⟨s, rfl⟩ := exists_of_endsInSlash hends
      have hempty : Text.pieces '/' "" = [""] := rfl
      have hsame := Text.pieces_append_singleton_append '/' s ""
      rw [String.append_empty, hempty] at hsame
      rw [hslash, names, names, hsame, List.filter_append]
      simp
  · exact hslash directory

theorem join_ne_empty (h : Plain name) : join directory name ≠ "" := by
  intro hempty
  have hnames := @names_join directory name h.noSlash h.notEmpty
  rw [hempty] at hnames
  exact List.append_ne_nil_of_right_ne_nil _ (List.cons_ne_nil _ _) hnames.symm

/-- A path taken from a directory is absolute when the directory is. -/
theorem isAbsolute_join (h : '/' ∉ name.toList) :
    (join directory name).isAbsolute = directory.isAbsolute := by
  have hname := isAbsolute_of_noSlash h
  rw [join, if_neg (by simp [hname])]
  by_cases hempty : directory = ""
  · rw [if_pos (by simp [hempty]), hempty, String.empty_append, hname]
    rfl
  · have hhead : ∀ s : String, isAbsolute (directory ++ s) = directory.isAbsolute := by
      intro s
      have hne : directory.toList ≠ [] := fun h => hempty (String.toList_injective h)
      rw [isAbsolute, isAbsolute, String.toList_append, List.head?_append_of_ne_nil _ hne]
    split
    · exact hhead name
    · rw [String.append_assoc, hhead]

/-- The empty name is no name of a file. -/
theorem endsInSlash_join_empty (hne : directory ≠ "") : (join directory "").endsInSlash = true := by
  rw [join, if_neg (by decide)]
  split
  · next h => simpa [hne] using h
  · rw [String.append_empty, endsInSlash, String.toList_append]
    simp

end Path

namespace Disk

variable {d : Disk} {directory : Path} {name : String} {place above above' : Location}

/-! ## Ways -/

theorem way_join (h : '/' ∉ name.toList) (hne : name ≠ "") :
    d.way (directory.join name) = d.way directory ++ [name] := by
  rw [way, way, Path.isAbsolute_join h, Path.names_join h hne, List.append_assoc]

/-- The names along the path lead to the directory at the place. -/
def Leads (d : Disk) (p : Path) (place : Location) : Prop :=
  ∃ cs, d.lead [] (d.way p) = .ok ⟨place, some (.directory cs)⟩

theorem Leads.eq {p : Path} (h : d.Leads p above) (h' : d.Leads p above') : above = above' := by
  obtain ⟨cs, hcs⟩ := h
  obtain ⟨ds, hds⟩ := h'
  exact congrArg Target.place (Except.ok.inj (hcs.symm.trans hds))

/-- Names that end in a plain one lead through a directory to the place below it. -/
theorem exists_leads_of_lead {t : Target} (hname : Path.Plain name)
    (h : d.lead [] (d.way (directory.join name)) = .ok t) :
    ∃ above, d.Leads directory above ∧ t.place = above ++ [name] := by
  rw [way_join hname.noSlash hname.notEmpty] at h
  obtain ⟨above, cs, habove, hlast⟩ := lead_concat h
  exact ⟨above, ⟨cs, habove⟩, place_of_lead_singleton hlast hname.notStay hname.notBack⟩

/-- The place of a path taken from a directory is below the directory. -/
theorem Names.exists_leads (h : d.Names (directory.join name) place) (hname : Path.Plain name) :
    ∃ above, d.Leads directory above ∧ place = above ++ [name] :=
  exists_leads_of_lead hname (locate_eq_ok_iff.mp h).2

/-- A directory that a path taken from a directory leads to is below that directory. -/
theorem Leads.exists_leads (h : d.Leads (directory.join name) place) (hname : Path.Plain name) :
    ∃ above, d.Leads directory above ∧ place = above ++ [name] := by
  obtain ⟨cs, hcs⟩ := h
  exact exists_leads_of_lead hname hcs

/-- Where a file can be written, the last name of the path is a plain one. -/
theorem plain_of_names_join (h : d.Names (directory.join name) place)
    (hplace : ∀ cs, d.at? place ≠ some (.directory cs))
    (hends : (directory.join name).endsInSlash = false) (hslash : '/' ∉ name.toList) :
    Path.Plain name := by
  obtain ⟨husable, hlead⟩ := locate_eq_ok_iff.mp h
  have hempty : name ≠ "" := by
    rintro rfl
    by_cases hdirectory : directory = ""
    · rw [hdirectory] at husable
      exact husable.notEmpty rfl
    · rw [Path.endsInSlash_join_empty hdirectory] at hends
      cases hends
  have hspecial : ¬ (name = "." ∨ name = "..") := by
    intro hname
    rw [way_join hslash hempty] at hlead
    obtain ⟨above, cs, -, hlast⟩ := lead_concat hlead
    obtain ⟨ds, hds⟩ := directory_of_lead_singleton hlast hname
    exact hplace ds hds
  rw [not_or] at hspecial
  exact ⟨hslash, hempty, hspecial.1, hspecial.2⟩

end Disk

end Pipewright
