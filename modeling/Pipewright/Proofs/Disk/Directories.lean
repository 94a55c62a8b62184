import Mathlib.Data.String.Basic
import Pipewright.Proofs.Disk.Outside

/-!
# Directories that could or could not be made

A path to a directory goes by way of directories, each of which a path leads to that is no longer.
So when one of the directories on the way could not be made, nothing in the directory can be read.
A directory that could be made is there afterwards, and one that is there already stays as it is.

* `Path.toList_upTo_sublist`, `Path.Usable.of_sublist`: the paths on the way.
* `Disk.isDirectory_iff`, `Disk.isDirectory_upTo`: directories on the way to a directory.
* `Disk.isDirectory_of_readText_join`, `Disk.isDirectory_parent`: the directory that a text is
  read in.
* `DiskAct.isDirectory_of_makeDirectories_error`: a directory that could not be made.
* `DiskAct.isDirectory_of_makeDirectories`, `DiskAct.makeDirectories_eq_self_iff`: a directory that
  could be made.
-/

namespace Pipewright

theorem Text.utf8ByteSize_le_of_sublist {s t : String} (h : s.toList.Sublist t.toList) :
    s.utf8ByteSize ≤ t.utf8ByteSize := by
  have hlist := String.utf8Len_le_of_sublist h
  rwa [← String.utf8ByteSize_ofList, ← String.utf8ByteSize_ofList, String.ofList_toList,
    String.ofList_toList] at hlist

namespace Path

variable {p : Path}

theorem components_sublist_names (p : Path) : p.components.Sublist p.names := by
  rw [components]
  rcases p.names with _ | ⟨n, rest⟩
  · exact List.Sublist.refl _
  · dsimp only
    split
    · exact .cons _ List.filter_sublist
    · exact .cons_cons _ List.filter_sublist

/-- The path along the first components has no characters but those of the path, in their order. -/
theorem toList_upTo_sublist (p : Path) (n : Nat) : (p.upTo n).toList.Sublist p.toList := by
  have hnames : (p.components.take n).Sublist p.names :=
    (List.take_sublist _ _).trans p.components_sublist_names
  have htext : ∀ t : String, (p.components.take n).Sublist (Text.pieces '/' t) →
      (String.intercalate "/" (p.components.take n)).toList.Sublist t.toList := by
    intro t ht
    rw [← Text.intercalate_pieces '/' t, String.toList_intercalate, String.toList_intercalate]
    exact Text.intercalate_sublist _ (ht.map _)
  rw [upTo, ofComponents, String.toList_append]
  split
  · next habsolute =>
    rw [isAbsolute, decide_eq_true_iff, List.head?_eq_some_iff] at habsolute
    obtain ⟨cs, hcs⟩ := habsolute
    obtain rfl : p = "/" ++ String.ofList cs := String.toList_injective (by simpa using hcs)
    rw [String.toList_append]
    refine (List.Sublist.refl _).append (htext _ (hnames.trans ?_))
    have hsplit := Text.pieces_append_singleton_append '/' "" (String.ofList cs)
    rw [String.empty_append] at hsplit
    show (names (String.singleton '/' ++ String.ofList cs)).Sublist _
    rw [names, hsplit, List.filter_append]
    exact List.filter_sublist
  · exact htext p (hnames.trans List.filter_sublist)

theorem toList_sublist_join {name : String} (hname : Plain name) (directory : Path) :
    directory.toList.Sublist (join directory name).toList := by
  rw [join, if_neg (by simp [isAbsolute_of_noSlash hname.noSlash])]
  split
  · rw [String.toList_append]
    exact List.sublist_append_left _ _
  · rw [String.append_assoc, String.toList_append]
    exact List.sublist_append_left _ _

/-- A path made of characters of one that can be used can be used. -/
theorem Usable.of_sublist {q : Path} (hp : p.Usable) (h : q.toList.Sublist p.toList)
    (hne : q ≠ "") : q.Usable where
  noZero hzero := hp.noZero (h.subset hzero)
  notEmpty hempty := hne (String.isEmpty_iff.mp hempty)
  short hlong := hp.short (hlong.trans (Text.utf8ByteSize_le_of_sublist h))

theorem upTo_ne_empty {n : Nat} (hpos : 0 < n) (hn : n ≤ p.components.length) : p.upTo n ≠ "" := by
  intro hempty
  have hnames := names_upTo p n
  rw [hempty] at hnames
  have hlength : (p.components.take n).length = 0 := congrArg List.length hnames.symm
  rw [List.length_take_of_le hn] at hlength
  exact absurd hlength hpos.ne'

theorem endsInSlash_append {name : String} (hname : Plain name) (s : String) :
    endsInSlash (s ++ name) = false := by
  obtain ⟨cs, c, hc⟩ := List.exists_cons_of_ne_nil fun h : name.toList.reverse = [] =>
    hname.notEmpty (String.toList_injective (List.reverse_eq_nil_iff.mp h))
  have htext : name.toList = c.reverse ++ [cs] := by
    rw [← List.reverse_reverse name.toList, hc, List.reverse_cons]
  rw [endsInSlash, String.toList_append, htext, ← List.append_assoc, List.getLast?_concat,
    decide_eq_false_iff_not]
  rintro hslash
  obtain rfl := Option.some.inj hslash
  exact hname.noSlash (htext ▸ List.mem_append_right _ List.mem_cons_self)

/-- A path of two names is taken from a directory name by name. -/
theorem join_append_slash {directory : Path} {name rest : String} (hname : Plain name)
    (hrest : isAbsolute rest = false) :
    join directory (name ++ "/" ++ rest) = join (join directory name) rest := by
  have hjoin : ∀ s : String, isAbsolute s = false → join directory s =
      if directory.isEmpty || directory.endsInSlash then directory ++ s
      else directory ++ "/" ++ s := by
    intro s hs
    rw [join, if_neg (Bool.eq_false_iff.mp hs)]
  have hname' := isAbsolute_of_noSlash hname.noSlash
  have hrelative : isAbsolute (name ++ "/" ++ rest) = false := by
    have hne : name.toList ≠ [] := fun h => hname.notEmpty (String.toList_injective h)
    rw [isAbsolute, String.append_assoc, String.toList_append, List.head?_append_of_ne_nil _ hne]
    exact hname'
  have hlast : ∀ s : String, join (s ++ name) rest = s ++ name ++ "/" ++ rest := by
    intro s
    have hne : (s ++ name).isEmpty = false := by simp [hname.notEmpty]
    rw [join, hrest, hne, endsInSlash_append hname]
    rfl
  rw [hjoin _ hrelative, hjoin _ hname']
  split
  · rw [hlast]
    simp only [String.append_assoc]
  · rw [hlast]
    simp only [String.append_assoc]

end Path

namespace Disk

variable {d : Disk} {p : Path}

/-- A path that can be used is that of a directory when it leads to one. -/
theorem isDirectory_iff : d.isDirectory p = true ↔ p.Usable ∧ ∃ place, d.Leads p place := by
  constructor
  · intro h
    rw [isDirectory] at h
    split at h
    · next e hentry =>
      rw [entry, bind_eq_ok_iff] at hentry
      obtain ⟨⟨place, f⟩, hfound, hf⟩ := hentry
      cases hf
      obtain ⟨hnames, hplace, -⟩ := found_eq_ok_iff.mp hfound
      obtain ⟨husable, hlead⟩ := locate_eq_ok_iff.mp hnames
      rcases f with ⟨bytes, executable⟩ | cs
      · cases h
      · exact ⟨husable, place, cs, hplace ▸ hlead⟩
    · cases h
  · rintro ⟨husable, place, cs, hlead⟩
    have hplace : d.at? place = some (.directory cs) := (hasPlace_of_lead rfl hlead).entry_eq.symm
    have hnames : d.Names p place := by rw [Names, locate_eq_ok_iff, hplace]; exact ⟨husable, hlead⟩
    have hfound : d.found p = .ok (place, .directory cs) :=
      found_eq_ok_iff.mpr ⟨hnames, hplace, Bool.and_false _⟩
    rw [isDirectory, entry, hfound]
    rfl

/-- The directories on the way to a directory are directories. -/
theorem isDirectory_upTo (h : d.isDirectory p = true) {n : Nat} (hne : p.upTo n ≠ "") :
    d.isDirectory (p.upTo n) = true := by
  obtain ⟨husable, place, hleads⟩ := isDirectory_iff.mp h
  exact isDirectory_iff.mpr ⟨husable.of_sublist (p.toList_upTo_sublist n) hne, _, hleads.upTo n⟩

/-- What a text is taken from when it is read is a directory. -/
theorem isDirectory_of_readText_join {directory : Path} {name text : String}
    (hname : Path.Plain name) (h : d.readText (directory.join name) = .ok text)
    (hne : directory ≠ "") : d.isDirectory directory = true := by
  obtain ⟨place, -, hnames, -, -⟩ := readText_eq_ok_iff.mp h
  obtain ⟨husable, -⟩ := locate_eq_ok_iff.mp hnames
  obtain ⟨above, hleads, -⟩ := hnames.exists_leads hname
  have hsub := Path.toList_sublist_join hname directory
  exact isDirectory_iff.mpr ⟨husable.of_sublist hsub hne, above, hleads⟩

/-- The directory that a text is read in, by the path to the text, is a directory. -/
theorem isDirectory_parent {directory above : Path} {name text : String} (hname : Path.Plain name)
    (h : d.readText (directory.join name) = .ok text)
    (habove : (directory.join name).parent? = some above) (hne : above ≠ "") :
    d.isDirectory above = true := by
  obtain ⟨place, -, hnames, -, -⟩ := readText_eq_ok_iff.mp h
  obtain ⟨husable, -⟩ := locate_eq_ok_iff.mp hnames
  obtain ⟨q, hleads, -⟩ := hnames.exists_leads hname
  have hparent : above = (directory.join name).upTo directory.components.length := by
    rw [Path.parent?, Path.components_join hname, List.length_append] at habove
    simpa using habove.symm
  subst hparent
  refine isDirectory_iff.mpr ⟨husable.of_sublist (Path.toList_upTo_sublist _ _) hne, ?_⟩
  rw [Path.upTo_join hname (Nat.le_refl _)]
  exact ⟨_, hleads.upTo _⟩

/-- A file that can be read can be written. -/
theorem exists_writeText {text : String} (h : d.readText p = .ok text) (text' : String) :
    ∃ d', d.writeText p text' = .ok d' := by
  obtain ⟨place, executable, hnames, hslash, hfile⟩ := readText_eq_ok_iff.mp h
  have hplace := file?_eq_some_iff.mp hfile
  rw [Names, hplace] at hnames
  have hfileAt : d.fileAt p = .ok (place, text.toUTF8, executable) := by
    rw [fileAt, hnames]
    simp only [hslash]
    rfl
  rw [writeText, write, hfileAt]
  exact ⟨_, rfl⟩

end Disk

namespace DiskAct

open Disk

variable {d d' : Disk} {p : Path} {fault : DiskFault}

theorem isDirectory_of_makeOrKeep_error (h : makeOrKeep p d = (.error fault, d')) :
    d'.isDirectory p = false := by
  rw [makeOrKeep] at h
  split at h
  · cases h
  · split at h
    · cases h
    · next hdirectory =>
      cases h
      exact Bool.eq_false_iff.mpr hdirectory

/-- When a directory is not there after what it is in has been made, one of the two has failed. -/
theorem isDirectory_of_makeAfter_error {above : DiskAct Unit}
    (h : makeAfter above p d = (.error fault, d')) :
    above d = (.error fault, d') ∨ d'.isDirectory p = false := by
  rw [makeAfter] at h
  split at h
  · rcases habove : above d with ⟨e | u, d₁⟩
    · rw [Act.bind_of_error habove] at h
      cases h
      exact .inl rfl
    · rw [Act.bind_of_ok habove] at h
      exact .inr (isDirectory_of_makeOrKeep_error h)
  · exact .inr (isDirectory_of_makeOrKeep_error h)

/-- When the directories on the way could not be made, one of them is not there. -/
theorem isDirectory_of_makeUpTo_error {n : Nat} (h : makeUpTo p n d = (.error fault, d')) :
    ∃ k, 0 < k ∧ k ≤ n ∧ d'.isDirectory (p.upTo k) = false := by
  induction n with
  | zero => cases h
  | succ n ih =>
    rcases isDirectory_of_makeAfter_error h with habove | hown
    · obtain ⟨k, hpos, hk, hfalse⟩ := ih habove
      exact ⟨k, hpos, Nat.le_succ_of_le hk, hfalse⟩
    · exact ⟨n + 1, Nat.succ_pos n, Nat.le_refl _, hown⟩

/-- A directory that could not be made is not there. -/
theorem isDirectory_of_makeDirectories_error (h : makeDirectories p d = (.error fault, d')) :
    p ≠ "" ∧ d'.isDirectory p = false := by
  rw [makeDirectories] at h
  split at h
  · cases h
  · next hempty =>
    refine ⟨by simpa using hempty, ?_⟩
    rcases isDirectory_of_makeAfter_error h with habove | hown
    · obtain ⟨k, hpos, hk, hfalse⟩ := isDirectory_of_makeUpTo_error habove
      by_contra hdirectory
      have hne := Path.upTo_ne_empty hpos (hk.trans (Nat.sub_le _ 1))
      rw [isDirectory_upTo (Bool.not_eq_false _ ▸ hdirectory) hne] at hfalse
      cases hfalse
    · exact hown

theorem usable_of_makeOrKeep (h : makeOrKeep p d = (.ok (), d')) : p.Usable := by
  rw [makeOrKeep] at h
  split at h
  · next hmade =>
    obtain ⟨t, hlocate, -⟩ := bind_eq_ok_iff.mp hmade
    exact (locate_eq_ok_iff.mp hlocate).1
  · split at h
    · next hdirectory => exact (isDirectory_iff.mp hdirectory).1
    · cases h

/-- A directory that has been made is there. -/
theorem isDirectory_of_makeDirectories (hp : p ≠ "") (h : makeDirectories p d = (.ok (), d')) :
    d'.isDirectory p = true := by
  refine isDirectory_iff.mpr ⟨?_, leads_of_makeDirectories hp h⟩
  rw [makeDirectories, if_neg (by simpa using hp), makeAfter] at h
  split at h
  · obtain ⟨-, d₁, -, hown⟩ := Act.bind_eq_ok_iff.mp h
    exact usable_of_makeOrKeep hown
  · exact usable_of_makeOrKeep h

/-- Where a directory is nothing has to be made. -/
theorem makeDirectories_of_isDirectory (h : d.isDirectory p = true) :
    makeDirectories p d = (.ok (), d) := by
  obtain ⟨husable, place, cs, hlead⟩ := isDirectory_iff.mp h
  have hmake : d.makeDirectory p = .error .alreadyExists := by
    rw [makeDirectory, locate_eq_ok_iff.mpr ⟨husable, hlead⟩]
    rfl
  rw [makeDirectories, if_neg husable.notEmpty, makeAfter, hmake]
  show makeOrKeep p d = _
  rw [makeOrKeep, hmake]
  exact if_pos h

/-- To make a directory changes nothing exactly when it is there, or is the working directory. -/
theorem makeDirectories_eq_self_iff (h : makeDirectories p d = (.ok (), d')) :
    d' = d ↔ p = "" ∨ d.isDirectory p = true := by
  constructor
  · rintro rfl
    exact (eq_or_ne p "").imp_right fun hp => isDirectory_of_makeDirectories hp h
  · rintro (rfl | hdirectory)
    · cases h
      rfl
    · rw [makeDirectories_of_isDirectory hdirectory] at h
      cases h
      rfl

end DiskAct

end Pipewright
