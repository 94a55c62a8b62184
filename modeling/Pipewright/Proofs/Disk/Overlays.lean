import Pipewright.Proofs.Disk.Copying
import Pipewright.Proofs.Disk.Directories
import Pipewright.Proofs.Keyed

/-!
# Copies that go through

A directory can be copied over another one when no file meets a directory on the way.  Then each
step of the copy goes through, and what the steps do can be told from the disk as it was: what is
below the one directory is put below the other under the same names.  A step never writes at or
below the directory that is copied, nor above it, so the entries that are still to come are what
they were.

* `Disk.AlteredAt`: a change at one place.
* `Disk.Leads.lead_join`, `Disk.Leads.along`: paths taken from a directory that a path leads to.
* `DiskAct.exists_makeDirectories_join`, `Disk.exists_copyFile`: steps that go through.
* `DiskAct.CanCopy`: a directory can be copied over another one.
* `DiskAct.Overlays`: what has been copied so far; `DiskAct.CanCopy.exists_copyLevels`: the copy of
  what is below some names.
* `DiskAct.Copied`, `DiskAct.CanCopy.exists_copyTree`: the whole copy.
-/

namespace Pipewright

namespace Path

variable {name : String}

theorem endsInSlash_join (h : Plain name) (directory : Path) :
    (directory.join name).endsInSlash = false := by
  rw [join, if_neg (by simp [isAbsolute_of_noSlash h.noSlash])]
  split
  · exact endsInSlash_append h directory
  · exact endsInSlash_append h (directory ++ "/")

instance (p : Path) : Decidable p.Usable :=
  decidable_of_iff ('\x00' ∉ p.toList ∧ ¬ p.isEmpty ∧ ¬ Disk.pathLimit ≤ p.utf8ByteSize)
    ⟨fun ⟨hzero, hempty, hshort⟩ => ⟨hzero, hempty, hshort⟩,
      fun h => ⟨h.noZero, h.notEmpty, h.short⟩⟩

/-- A path along names has a byte for each of them. -/
theorem length_le_utf8ByteSize_along {names : List String} (h : ∀ n ∈ names, Plain n)
    (p : Path) : names.length ≤ (p.along names).utf8ByteSize := by
  induction names using List.reverseRecOn with
  | nil => exact Nat.zero_le _
  | append_singleton front name ih =>
    obtain ⟨hfront, hname⟩ := List.forall_mem_append.mp h
    have hname := List.forall_mem_singleton.mp hname
    have hpos : 0 < name.utf8ByteSize := by
      rw [Nat.pos_iff_ne_zero, ne_eq, String.utf8ByteSize_eq_zero_iff]
      exact hname.notEmpty
    have hle := ih hfront
    rw [along_concat, List.length_append, List.length_singleton, join,
      if_neg (by simp [isAbsolute_of_noSlash hname.noSlash])]
    split
    · rw [String.utf8ByteSize_append]
      omega
    · rw [String.utf8ByteSize_append, String.utf8ByteSize_append]
      omega

end Path

namespace Disk

variable {d d' d'' : Disk} {p : Path} {place q : Location} {name : String} {names : List String}

/-! ## A change at one place -/

/-- The disks differ in one change at a place at most, and there in no more than a file or an empty
directory. -/
structure AlteredAt (place : Location) (d d' : Disk) : Prop where
  workingDirectory : d'.workingDirectory = d.workingDirectory
  look : ∀ q, q ≠ place → d'.look q = d.look q
  at? : ∀ q, ¬ place <+: q → ¬ q <+: place → d'.at? q = d.at? q

namespace AlteredAt

theorem refl (place : Location) (d : Disk) : AlteredAt place d d :=
  ⟨rfl, fun _ _ => rfl, fun _ _ _ => rfl⟩

theorem trans (h : AlteredAt place d d') (h' : AlteredAt place d' d'') :
    AlteredAt place d d'' where
  workingDirectory := h'.workingDirectory.trans h.workingDirectory
  look q hq := (h'.look q hq).trans (h.look q hq)
  at? q hq hq' := (h'.at? q hq hq').trans (h.at? q hq hq')

/-- Something with nothing in it has been put where no directory was. -/
theorem put (hfree : ∀ cs, d.at? place ≠ some (.directory cs)) {e : Entry}
    (he : e.children = []) : AlteredAt place d (d.put place e) where
  workingDirectory := by rw [Disk.put, alter]; split <;> rfl
  look q hq := look_alter hfree (fun f hf => Option.some.inj hf ▸ he) hq
  at? q hq hq' := at?_alter_of_not_prefix hq hq' _

end AlteredAt

/-! ## Paths taken from a directory -/

/-- The name can be that of an entry of a directory. -/
structure FileName (name : String) : Prop where
  plain : Path.Plain name
  short : ¬ nameLimit < name.utf8ByteSize

instance (name : String) : Decidable (FileName name) :=
  decidable_of_iff (Path.Plain name ∧ ¬ nameLimit < name.utf8ByteSize)
    ⟨fun ⟨hplain, hshort⟩ => ⟨hplain, hshort⟩, fun h => ⟨h.plain, h.short⟩⟩

theorem FileName.lookedUp (h : FileName name) : LookedUp name :=
  ⟨h.plain.notStay, h.plain.notBack, h.short⟩

/-- A name leads from a directory to the place below it, whether something is there or not. -/
theorem Leads.lead_join (h : d.Leads p place) (hname : FileName name) :
    d.lead [] (d.way (p.join name)) = .ok ⟨place ++ [name], d.at? (place ++ [name])⟩ := by
  obtain ⟨cs, hcs⟩ := h
  have hplace : d.at? place = some (.directory cs) := (hasPlace_of_lead rfl hcs).entry_eq.symm
  rw [way_join hname.plain.noSlash hname.plain.notEmpty, lead_append_of_lead hcs,
    lead_cons_eq_ok_iff]
  refine ⟨⟨cs, hplace⟩, ?_⟩
  rcases hchild : d.at? (place ++ [name]) with _ | e
  · exact .missing hname.lookedUp hchild rfl rfl
  · exact .down hname.lookedUp hchild (by rw [lead_nil, hchild])

theorem Leads.names_join (h : d.Leads p place) (hname : FileName name)
    (husable : (p.join name).Usable) : d.Names (p.join name) (place ++ [name]) :=
  locate_eq_ok_iff.mpr ⟨husable, h.lead_join hname⟩

theorem Leads.join (h : d.Leads p place) (hname : FileName name)
    (hlook : d.look (place ++ [name]) = some none) : d.Leads (p.join name) (place ++ [name]) := by
  obtain ⟨cs, hcs⟩ := look_eq_directory_iff.mp hlook
  exact ⟨cs, by rw [h.lead_join hname, hcs]⟩

/-- Names lead from a directory to a directory below it. -/
theorem Leads.along (h : d.Leads p place) (hnames : ∀ n ∈ names, FileName n)
    (hlook : d.look (place ++ names) = some none) : d.Leads (p.along names) (place ++ names) := by
  induction names generalizing p place with
  | nil =>
    rw [List.append_nil]
    exact h
  | cons n rest ih =>
    obtain ⟨hn, hrest⟩ := List.forall_mem_cons.mp hnames
    rw [List.append_cons] at hlook ⊢
    obtain ⟨cs, hcs⟩ := look_eq_directory_iff.mp hlook
    exact ih (h.join hn (look_eq_directory_iff.mpr (exists_directory_of_at?_append hcs))) hrest
      hlook

theorem Leads.isDirectory (h : d.Leads p place) (husable : p.Usable) : d.isDirectory p = true :=
  isDirectory_iff.mpr ⟨husable, place, h⟩

/-- The entries of a directory that a path leads to are listed. -/
theorem Leads.list (h : d.Leads p place) (husable : p.Usable) {cs : List (String × Entry)}
    (hplace : d.at? place = some (.directory cs)) : d.list p = .ok cs := by
  obtain ⟨ds, hlead⟩ := h
  have hnames : d.Names p place := by
    have hds : some (.directory ds) = d.at? place := (hasPlace_of_lead rfl hlead).entry_eq
    rw [Names, locate_eq_ok_iff, ← hds]
    exact ⟨husable, hlead⟩
  have hfound : d.found p = .ok (place, .directory cs) :=
    found_eq_ok_iff.mpr ⟨hnames, hplace, Bool.and_false _⟩
  rw [Disk.list, entry, hfound]
  rfl

/-! ## Steps that go through -/

/-- A file is copied where no directory is in the way. -/
theorem exists_copyFile {source target : Path} {origin : Location} {bytes : ByteArray}
    {executable : Bool} (hsource : d.Names source origin) (hends : source.endsInSlash = false)
    (horigin : d.at? origin = some (.file bytes executable)) (htarget : d.Names target place)
    (hends' : target.endsInSlash = false) (hfree : d.look place ≠ some none) :
    ∃ d', d.copyFile source target = .ok d' ∧ AlteredAt place d d' := by
  have hfree' := look_ne_directory_iff.mp hfree
  have hfound : d.found source = .ok (origin, .file bytes executable) :=
    found_eq_ok_iff.mpr ⟨hsource, horigin, by rw [hends]; rfl⟩
  obtain ⟨before, x, hfileAt⟩ : ∃ before x, d.fileAt target = .ok (place, before, x) := by
    rw [fileAt, htarget]
    rcases hplace : d.at? place with _ | (_ | cs)
    · exact ⟨_, _, by simp only [hends']; rfl⟩
    · exact ⟨_, _, by simp only [hends']; rfl⟩
    · exact absurd hplace (hfree' cs)
  have hempty := AlteredAt.put hfree' (e := .file .empty executable) rfl
  have hafter := at?_put_self hfree' htarget.holds (.file .empty executable)
  have hfilled : ∀ b, AlteredAt place d
      ((d.put place (.file .empty executable)).put place (.file b executable)) := fun b =>
    hempty.trans (.put (by simp [hafter]) rfl)
  -- what is read when the file to write to has been emptied
  rcases hread : (d.put place (.file .empty executable)).at? origin with _ | (⟨b, x⟩ | cs)
  · exact ⟨_, bind_eq_ok_iff.mpr ⟨_, hfound, bind_eq_ok_iff.mpr ⟨_, hfileAt, by
      simp only [hread]; rfl⟩⟩, hempty⟩
  · exact ⟨_, bind_eq_ok_iff.mpr ⟨_, hfound, bind_eq_ok_iff.mpr ⟨_, hfileAt, by
      simp only [hread]; rfl⟩⟩, hfilled b⟩
  · exact ⟨_, bind_eq_ok_iff.mpr ⟨_, hfound, bind_eq_ok_iff.mpr ⟨_, hfileAt, by
      simp only [hread]; rfl⟩⟩, hempty⟩

end Disk

namespace DiskAct

open Disk

variable {d d' d'' d₀ : Disk} {p source target : Path} {place S T : Location} {name : String}
  {names : List String} {levels : Nat}

/-- A directory is made where no file is in the way. -/
theorem exists_makeDirectories_join (h : d.Leads p place) (hname : FileName name)
    (husable : (p.join name).Usable) (hfree : d.file? (place ++ [name]) = none) :
    ∃ d', makeDirectories (p.join name) d = (.ok (), d') ∧ AlteredAt (place ++ [name]) d d' ∧
      d'.look (place ++ [name]) = some none ∧ (d' = d ∨ d.look (place ++ [name]) = none) := by
  have hnames := h.names_join hname husable
  rcases hthere : d.at? (place ++ [name]) with _ | (⟨bytes, executable⟩ | cs)
  · have hlocate : d.locate (p.join name) = .ok ⟨place ++ [name], none⟩ := hthere ▸ hnames
    have hmake : d.makeDirectory (p.join name) =
        .ok (d.put (place ++ [name]) (.directory [])) := by
      rw [makeDirectory, hlocate]
      rfl
    have hnone : ∀ cs, d.at? (place ++ [name]) ≠ some (.directory cs) := by simp [hthere]
    refine ⟨d.put (place ++ [name]) (.directory []), ?_, .put hnone rfl, ?_,
      .inr (look_eq_none_iff.mpr hthere)⟩
    · rw [makeDirectories, if_neg husable.notEmpty, makeAfter, hmake]
      show makeOrKeep _ _ = _
      rw [makeOrKeep, hmake]
    · exact look_eq_directory_iff.mpr ⟨[], at?_put_self hnone hnames.holds _⟩
  · rw [file?_eq_some_iff.mpr hthere] at hfree
    cases hfree
  · have hlook := look_eq_directory_iff.mpr ⟨cs, hthere⟩
    have hdirectory := (h.join hname hlook).isDirectory husable
    exact ⟨d, makeDirectories_of_isDirectory hdirectory, .refl _ d, hlook, .inl rfl⟩

/-- Actions for all entries go through when each of them does, whatever those before it have
done. -/
theorem exists_forM {α : Type} {f : α → DiskAct Unit} {I : Disk → Prop} {P : α → Disk → Prop}
    {l : List α} (hf : ∀ a ∈ l, ∀ d, I d → ∃ d', f a d = (.ok (), d') ∧ I d' ∧ P a d' ∧
      ∀ b, P b d → P b d') (hI : I d) :
    ∃ d', l.forM f d = (.ok (), d') ∧ I d' ∧ (∀ a ∈ l, P a d') ∧ ∀ b, P b d → P b d' := by
  induction l generalizing d with
  | nil => exact ⟨d, rfl, hI, List.forall_mem_nil _, fun _ h => h⟩
  | cons a rest ih =>
    obtain ⟨ha, hrest⟩ := List.forall_mem_cons.mp hf
    obtain ⟨d₁, hfirst, hI₁, hP, hkeep⟩ := ha d hI
    obtain ⟨d₂, hothers, hI₂, hall, hkeep'⟩ := ih hrest hI₁
    refine ⟨d₂, ?_, hI₂, List.forall_mem_cons.mpr ⟨hkeep' a hP, hall⟩,
      fun b hb => hkeep' b (hkeep b hb)⟩
    show (do f a; rest.forM f : DiskAct Unit) d = _
    rw [Act.bind_of_ok hfirst, hothers]

theorem copyLevels_of_ok {d₁ : Disk} {cs : List (String × Entry)}
    (hmade : makeDirectories target d = (.ok (), d₁)) (hlist : d₁.list source = .ok cs)
    (hentries : cs.forM (copyEntry levels source target) d₁ = (.ok (), d')) :
    copyLevels (levels + 1) source target d = (.ok (), d') := by
  have hasked : ask (fun d => d.list source) d₁ = (.ok cs, d₁) := ask_eq_ok_iff.mpr ⟨hlist, rfl⟩
  rw [copyLevels, Act.bind_of_ok hmade, Act.bind_of_ok hasked]
  exact hentries

/-! ## Directories that can be copied -/

/-- No file below the one place meets a directory below the other. -/
def NoClash (S T : Location) (d : Disk) : Prop :=
  ∀ names, d.look (S ++ names) ≠ none → d.look (T ++ names) ≠ none →
    (d.look (S ++ names) = some none ↔ d.look (T ++ names) = some none)

/-- A directory can be copied over another one.  Both are there, and the other one is not within it.
The names below it are those of files, each of one entry, and the paths along them can be used.  No
file meets a directory. -/
structure CanCopy (source target : Path) (d : Disk) : Prop where
  source_there : d.isDirectory source = true
  target_there : d.Leads target (d.placeOf target)
  target_usable : target = "" ∨ target.Usable
  notWithin : ¬ d.placeOf source <+: d.placeOf target
  /-- A directory that is within the other one has nothing that would be copied over itself. -/
  notMet : ∀ below, d.placeOf source = d.placeOf target ++ below →
    d.look (d.placeOf source ++ below) = none
  names : ∀ names, d.look (d.placeOf source ++ names) ≠ none → ∀ n ∈ names, FileName n
  entries : ∀ names cs, d.at? (d.placeOf source ++ names) = some (.directory cs) →
    (cs.map Prod.fst).Nodup
  usable : ∀ names, names ≠ [] → d.look (d.placeOf source ++ names) ≠ none →
    (source.along names).Usable ∧ (target.along names).Usable
  kinds : NoClash (d.placeOf source) (d.placeOf target) d

/-- What is below a place is among the contents of what is at the place. -/
theorem exists_mem_contents {e : Entry} (he : d.at? place = some e)
    (hlook : d.look (place ++ names) ≠ none) :
    ∃ f, d.at? (place ++ names) = some f ∧ (names, f) ∈ e.contents [] := by
  obtain ⟨f, hf⟩ := Option.ne_none_iff_exists'.mp (mt look_eq_none_iff.mpr hlook)
  have hbelow := hf
  rw [at?, Entry.at?_append, ← at?, he, Option.bind_some] at hbelow
  exact ⟨f, hf, mem_contents_of_at? hbelow⟩

theorem noClash_of_contents {S T : Location} {e : Entry} (he : d.at? S = some e)
    (hcontents : ∀ m ∈ e.contents [], d.look (T ++ m.1) ≠ none →
      (m.2.isDirectory = true ↔ d.look (T ++ m.1) = some none)) : NoClash S T d := by
  intro names hlook hlook'
  obtain ⟨f, hf, hmem⟩ := exists_mem_contents he hlook
  rw [← hcontents _ hmem hlook', look, hf]
  cases f <;> simp [Entry.file?, Entry.isDirectory]

/-- Whether a directory can be copied can be seen from its contents. -/
theorem canCopy_of_contents {e : Entry} (hsource : d.isDirectory source = true)
    (htarget : d.isDirectory target = true) (hwithin : ¬ d.placeOf source <+: d.placeOf target)
    (he : d.at? (d.placeOf source) = some e)
    (hcontents : ∀ m ∈ e.contents [], d.placeOf source ≠ d.placeOf target ++ m.1 ∧
      (∀ n ∈ m.1, FileName n) ∧ (m.2.children.map Prod.fst).Nodup ∧
      (m.1 ≠ [] → (source.along m.1).Usable ∧ (target.along m.1).Usable) ∧
      (d.look (d.placeOf target ++ m.1) ≠ none →
        (m.2.isDirectory = true ↔ d.look (d.placeOf target ++ m.1) = some none))) :
    CanCopy source target d where
  source_there := hsource
  target_there := by
    obtain ⟨-, place, hleads⟩ := isDirectory_iff.mp htarget
    rwa [← hleads.eq_placeOf]
  target_usable := .inr (isDirectory_iff.mp htarget).1
  notWithin := hwithin
  notMet below hbelow := by
    by_contra hlook
    obtain ⟨f, -, hmem⟩ := exists_mem_contents he hlook
    exact (hcontents _ hmem).1 hbelow
  names names hlook := by
    obtain ⟨f, -, hmem⟩ := exists_mem_contents he hlook
    exact (hcontents _ hmem).2.1
  entries names cs hcs := by
    have hlook : d.look (d.placeOf source ++ names) ≠ none :=
      Option.ne_none_iff_exists'.mpr ⟨none, look_eq_directory_iff.mpr ⟨cs, hcs⟩⟩
    obtain ⟨f, hf, hmem⟩ := exists_mem_contents he hlook
    obtain rfl : f = .directory cs := Option.some.inj (hf.symm.trans hcs)
    exact (hcontents _ hmem).2.2.1
  usable names hne hlook := by
    obtain ⟨f, -, hmem⟩ := exists_mem_contents he hlook
    exact (hcontents _ hmem).2.2.2.1 hne
  kinds := noClash_of_contents he fun m hm => (hcontents m hm).2.2.2.2

/-- From one disk to the other, some of what is below a place of the first disk has been put below
another place under the same names, and nothing else is seen to have changed.  The first place has
not been touched. -/
structure Overlays (S T : Location) (d₀ d d' : Disk) : Prop where
  workingDirectory : d'.workingDirectory = d.workingDirectory
  source : d'.at? S = d.at? S
  look : ∀ q, d'.look q = d.look q ∨
    ∃ names, q = T ++ names ∧ d₀.look (S ++ names) ≠ none ∧ d'.look q = d₀.look (S ++ names)

namespace Overlays

theorem refl (S T : Location) (d₀ d : Disk) : Overlays S T d₀ d d :=
  ⟨rfl, rfl, fun _ => .inl rfl⟩

theorem trans (h : Overlays S T d₀ d d') (h' : Overlays S T d₀ d' d'') :
    Overlays S T d₀ d d'' where
  workingDirectory := h'.workingDirectory.trans h.workingDirectory
  source := h'.source.trans h.source
  look q := by
    rcases h'.look q with hq | hq
    · rw [hq]
      exact h.look q
    · exact .inr hq

/-- What is below the place that is copied is what it was. -/
theorem at?_source (h : Overlays S T d₀ d d') (names : List String) :
    d'.at? (S ++ names) = d.at? (S ++ names) := by
  have hsource := h.source
  rw [at?, at?] at hsource
  rw [at?, at?, Entry.at?_append, Entry.at?_append, hsource]

theorem look_source (h : Overlays S T d₀ d d') (names : List String) :
    d'.look (S ++ names) = d.look (S ++ names) := by
  rw [Disk.look, Disk.look, h.at?_source]

/-- What has been copied stays. -/
theorem look_of_copied (h : Overlays S T d₀ d d')
    (hcopied : d.look (T ++ names) = d₀.look (S ++ names)) :
    d'.look (T ++ names) = d₀.look (S ++ names) := by
  rcases h.look (T ++ names) with hsame | ⟨names', hplace, -, hcopied'⟩
  · exact hsame.trans hcopied
  · rw [hcopied', List.append_cancel_left hplace]

end Overlays

/-- All that is at a place of the first disk along some names, and below it, is at the other place
under the same names. -/
def Copied (S T : Location) (d₀ : Disk) (names : List String) (d : Disk) : Prop :=
  ∀ more, d₀.look (S ++ (names ++ more)) ≠ none →
    d.look (T ++ (names ++ more)) = d₀.look (S ++ (names ++ more))

/-- What has been copied stays. -/
theorem Copied.of_overlays (hcopied : Copied S T d₀ names d) (h : Overlays S T d₀ d d') :
    Copied S T d₀ names d' :=
  fun more hmore => h.look_of_copied (hcopied more hmore)

/-- A file has been copied when it is there, for there is nothing below it. -/
theorem copied_of_file {bytes : ByteArray} {executable : Bool}
    (hfile : d₀.at? (S ++ names) = some (.file bytes executable))
    (h : d.look (T ++ names) = d₀.look (S ++ names)) : Copied S T d₀ names d := by
  intro more hmore
  rcases more with _ | ⟨name, rest⟩
  · rwa [List.append_nil]
  · refine absurd (look_eq_none_iff.mpr ?_) hmore
    rw [at?, ← List.append_assoc, Entry.at?_append, ← at?, hfile]
    rfl

/-- A directory has been copied when it is there, and its entries have been copied. -/
theorem copied_of_entries {cs : List (String × Entry)}
    (hcs : d₀.at? (S ++ names) = some (.directory cs))
    (h : d.look (T ++ names) = d₀.look (S ++ names))
    (hentries : ∀ m ∈ cs, Copied S T d₀ (names ++ [m.1]) d) : Copied S T d₀ names d := by
  intro more hmore
  rcases more with _ | ⟨name, rest⟩
  · rwa [List.append_nil]
  · obtain ⟨m, hm, rfl⟩ : ∃ m ∈ cs, m.1 = name := by
      by_contra hnone
      have hlookup : cs.lookup name = none := by
        rw [List.lookup_eq_none_iff]
        exact fun m hm => by simpa using fun h : name = m.1 => hnone ⟨m, hm, h.symm⟩
      refine hmore (look_eq_none_iff.mpr ?_)
      rw [← List.append_assoc, List.append_cons, at?, Entry.at?_append, ← at?, at?_concat hcs,
        hlookup]
      rfl
    rw [List.append_cons names m.1 rest] at hmore ⊢
    exact hentries m hm rest hmore

namespace CanCopy

/-! ## One step -/

/-- Files and directories do not meet on the way of a copy either. -/
theorem kinds_of_overlays (hc : CanCopy source target d₀)
    (h : Overlays (d₀.placeOf source) (d₀.placeOf target) d₀ d₀ d)
    (hthere : d₀.look (d₀.placeOf source ++ names) ≠ none)
    (hthere' : d.look (d₀.placeOf target ++ names) ≠ none) :
    d₀.look (d₀.placeOf source ++ names) = some none ↔
      d.look (d₀.placeOf target ++ names) = some none := by
  rcases h.look (d₀.placeOf target ++ names) with hsame | ⟨names', hplace, -, hcopied⟩
  · rw [hsame] at hthere' ⊢
    exact hc.kinds names hthere hthere'
  · rw [hcopied, List.append_cancel_left hplace]

/-- Directories stay directories on the way of a copy. -/
theorem look_directory (hc : CanCopy source target d₀)
    (h₀ : Overlays (d₀.placeOf source) (d₀.placeOf target) d₀ d₀ d)
    (h : Overlays (d₀.placeOf source) (d₀.placeOf target) d₀ d d')
    (hq : d.look place = some none) : d'.look place = some none := by
  rcases h.look place with hsame | ⟨names, rfl, hthere, hcopied⟩
  · exact hsame.trans hq
  · rw [hcopied, hc.kinds_of_overlays h₀ hthere (Option.ne_none_iff_exists'.mpr ⟨_, hq⟩), hq]

/-- A path that leads to a directory leads there on the way of a copy. -/
theorem leads (hc : CanCopy source target d₀)
    (h : Overlays (d₀.placeOf source) (d₀.placeOf target) d₀ d₀ d) (hp : d₀.Leads p place) :
    d.Leads p place := by
  obtain ⟨cs, hcs⟩ := hp
  have hway : d.way p = d₀.way p := by rw [way, way, h.workingDirectory]
  rw [Leads, hway]
  refine lead_directory_of_directories (fun q ds hds => ?_) hcs
  exact look_eq_directory_iff.mp (hc.look_directory (.refl _ _ _ _) h
    (look_eq_directory_iff.mpr ⟨ds, hds⟩))

/-- Nothing is copied to a place at or below the directory that is copied. -/
theorem apart (hc : CanCopy source target d₀)
    (hthere : d₀.look (d₀.placeOf source ++ names) ≠ none) :
    ¬ d₀.placeOf source <+: d₀.placeOf target ++ names := by
  intro hprefix
  rcases List.prefix_or_prefix_of_prefix hprefix (List.prefix_append _ names) with hp | hp
  · exact hc.notWithin hp
  · obtain ⟨below, hbelow⟩ := hp
    rw [← hbelow, List.prefix_append_right_inj] at hprefix
    obtain ⟨more, rfl⟩ := hprefix
    refine hthere (look_eq_none_iff.mpr ?_)
    have hnone := look_eq_none_iff.mp (hc.notMet below hbelow.symm)
    rw [at?, ← List.append_assoc, Entry.at?_append, ← at?, hnone]
    rfl

theorem leads_source (hc : CanCopy source target d₀) :
    d₀.Leads source (d₀.placeOf source) := by
  obtain ⟨-, place, hleads⟩ := isDirectory_iff.mp hc.source_there
  rwa [← hleads.eq_placeOf]

/-- What is above the place that is copied, and the place itself, is not written to. -/
theorem overlays_of_alteredAt (hc : CanCopy source target d₀)
    (h₀ : Overlays (d₀.placeOf source) (d₀.placeOf target) d₀ d₀ d)
    (h : AlteredAt (d₀.placeOf target ++ names) d d')
    (hthere : d₀.look (d₀.placeOf source ++ names) ≠ none)
    (hfree : d.look (d₀.placeOf target ++ names) ≠ some none)
    (hlook : d'.look (d₀.placeOf target ++ names) = d₀.look (d₀.placeOf source ++ names)) :
    Overlays (d₀.placeOf source) (d₀.placeOf target) d₀ d d' where
  workingDirectory := h.workingDirectory
  source := by
    refine h.at? _ (fun habove => hfree ?_) (hc.apart hthere)
    obtain ⟨below, hbelow⟩ := habove
    obtain ⟨cs, hcs⟩ := look_eq_directory_iff.mp hc.leads_source.look
    rw [← h₀.source, ← hbelow] at hcs
    exact look_eq_directory_iff.mpr (exists_directory_of_at?_append hcs)
  look q := by
    by_cases hq : q = d₀.placeOf target ++ names
    · exact .inr ⟨names, hq, hthere, hq ▸ hlook⟩
    · exact .inl (h.look q hq)

/-- The directory to copy to is made. -/
theorem exists_makeDirectories (hc : CanCopy source target d₀)
    (h₀ : Overlays (d₀.placeOf source) (d₀.placeOf target) d₀ d₀ d)
    (hthere : d₀.look (d₀.placeOf source ++ names) = some none)
    (hready : names ≠ [] → d.look (d₀.placeOf target ++ names.dropLast) = some none) :
    ∃ d', makeDirectories (target.along names) d = (.ok (), d') ∧
      Overlays (d₀.placeOf source) (d₀.placeOf target) d₀ d d' ∧
      d'.look (d₀.placeOf target ++ names) = some none := by
  have hthere' := Option.ne_none_iff_exists'.mpr ⟨_, hthere⟩
  have hnames := hc.names names hthere'
  rcases List.eq_nil_or_concat names with rfl | ⟨front, name, rfl⟩
  · have hleads := hc.leads h₀ hc.target_there
    refine ⟨d, ?_, .refl _ _ _ _, ?_⟩
    · rcases hc.target_usable with rfl | husable
      · rfl
      · exact makeDirectories_of_isDirectory (hleads.isDirectory husable)
    · rw [List.append_nil, ← placeOf_congr h₀.workingDirectory]
      exact hleads.look
  · rw [List.concat_eq_append] at *
    obtain ⟨hfront, hname⟩ := List.forall_mem_append.mp hnames
    have hname := List.forall_mem_singleton.mp hname
    rw [List.dropLast_concat] at hready
    have hleads := (hc.leads h₀ hc.target_there).along hfront (hready (by simp))
    have husable := (hc.usable _ (by simp) hthere').2
    have hkinds := hc.kinds_of_overlays h₀ hthere'
    rw [Path.along_concat] at husable ⊢
    rw [← List.append_assoc] at hkinds ⊢
    have hfree : d.file? (d₀.placeOf target ++ front ++ [name]) = none := by
      rw [file?_eq_join]
      rcases hlook : d.look (d₀.placeOf target ++ front ++ [name]) with _ | _ | file
      · rfl
      · rfl
      · rw [hlook] at hkinds
        cases (hkinds (Option.some_ne_none _)).mp hthere
    obtain ⟨d', hmade, haltered, hlook, hnone⟩ :=
      exists_makeDirectories_join hleads hname husable hfree
    refine ⟨d', hmade, ?_, hlook⟩
    rcases hnone with rfl | hnone
    · exact .refl _ _ _ _
    · rw [List.append_assoc] at haltered hlook hnone
      exact hc.overlays_of_alteredAt h₀ haltered hthere'
        (by rw [hnone]; exact (Option.some_ne_none _).symm) (hlook.trans hthere.symm)

/-- A file is copied. -/
theorem exists_copyFile (hc : CanCopy source target d₀)
    (h₀ : Overlays (d₀.placeOf source) (d₀.placeOf target) d₀ d₀ d) {bytes : ByteArray}
    {executable : Bool}
    (hfile : d₀.at? (d₀.placeOf source ++ (names ++ [name])) = some (.file bytes executable))
    (hready : d.look (d₀.placeOf target ++ names) = some none) :
    ∃ d', d.copyFile (source.along (names ++ [name])) (target.along (names ++ [name])) = .ok d' ∧
      Overlays (d₀.placeOf source) (d₀.placeOf target) d₀ d d' ∧
      d'.look (d₀.placeOf target ++ (names ++ [name])) =
        d₀.look (d₀.placeOf source ++ (names ++ [name])) := by
  have hlook := look_eq_file_iff.mpr hfile
  have hthere := Option.ne_none_iff_exists'.mpr ⟨_, hlook⟩
  obtain ⟨hnames, hname⟩ := List.forall_mem_append.mp (hc.names _ hthere)
  have hname := List.forall_mem_singleton.mp hname
  obtain ⟨husable, husable'⟩ := hc.usable _ (by simp) hthere
  have hdirectory : d.look (d₀.placeOf source ++ names) = some none := by
    rw [← List.append_assoc] at hfile
    rw [h₀.look_source]
    exact look_eq_directory_iff.mpr (exists_directory_of_at?_concat hfile)
  have hsource := (hc.leads h₀ hc.leads_source).along hnames hdirectory
  have htarget := (hc.leads h₀ hc.target_there).along hnames hready
  rw [Path.along_concat] at husable husable' ⊢
  rw [Path.along_concat]
  have hfree : d.look (d₀.placeOf target ++ (names ++ [name])) ≠ some none := by
    intro hmeets
    have hkinds := hc.kinds_of_overlays h₀ hthere (Option.ne_none_iff_exists'.mpr ⟨_, hmeets⟩)
    rw [hlook, hmeets] at hkinds
    cases hkinds.mpr rfl
  have hsame : d.at? (d₀.placeOf source ++ names ++ [name]) = some (.file bytes executable) := by
    rw [List.append_assoc, h₀.at?_source, hfile]
  have hends := Path.endsInSlash_join hname.plain
  obtain ⟨d', hcopied, haltered⟩ := Disk.exists_copyFile (hsource.names_join hname husable)
    (hends _) hsame (htarget.names_join hname husable') (hends _) (by rwa [List.append_assoc])
  rw [List.append_assoc] at haltered
  have hafter : d'.look (d₀.placeOf target ++ (names ++ [name])) =
      d₀.look (d₀.placeOf source ++ (names ++ [name])) := by
    obtain ⟨origin, b, x, place, hnames', -, horigin, htarget', -, -, hput⟩ :=
      copyFile_eq_ok hcopied
    obtain rfl := (hsource.names_join hname husable).eq hnames'
    obtain rfl := (htarget.names_join hname husable').eq htarget'
    rw [hsame] at horigin
    cases horigin
    rw [← List.append_assoc, look_eq_file_iff.mpr (hput ?_), hlook]
    intro heq
    refine hc.apart hthere ?_
    rw [← List.append_assoc, ← heq, List.append_assoc]
    exact List.prefix_append _ _
  exact ⟨d', hcopied, hc.overlays_of_alteredAt h₀ haltered hthere hfree hafter, hafter⟩

/-! ## The whole copy -/

/-- No path is as long as copying goes deep. -/
theorem length_lt (hc : CanCopy source target d₀)
    (hthere : d₀.look (d₀.placeOf source ++ names) ≠ none) : names.length < pathLimit := by
  rcases eq_or_ne names [] with rfl | hne
  · decide
  · have hlength := Path.length_le_utf8ByteSize_along
      (fun n hn => (hc.names names hthere n hn).plain) source
    exact hlength.trans_lt (Nat.not_le.mp (hc.usable names hne hthere).1.short)

theorem usable_source (hc : CanCopy source target d₀)
    (hthere : d₀.look (d₀.placeOf source ++ names) ≠ none) : (source.along names).Usable := by
  rcases eq_or_ne names [] with rfl | hne
  · exact (isDirectory_iff.mp hc.source_there).1
  · exact (hc.usable names hne hthere).1

/-- An entry is copied, if what is below a directory is copied one level further down. -/
theorem exists_copyEntry (hc : CanCopy source target d₀)
    (h₀ : Overlays (d₀.placeOf source) (d₀.placeOf target) d₀ d₀ d) {m : String × Entry}
    {cs : List (String × Entry)} (hcs : d₀.at? (d₀.placeOf source ++ names) = some (.directory cs))
    (hm : m ∈ cs) (hready : d.look (d₀.placeOf target ++ names) = some none)
    (hdeeper : d₀.look (d₀.placeOf source ++ (names ++ [m.1])) = some none →
      ∃ d', copyLevels levels (source.along (names ++ [m.1])) (target.along (names ++ [m.1])) d =
          (.ok (), d') ∧
        Overlays (d₀.placeOf source) (d₀.placeOf target) d₀ d d' ∧
        Copied (d₀.placeOf source) (d₀.placeOf target) d₀ (names ++ [m.1]) d') :
    ∃ d', copyEntry levels (source.along names) (target.along names) m d = (.ok (), d') ∧
      Overlays (d₀.placeOf source) (d₀.placeOf target) d₀ d d' ∧
      Copied (d₀.placeOf source) (d₀.placeOf target) d₀ (names ++ [m.1]) d' := by
  have hm' : d₀.at? (d₀.placeOf source ++ (names ++ [m.1])) = some m.2 := by
    rw [← List.append_assoc, at?_concat hcs]
    exact (lookup_eq_some_iff_mem (hc.entries names cs hcs)).mpr hm
  rw [copyEntry, ← Path.along_concat, ← Path.along_concat]
  rcases hkind : m.2 with ⟨bytes, executable⟩ | ds
  · rw [hkind] at hm'
    obtain ⟨d', hcopied, hover, hlook⟩ := hc.exists_copyFile h₀ hm' hready
    have hrun : change (fun d => d.copyFile (source.along (names ++ [m.1]))
        (target.along (names ++ [m.1]))) d = (.ok (), d') := change_eq_ok_iff.mpr hcopied
    exact ⟨d', hrun, hover, copied_of_file hm' hlook⟩
  · rw [hkind] at hm'
    exact hdeeper (look_eq_directory_iff.mpr ⟨ds, hm'⟩)

/-- The copy of what is below some names goes through, and then all of it is there. -/
theorem exists_copyLevels (hc : CanCopy source target d₀)
    (h₀ : Overlays (d₀.placeOf source) (d₀.placeOf target) d₀ d₀ d)
    (hthere : d₀.look (d₀.placeOf source ++ names) = some none)
    (hready : names ≠ [] → d.look (d₀.placeOf target ++ names.dropLast) = some none)
    (hlevels : pathLimit ≤ names.length + levels) :
    ∃ d', copyLevels levels (source.along names) (target.along names) d = (.ok (), d') ∧
      Overlays (d₀.placeOf source) (d₀.placeOf target) d₀ d d' ∧
      Copied (d₀.placeOf source) (d₀.placeOf target) d₀ names d' := by
  induction levels generalizing names d with
  | zero =>
    have hlt := hc.length_lt (Option.ne_none_iff_exists'.mpr ⟨_, hthere⟩)
    omega
  | succ levels ih =>
    have hthere' := Option.ne_none_iff_exists'.mpr ⟨_, hthere⟩
    obtain ⟨d₁, hmade, hover, hdirectory⟩ := hc.exists_makeDirectories h₀ hthere hready
    have h₁ := h₀.trans hover
    obtain ⟨cs, hcs⟩ := look_eq_directory_iff.mp hthere
    have hlist : d₁.list (source.along names) = .ok cs := by
      have hleads := (hc.leads h₁ hc.leads_source).along (hc.names names hthere')
        (by rw [h₁.look_source, hthere])
      exact hleads.list (hc.usable_source hthere') (by rw [h₁.at?_source, hcs])
    -- an entry is copied, whatever has become of the disk by then
    obtain ⟨d₂, hentries, hover₂, hall, -⟩ := exists_forM
      (fun m hm e he => by
        have hready' := hc.look_directory h₁ he hdirectory
        obtain ⟨e', hrun, hover', hcopied⟩ := hc.exists_copyEntry (h₁.trans he) hcs hm hready'
          fun hdeeper => ih (h₁.trans he) hdeeper (fun _ => by rwa [List.dropLast_concat])
            (by rw [List.length_append, List.length_singleton]; omega)
        exact ⟨e', hrun, he.trans hover', hcopied, fun b hb => Copied.of_overlays hb hover'⟩)
      (Overlays.refl (d₀.placeOf source) (d₀.placeOf target) d₀ d₁)
    refine ⟨d₂, copyLevels_of_ok hmade hlist hentries, hover.trans hover₂,
      copied_of_entries hcs ?_ hall⟩
    rw [hthere]
    exact hc.look_directory h₁ hover₂ hdirectory

/-- A directory is copied over another one: all that is below it is there then, and nothing else is
seen to have changed. -/
theorem exists_copyTree (hc : CanCopy source target d₀) :
    ∃ d', copyTree source target d₀ = (.ok (), d') ∧
      Overlays (d₀.placeOf source) (d₀.placeOf target) d₀ d₀ d' ∧
      Copied (d₀.placeOf source) (d₀.placeOf target) d₀ [] d' := by
  have hthere : d₀.look (d₀.placeOf source ++ []) = some none := by
    rw [List.append_nil]
    exact hc.leads_source.look
  exact hc.exists_copyLevels (.refl _ _ _ _) hthere (fun h => absurd rfl h) (Nat.le_add_left _ _)

end CanCopy

end DiskAct

end Pipewright
