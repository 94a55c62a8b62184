import Mathlib.Order.Defs.Unbundled
import Pipewright.Proofs.Disk.Places

/-!
# Two disks that agree outside a place

Two disks may hold different things below a place and the same elsewhere.  Then a file elsewhere is
read from both with the same bytes, and what an operation changes below the place does not matter.
Making the directory of a path makes the disks agree about the directories on the way to it too,
for they are there afterwards on both.

* `Disk.bytesAt`: the bytes of the file at the place of a path.
* `Disk.SameOutside`, `Disk.SameBelow`: the same is seen outside a place, and at it and below it.
* `Disk.SameAround`: the same is seen off the way to a path.
* `Disk.Touched.sameOutside`, `Disk.Made.sameOutside`, `Disk.Made.sameAround`: what operations leave.
* `Disk.Leads.upTo`, `Disk.Leads.look_upTo`: the directories on the way to a directory.
* `DiskAct.sameOutside_of_makeDirectories`: making a directory on both disks.
-/

namespace Pipewright

namespace Disk

variable {d d' d'' : Disk} {p : Path} {place q : Location} {places : Set Location}

/-! ## Bytes -/

/-- The bytes of the file at the place of a path, if there is a file. -/
def bytesAt (d : Disk) (p : Path) : Option ByteArray :=
  (d.file? (d.placeOf p)).map Prod.fst

theorem bytesAt_congr {p' : Path} (h : d.placeOf p' = d.placeOf p) :
    d.bytesAt p' = d.bytesAt p := by
  rw [bytesAt, bytesAt, h]

/-- A text that is read is the one at the place of the path. -/
theorem bytesAt_of_readText {text : String} (h : d.readText p = .ok text) :
    d.bytesAt p = some text.toUTF8 := by
  obtain ⟨q, executable, hnames, -, hfile⟩ := readText_eq_ok_iff.mp h
  rw [bytesAt, ← hnames.eq_placeOf, hfile]
  rfl

/-- What has been written is at the place of the path. -/
theorem bytesAt_of_write {bytes : ByteArray} (h : d.write p bytes = .ok d') :
    d'.bytesAt p = some bytes := by
  obtain ⟨q, executable, hnames, -, hchanged, hafter⟩ := changedAt_write h
  rw [bytesAt, placeOf_congr hchanged.workingDirectory, ← hnames.eq_placeOf,
    file?_eq_some_iff.mpr hafter]
  rfl

/-- What has been copied is at the place of the path to copy to, unless that is where it was. -/
theorem bytesAt_of_copyFile {source target : Path} (h : d.copyFile source target = .ok d')
    (hne : d.placeOf source ≠ d.placeOf target) : d'.bytesAt target = d.bytesAt source := by
  obtain ⟨origin, bytes, executable, q, hsource, -, horigin, htarget, -, htouched, hafter⟩ :=
    copyFile_eq_ok h
  rw [← hsource.eq_placeOf, ← htarget.eq_placeOf] at hne
  rw [bytesAt, bytesAt, placeOf_congr htouched.workingDirectory, ← hsource.eq_placeOf,
    ← htarget.eq_placeOf, file?_eq_some_iff.mpr (hafter hne), file?_eq_some_iff.mpr horigin]

/-- Changes at other places keep the bytes of a file. -/
theorem ChangedAt.bytesAt_eq (h : ChangedAt places d d') (hp : d.placeOf p ∉ places) :
    d'.bytesAt p = d.bytesAt p := by
  rw [bytesAt, bytesAt, placeOf_congr h.workingDirectory, h.file? _ hp]

/-! ## Outside and below -/

/-- Outside the place the same is seen on both disks. -/
structure SameOutside (place : Location) (d d' : Disk) : Prop where
  workingDirectory : d'.workingDirectory = d.workingDirectory
  look : ∀ q, ¬ place <+: q → d'.look q = d.look q

/-- At the place and below it the same is seen on both disks. -/
structure SameBelow (place : Location) (d d' : Disk) : Prop where
  workingDirectory : d'.workingDirectory = d.workingDirectory
  look : ∀ q, place <+: q → d'.look q = d.look q

/-- The same is seen on both disks but at the place of the path and below it, and at the directories
on the way to it. -/
structure SameAround (p : Path) (d d' : Disk) : Prop where
  workingDirectory : d'.workingDirectory = d.workingDirectory
  look : ∀ q, ¬ d.placeOf p <+: q → (∀ a ∈ p.above, q ≠ d.placeOf a) → d'.look q = d.look q

namespace SameOutside

theorem refl (place : Location) (d : Disk) : SameOutside place d d :=
  ⟨rfl, fun _ _ => rfl⟩

theorem symm (h : SameOutside place d d') : SameOutside place d' d :=
  ⟨h.workingDirectory.symm, fun q hq => (h.look q hq).symm⟩

theorem trans (h : SameOutside place d d') (h' : SameOutside place d' d'') :
    SameOutside place d d'' :=
  ⟨h'.workingDirectory.trans h.workingDirectory, fun q hq => (h'.look q hq).trans (h.look q hq)⟩

/-- Whatever is changed below the place on either disk, they agree outside. -/
theorem of_sides {e e' : Disk} (h : SameOutside place d d') (he : SameOutside place d e)
    (he' : SameOutside place d' e') : SameOutside place e e' :=
  he.symm.trans (h.trans he')

/-- Files outside have the same bytes. -/
theorem bytesAt_eq (h : SameOutside place d d') (hp : ¬ place <+: d.placeOf p) :
    d'.bytesAt p = d.bytesAt p := by
  rw [bytesAt, bytesAt, placeOf_congr h.workingDirectory, file?_eq_join, file?_eq_join,
    h.look _ hp]

/-- Texts that are read outside are the same. -/
theorem readText_eq (h : SameOutside place d d') (hp : ¬ place <+: d.placeOf p)
    {text text' : String} (hread : d.readText p = .ok text) (hread' : d'.readText p = .ok text') :
    text' = text := by
  have hbytes := h.bytesAt_eq hp
  rw [bytesAt_of_readText hread, bytesAt_of_readText hread'] at hbytes
  exact String.toByteArray_inj.mp (Option.some.inj hbytes)

end SameOutside

/-- What is at and below the place keeps its bytes. -/
theorem SameBelow.bytesAt_eq (h : SameBelow place d d') (hp : place <+: d.placeOf p) :
    d'.bytesAt p = d.bytesAt p := by
  rw [bytesAt, bytesAt, placeOf_congr h.workingDirectory, file?_eq_join, file?_eq_join,
    h.look _ hp]

/-- What touches places below only is not seen outside. -/
theorem Touched.sameOutside (h : Touched places d d') (hplaces : ∀ q ∈ places, place <+: q) :
    SameOutside place d d' :=
  ⟨h.workingDirectory, fun q hq => h.look q fun hmem => hq (hplaces q hmem)⟩

/-- What touches the place of a path below is not seen outside. -/
theorem Touched.sameOutside_of_path (h : Touched {d.placeOf p} d d')
    (hp : place <+: d.placeOf p) : SameOutside place d d' :=
  h.sameOutside fun _ hq => Set.mem_singleton_iff.mp hq ▸ hp

/-- Making directories below the place, or where something is already, is not seen outside. -/
theorem Made.sameOutside {paths : Set Path} (h : Made paths d d')
    (hpaths : ∀ p ∈ paths, place <+: d.placeOf p ∨ d.look (d.placeOf p) ≠ none) :
    SameOutside place d d' := by
  refine ⟨h.workingDirectory, fun q hq => ?_⟩
  rcases h.look q with hsame | ⟨⟨p, hp, rfl⟩, hnone, -⟩
  · exact hsame
  · rcases hpaths p hp with hbelow | hthere
    · exact absurd hbelow hq
    · exact absurd hnone hthere

/-! ## Off the way -/

instance : IsPreorder Disk (SameAround p) where
  refl _ := ⟨rfl, fun _ _ _ => rfl⟩
  trans d d' d'' h h' := by
    refine ⟨h'.workingDirectory.trans h.workingDirectory, fun q hq hoff => ?_⟩
    have hlook := h'.look q
    simp only [placeOf_congr h.workingDirectory] at hlook
    exact (hlook hq hoff).trans (h.look q hq hoff)

/-- What is not seen outside the place of the path is not seen off the way to it. -/
theorem SameOutside.sameAround (h : SameOutside (d.placeOf p) d d') : SameAround p d d' :=
  ⟨h.workingDirectory, fun q hq _ => h.look q hq⟩

/-- Making directories below the path or on the way to it is not seen off the way. -/
theorem Made.sameAround {paths : Set Path} (h : Made paths d d')
    (hpaths : ∀ a ∈ paths, d.placeOf p <+: d.placeOf a ∨ a ∈ p.above) : SameAround p d d' := by
  refine ⟨h.workingDirectory, fun q hq hoff => ?_⟩
  rcases h.look q with hsame | ⟨⟨a, ha, rfl⟩, -, -⟩
  · exact hsame
  · rcases hpaths a ha with hbelow | habove
    · exact absurd hbelow hq
    · exact absurd rfl (hoff a habove)

/-- Making a directory below the path is not seen off the way to it. -/
theorem sameAround_makeDirectories {name : String} (hname : Path.Plain name) (p : Path)
    (d : Disk) : SameAround p d (DiskAct.makeDirectories (p.join name) d).2 := by
  refine (DiskAct.made_makeDirectories (p.join name) d).sameAround ?_
  rintro a (rfl | ha)
  · exact .inl (prefix_placeOf_join hname p)
  · refine (above_join (d := d) hname ha).imp_left fun hplace => ?_
    rw [hplace]

/-! ## On the way -/

/-- Names that lead to a directory lead there from a directory that the first of them lead to. -/
theorem lead_append {names rest : List String} {cs : List (String × Entry)}
    (h : d.lead place (names ++ rest) = .ok ⟨q, some (.directory cs)⟩) :
    (∃ ds, d.lead place names = .ok ⟨names.foldl nextPlace place, some (.directory ds)⟩) ∧
      d.lead (names.foldl nextPlace place) rest = .ok ⟨q, some (.directory cs)⟩ := by
  induction names generalizing place with
  | nil =>
    obtain ⟨ds, hds⟩ := exists_directory_of_lead_directory h
    exact ⟨⟨ds, by rw [lead_nil, hds]; rfl⟩, h⟩
  | cons name names ih =>
    obtain ⟨hdirectory, hstep⟩ := lead_cons_eq_ok_iff.mp h
    rw [List.foldl_cons]
    rcases hstep with ⟨rfl, hrest⟩ | ⟨rfl, hrest⟩ | ⟨hname, hchild, hrest⟩ | ⟨-, -, -, htarget⟩
    · obtain ⟨⟨ds, hds⟩, hlast⟩ := ih hrest
      exact ⟨⟨ds, lead_cons_eq_ok_iff.mpr ⟨hdirectory, .stay rfl hds⟩⟩, hlast⟩
    · obtain ⟨⟨ds, hds⟩, hlast⟩ := ih hrest
      exact ⟨⟨ds, lead_cons_eq_ok_iff.mpr ⟨hdirectory, .back rfl hds⟩⟩, hlast⟩
    · rw [nextPlace_of_lookedUp hname]
      obtain ⟨⟨ds, hds⟩, hlast⟩ := ih hrest
      exact ⟨⟨ds, lead_cons_eq_ok_iff.mpr ⟨hdirectory, .down hname hchild hds⟩⟩, hlast⟩
    · cases htarget

/-- Names behind others that lead to a directory lead on from there. -/
theorem lead_append_of_lead {names rest : List String} {cs : List (String × Entry)}
    (h : d.lead place names = .ok ⟨q, some (.directory cs)⟩) :
    d.lead place (names ++ rest) = d.lead q rest := by
  induction names generalizing place with
  | nil =>
    obtain ⟨rfl, -⟩ := Target.mk.inj (Except.ok.inj h)
    rfl
  | cons name names ih =>
    obtain ⟨⟨ds, hds⟩, hstep⟩ := lead_cons_eq_ok_iff.mp h
    rw [List.cons_append, lead_cons hds]
    rcases hstep with ⟨rfl, hrest⟩ | ⟨rfl, hrest⟩ | ⟨hname, hchild, hrest⟩ | ⟨-, -, -, htarget⟩
    · rw [if_pos rfl, ih hrest]
    · rw [if_neg (by decide), if_pos rfl, ih hrest]
    · rw [if_neg hname.notStay, if_neg hname.notBack, if_neg hname.short, hchild,
        Option.isSome_some, if_pos rfl, ih hrest]
    · cases htarget

/-- Names that lead to a directory lead there without those that stay. -/
theorem lead_filter {names : List String} {cs : List (String × Entry)}
    (h : d.lead place names = .ok ⟨q, some (.directory cs)⟩) :
    d.lead place (names.filter fun m => m ≠ ".") = .ok ⟨q, some (.directory cs)⟩ := by
  induction names generalizing place with
  | nil => exact h
  | cons name rest ih =>
    obtain ⟨hdirectory, hstep⟩ := lead_cons_eq_ok_iff.mp h
    rcases hstep with ⟨rfl, hrest⟩ | ⟨rfl, hrest⟩ | ⟨hname, hchild, hrest⟩ | ⟨-, -, -, htarget⟩
    · exact ih hrest
    · exact lead_cons_eq_ok_iff.mpr ⟨hdirectory, .back rfl (ih hrest)⟩
    · rw [List.filter_cons_of_pos (by simpa using hname.notStay)]
      exact lead_cons_eq_ok_iff.mpr ⟨hdirectory, .down hname hchild (ih hrest)⟩
    · cases htarget

/-- The components of a path lead to a directory when the names do. -/
theorem lead_components {cs : List (String × Entry)}
    (h : d.lead place p.names = .ok ⟨q, some (.directory cs)⟩) :
    d.lead place p.components = .ok ⟨q, some (.directory cs)⟩ := by
  rw [Path.components]
  rcases hnames : p.names with _ | ⟨name, rest⟩
  · rwa [hnames] at h
  · rw [hnames] at h
    have hrest := lead_filter h
    dsimp only
    by_cases hname : name = "."
    · subst hname
      rw [List.filter_cons_of_neg (by decide)] at hrest
      split
      · exact hrest
      · obtain ⟨hdirectory, -⟩ := lead_cons_eq_ok_iff.mp h
        exact lead_cons_eq_ok_iff.mpr ⟨hdirectory, .stay rfl hrest⟩
    · rw [List.filter_cons_of_pos (by simpa using hname)] at hrest
      rwa [if_neg (by simp [hname])]

/-- At the place of a path that leads to a directory the directory is seen. -/
theorem Leads.look (h : d.Leads p place) : d.look (d.placeOf p) = some none := by
  obtain rfl := h.eq_placeOf
  obtain ⟨cs, hcs⟩ := h
  exact look_eq_directory_iff.mpr ⟨cs, (hasPlace_of_lead rfl hcs).entry_eq.symm⟩

/-- A path leads to a directory by way of directories. -/
theorem Leads.upTo (h : d.Leads p place) (n : Nat) :
    d.Leads (p.upTo n) (d.placeOf (p.upTo n)) := by
  obtain ⟨cs, hcs⟩ := h
  obtain ⟨⟨ds, hstart⟩, hnames⟩ := lead_append hcs
  have hcomponents := lead_components hnames
  rw [← List.take_append_drop n p.components] at hcomponents
  obtain ⟨⟨es, htake⟩, -⟩ := lead_append hcomponents
  refine ⟨es, ?_⟩
  rw [way, Path.isAbsolute_upTo, Path.names_upTo, lead_append_of_lead hstart, htake, placeOf_upTo,
    startOf]

/-- The directories on the way to a directory that a path leads to are there. -/
theorem Leads.look_upTo (h : d.Leads p place) (n : Nat) :
    d.look (d.placeOf (p.upTo n)) = some none :=
  (h.upTo n).look

end Disk

namespace DiskAct

open Disk

variable {d d' e e' : Disk} {p : Path} {place : Location}

/-- After a directory has been made on two disks that agree off the way to it, they agree outside
each place that the directory is below. -/
theorem sameOutside_of_makeDirectories (hp : place <+: d.placeOf p)
    (hworking : d'.workingDirectory = d.workingDirectory)
    (hlook : ∀ q, ¬ place <+: q → (∀ a ∈ p.above, q ≠ d.placeOf a) → d'.look q = d.look q)
    (h : makeDirectories p d = (.ok (), e)) (h' : makeDirectories p d' = (.ok (), e')) :
    SameOutside place e e' := by
  have hmade := made_makeDirectories p d
  have hmade' := made_makeDirectories p d'
  rw [h] at hmade
  rw [h'] at hmade'
  refine ⟨by rw [hmade.workingDirectory, hmade'.workingDirectory, hworking], fun q hq => ?_⟩
  by_cases hway : ∃ a ∈ p.above, q = d.placeOf a
  · obtain ⟨a, ⟨n, -, hn, rfl⟩, rfl⟩ := hway
    have hne : p ≠ "" := by
      rintro rfl
      exact absurd hn (Nat.not_lt_zero n)
    obtain ⟨q, hleads⟩ := leads_of_makeDirectories hne h
    obtain ⟨q', hleads'⟩ := leads_of_makeDirectories hne h'
    have hthere := hleads.look_upTo n
    have hthere' := hleads'.look_upTo n
    rw [placeOf_congr hmade.workingDirectory] at hthere
    rw [placeOf_congr hmade'.workingDirectory, placeOf_congr hworking] at hthere'
    rw [hthere, hthere']
  · have hoff : ∀ a ∈ p.above, q ≠ d.placeOf a := fun a ha hqa => hway ⟨a, ha, hqa⟩
    have hnot : ∀ a ∈ insert p p.above, q ≠ d.placeOf a := by
      rintro a (rfl | ha)
      · rintro rfl
        exact hq hp
      · exact hoff a ha
    have hsame : e.look q = d.look q := by
      rcases hmade.look q with hsame | ⟨⟨a, ha, hqa⟩, -, -⟩
      · exact hsame
      · exact absurd hqa (hnot a ha)
    have hsame' : e'.look q = d'.look q := by
      rcases hmade'.look q with hsame | ⟨⟨a, ha, hqa⟩, -, -⟩
      · exact hsame
      · rw [placeOf_congr hworking] at hqa
        exact absurd hqa (hnot a ha)
    rw [hsame, hsame', hlook q hq hoff]

end DiskAct

end Pipewright
