import Pipewright.Disk.Contents
import Pipewright.Proofs.Disk.Outside

/-!
# What copying a directory leaves as it is

Copying all that is in a directory makes directories and files below the directory to copy to, each
under the names that lead to it from the directory to copy from.  What every such step keeps is kept
by the whole, so two things can be said of a copy that has been made: outside the directory to copy
to nothing is seen to have changed, and a file has been copied with its bytes.  A directory cannot be
copied to a place within itself, for there is always one more level to copy.

* `Path.along`: a path along names from a directory.
* `Disk.Proper`: names that can be those of files.
* `DiskAct.Copying`: what the steps of a copy keep; `DiskAct.Copying.copyLevels`: so does the copy.
* `DiskAct.sameOutside_of_copyTree`, `DiskAct.bytesAt_of_copyTree`: a copy that has been made.
* `DiskAct.copyTree_ne_ok_of_within`: a directory is not copied to a place within itself.
-/

namespace Pipewright

/-! ## Along names -/

/-- The path that names lead along from a directory. -/
def Path.along (p : Path) (names : List String) : Path :=
  names.foldl join p

@[simp] theorem Path.along_nil (p : Path) : p.along [] = p := rfl

theorem Path.along_concat (p : Path) (names : List String) (name : String) :
    p.along (names ++ [name]) = (p.along names).join name := by
  rw [along, List.foldl_append]
  rfl

namespace Disk

variable {d d' : Disk} {p : Path} {place q : Location} {name : String} {names : List String}

theorem placeOf_along (h : ∀ n ∈ names, Path.Plain n) :
    d.placeOf (p.along names) = d.placeOf p ++ names := by
  induction names generalizing p with
  | nil => rw [Path.along_nil, List.append_nil]
  | cons n rest ih =>
    obtain ⟨hn, hrest⟩ := List.forall_mem_cons.mp h
    show d.placeOf ((p.join n).along rest) = _
    rw [ih hrest, placeOf_join hn, List.append_assoc, List.singleton_append]

/-- What is on the way to a path along names is on the way to the directory, or at it or below
it. -/
theorem above_along (h : ∀ n ∈ names, Path.Plain n) {a : Path} (ha : a ∈ (p.along names).above) :
    d.placeOf p <+: d.placeOf a ∨ a ∈ p.above := by
  induction names generalizing p with
  | nil => exact .inr ha
  | cons n rest ih =>
    obtain ⟨hn, hrest⟩ := List.forall_mem_cons.mp h
    rcases ih hrest ha with hbelow | habove
    · rw [placeOf_join hn] at hbelow
      exact .inl ((List.prefix_append _ _).trans hbelow)
    · refine (above_join (d := d) hn habove).imp_left fun hplace => ?_
      rw [hplace]

/-! ## Names of files -/

/-- The names that places are made of can be those of files, when those of the working directory
can. -/
theorem plain_of_mem_placeOf (hworking : ∀ n ∈ d.workingDirectory, Path.Plain n)
    (h : name ∈ d.placeOf p) : Path.Plain name := by
  have hnames : ∀ n ∈ d.way p, '/' ∉ n.toList ∧ n ≠ "" := by
    intro n hn
    rw [way, List.mem_append] at hn
    rcases hn with hn | hn
    · split at hn
      · cases hn
      · exact ⟨(hworking n hn).noSlash, (hworking n hn).notEmpty⟩
    · exact Path.mem_names hn
  have hfold : ∀ (ns : List String) (q : Location), (∀ n ∈ ns, '/' ∉ n.toList ∧ n ≠ "") →
      (∀ n ∈ q, Path.Plain n) → ∀ n ∈ ns.foldl nextPlace q, Path.Plain n := by
    intro ns
    induction ns with
    | nil => exact fun q _ hq => hq
    | cons m ns ih =>
      intro q hns hq
      obtain ⟨hm, hns⟩ := List.forall_mem_cons.mp hns
      refine ih _ hns fun n hn => ?_
      rw [nextPlace] at hn
      split at hn
      · exact hq n hn
      split at hn
      · exact hq n (List.mem_of_mem_dropLast hn)
      next hstay hback =>
      rcases List.mem_append.mp hn with hn | hn
      · exact hq n hn
      · rw [List.mem_singleton.mp hn]
        exact ⟨hm.1, hm.2, hstay, hback⟩
  exact hfold _ [] hnames (by simp) name h

/-- The names of the working directory and of what there is outside a place can be those of
files. -/
structure Proper (place : Location) (d : Disk) : Prop where
  workingDirectory : ∀ n ∈ d.workingDirectory, Path.Plain n
  entry : ∀ q name, ¬ place <+: q ++ [name] → d.look (q ++ [name]) ≠ none → Path.Plain name

theorem Proper.of_sameOutside (h : Proper place d) (hd : SameOutside place d d') :
    Proper place d' where
  workingDirectory := hd.workingDirectory ▸ h.workingDirectory
  entry q name hq hlook := h.entry q name hq (hd.look _ hq ▸ hlook)

/-- Directories are made under such names. -/
theorem Made.proper {paths : Set Path} (h : Made paths d d') (hd : Proper place d) :
    Proper place d' where
  workingDirectory := h.workingDirectory ▸ hd.workingDirectory
  entry q name hq hlook := by
    rcases h.look (q ++ [name]) with hsame | ⟨⟨p, -, hp⟩, -, -⟩
    · exact hd.entry q name hq (hsame ▸ hlook)
    · refine plain_of_mem_placeOf (p := p) hd.workingDirectory ?_
      rw [← hp]
      exact List.mem_concat_self

instance (name : String) : Decidable (Path.Plain name) :=
  decidable_of_iff ('/' ∉ name.toList ∧ name ≠ "" ∧ name ≠ "." ∧ name ≠ "..")
    ⟨fun ⟨hslash, hempty, hstay, hback⟩ => ⟨hslash, hempty, hstay, hback⟩,
      fun h => ⟨h.noSlash, h.notEmpty, h.notStay, h.notBack⟩⟩

theorem mem_contentsOf {above : Location} {cs : List (String × Entry)} {e : Entry}
    {m : Location × Entry} (he : cs.lookup name = some e)
    (hm : m ∈ e.contents (above ++ [name])) : m ∈ contentsOf above cs := by
  induction cs with
  | nil => cases he
  | cons c rest ih =>
    rw [lookup_cons_eq] at he
    rw [contentsOf, List.mem_append]
    split at he
    · next hname =>
      cases he
      exact .inl (hname ▸ hm)
    · exact .inr (ih he)

/-- What is at a place below an entry is among the contents of the entry. -/
theorem mem_contents_of_at? {above : Location} {e f : Entry} (h : e.at? q = some f) :
    (above ++ q, f) ∈ e.contents above := by
  induction q generalizing above e with
  | nil =>
    cases h
    rw [List.append_nil]
    cases f <;> exact List.mem_cons_self
  | cons name rest ih =>
    rw [Entry.at?_cons] at h
    obtain ⟨child, hchild, hrest⟩ := Option.bind_eq_some_iff.mp h
    cases e with
    | file => cases hchild
    | directory cs =>
      have hmem := @ih (above ++ [name]) child hrest
      rw [List.append_assoc, List.singleton_append] at hmem
      exact List.mem_cons_of_mem _ (mem_contentsOf hchild hmem)

/-- Whether all names can be those of files can be seen from the contents. -/
theorem proper_of_contents (hworking : ∀ n ∈ d.workingDirectory, Path.Plain n)
    (hcontents : ∀ m ∈ d.root.contents [], ∀ n ∈ m.1, Path.Plain n) : Proper place d where
  workingDirectory := hworking
  entry q name _ hlook := by
    obtain ⟨e, he⟩ := Option.ne_none_iff_exists'.mp (mt look_eq_none_iff.mpr hlook)
    exact hcontents _ (mem_contents_of_at? he) name List.mem_concat_self

/-! ## Listing -/

/-- The entries that are listed are those of the directory at the place of the path. -/
theorem at?_of_list {cs : List (String × Entry)} (h : d.list p = .ok cs) :
    d.at? (d.placeOf p) = some (.directory cs) := by
  rw [list, bind_eq_ok_iff] at h
  obtain ⟨e, hentry, h⟩ := h
  rw [entry, bind_eq_ok_iff] at hentry
  obtain ⟨⟨q, f⟩, hfound, hf⟩ := hentry
  cases hf
  obtain ⟨hnames, hplace, -⟩ := found_eq_ok_iff.mp hfound
  rcases f with _ | ds
  · cases h
  · obtain rfl : ds = cs := Except.ok.inj h
    rw [← hnames.eq_placeOf, hplace]

/-- What is listed is there. -/
theorem look_of_mem_list {cs : List (String × Entry)} {e : Entry} (h : d.list p = .ok cs)
    (he : (name, e) ∈ cs) : d.look (d.placeOf p ++ [name]) ≠ none := by
  rw [ne_eq, look_eq_none_iff, at?_concat (at?_of_list h), List.lookup_eq_none_iff]
  intro hnone
  exact absurd (hnone _ he) (by simp)

/-- What is there is listed. -/
theorem mem_list_of_at? {cs : List (String × Entry)} {e : Entry} (h : d.list p = .ok cs)
    (he : d.at? (d.placeOf p ++ [name]) = some e) : (name, e) ∈ cs := by
  rw [at?_concat (at?_of_list h)] at he
  obtain ⟨before, after, rfl, -⟩ := List.lookup_eq_some_iff.mp he
  exact List.mem_append_right _ List.mem_cons_self

end Disk

namespace DiskAct

open Disk

variable {d d' : Disk} {source target : Path} {levels : Nat} {names : List String}
  {name : String}

/-! ## The steps of a copy -/

section Steps

variable {α : Type} {f : α → DiskAct Unit} {I : Disk → Prop} {l : List α}

/-- What an action for each entry keeps is kept by the actions for all entries. -/
theorem forM_keeps (hf : ∀ a ∈ l, ∀ d d', I d → f a d = (.ok (), d') → I d') (hI : I d)
    (h : l.forM f d = (.ok (), d')) : I d' := by
  induction l generalizing d with
  | nil =>
    obtain ⟨-, rfl⟩ := Act.pure_eq_ok_iff.mp h
    exact hI
  | cons a rest ih =>
    obtain ⟨_, d₁, hfirst, hrest⟩ := Act.bind_eq_ok_iff.mp h
    obtain ⟨ha, hothers⟩ := List.forall_mem_cons.mp hf
    exact ih hothers (ha d d₁ hI hfirst) hrest

/-- The action for an entry starts with what those before it have kept. -/
theorem forM_split {a : α} {before after : List α}
    (hf : ∀ b ∈ before, ∀ d d', I d → f b d = (.ok (), d') → I d') (hI : I d)
    (h : (before ++ a :: after).forM f d = (.ok (), d')) :
    ∃ d₁ d₂, I d₁ ∧ f a d₁ = (.ok (), d₂) ∧ after.forM f d₂ = (.ok (), d') := by
  induction before generalizing d with
  | nil =>
    obtain ⟨_, d₂, ha, hafter⟩ := Act.bind_eq_ok_iff.mp h
    exact ⟨d, d₂, hI, ha, hafter⟩
  | cons b rest ih =>
    obtain ⟨_, d₁, hfirst, hrest⟩ := Act.bind_eq_ok_iff.mp h
    obtain ⟨hb, hothers⟩ := List.forall_mem_cons.mp hf
    exact ih hothers (hb d d₁ hI hfirst) hrest

end Steps

/-- Copies one entry of a directory, a file or a directory with so many levels. -/
def copyEntry (levels : Nat) (source target : Path) (m : String × Entry) : DiskAct Unit :=
  if m.2.isDirectory then copyLevels levels (source.join m.1) (target.join m.1)
  else change fun d => d.copyFile (source.join m.1) (target.join m.1)

theorem copyEntry_file (levels : Nat) (source target : Path) (name : String) (bytes : ByteArray)
    (executable : Bool) : copyEntry levels source target (name, .file bytes executable) =
      change fun d => d.copyFile (source.join name) (target.join name) :=
  if_neg Bool.false_ne_true

/-- A copy makes the directory to copy to, lists the entries, and copies them one by one. -/
theorem copyLevels_ok (h : copyLevels (levels + 1) source target d = (.ok (), d')) :
    ∃ d₁ cs, makeDirectories target d = (.ok (), d₁) ∧ d₁.list source = .ok cs ∧
      cs.forM (copyEntry levels source target) d₁ = (.ok (), d') := by
  obtain ⟨_, d₁, hmade, hrest⟩ := Act.bind_eq_ok_iff.mp h
  obtain ⟨cs, d₂, hasked, hentries⟩ := Act.bind_eq_ok_iff.mp hrest
  obtain ⟨hlist, rfl⟩ := ask_eq_ok_iff.mp hasked
  exact ⟨d₂, cs, hmade, hlist, hentries⟩

/-- What is kept by making directories and copying files below a directory, so long as the names on
the way to them are as they should be. -/
structure Copying (source target : Path) (Name : String → Prop) (I : Disk → Prop) : Prop where
  name : ∀ names {d cs name e}, (∀ n ∈ names, Name n) → I d →
    d.list (source.along names) = .ok cs → (name, e) ∈ cs → Name name
  make : ∀ names {d d'}, (∀ n ∈ names, Name n) → I d →
    makeDirectories (target.along names) d = (.ok (), d') → I d'
  copy : ∀ names {d d'}, (∀ n ∈ names, Name n) → names ≠ [] → I d →
    d.copyFile (source.along names) (target.along names) = .ok d' → I d'

namespace Copying

variable {Name : String → Prop} {I : Disk → Prop}

/-- What is kept by the steps of a copy is kept by the copy. -/
theorem copyLevels (hk : Copying source target Name I) (names : List String)
    (hnames : ∀ n ∈ names, Name n)
    (hI : I d)
    (h : DiskAct.copyLevels levels (source.along names) (target.along names) d = (.ok (), d')) :
    I d' := by
  induction levels generalizing names d d' with
  | zero => cases h
  | succ levels ih =>
    obtain ⟨d₁, cs, hmade, hlist, hentries⟩ := copyLevels_ok h
    have hI₁ := hk.make names hnames hI hmade
    refine forM_keeps (fun m hm e e' he hrun => ?_) hI₁ hentries
    have hnames' : ∀ n ∈ names ++ [m.1], Name n :=
      List.forall_mem_append.mpr
        ⟨hnames, List.forall_mem_singleton.mpr (hk.name names hnames hI₁ hlist hm)⟩
    rw [copyEntry, ← Path.along_concat, ← Path.along_concat] at hrun
    split at hrun
    · exact ih _ hnames' he hrun
    · exact hk.copy _ hnames' (by simp) he (change_eq_ok_iff.mp hrun)

/-- What is kept by the steps of a copy is kept by copying an entry. -/
theorem copyEntry (hk : Copying source target Name I) {m : String × Entry} (hname : Name m.1)
    (hI : I d) (h : DiskAct.copyEntry levels source target m d = (.ok (), d')) : I d' := by
  have hnames : ∀ n ∈ [m.1], Name n := List.forall_mem_singleton.mpr hname
  rw [DiskAct.copyEntry] at h
  split at h
  · exact hk.copyLevels [m.1] hnames hI h
  · exact hk.copy [m.1] hnames (by simp) hI (change_eq_ok_iff.mp h)

end Copying

/-- Copying keeps the working directory. -/
theorem copying_workingDirectory (source target : Path) (d : Disk) :
    Copying source target (fun _ => True) fun d' => d'.workingDirectory = d.workingDirectory where
  name _ := by
    intros
    trivial
  make names e e' _ he h := by
    have hmade := made_makeDirectories (target.along names) e
    rw [h] at hmade
    exact hmade.workingDirectory.trans he
  copy _ _ _ _ _ he h := (touched_copyFile h).workingDirectory.trans he

/-! ## A copy beside the directory -/

/-- A directory can be copied to another one: neither is within the other, and what is on the way to
the latter is there. -/
structure Beside (source target : Path) (d : Disk) : Prop where
  notBelow : ¬ d.placeOf target <+: d.placeOf source
  notAbove : ¬ d.placeOf source <+: d.placeOf target
  way : ∀ a ∈ target.above, d.look (d.placeOf a) ≠ none
  proper : Proper (d.placeOf target) d

namespace Beside

/-- What is below the one directory is not below the other. -/
theorem not_prefix_append (h : Beside source target d) (names : Location) :
    ¬ d.placeOf target <+: d.placeOf source ++ names := by
  intro hprefix
  rcases List.prefix_or_prefix_of_prefix hprefix (List.prefix_append _ names) with hp | hp
  · exact h.notBelow hp
  · exact h.notAbove hp

/-- Each step of the copy is not seen outside the directory to copy to. -/
theorem copying_sameOutside (h : Beside source target d) :
    Copying source target Path.Plain (SameOutside (d.placeOf target) d) where
  name names e cs name f hnames he hlist hmem := by
    have hlook := look_of_mem_list hlist hmem
    rw [placeOf_congr he.workingDirectory, placeOf_along hnames] at hlook
    have hnot : ¬ d.placeOf target <+: d.placeOf source ++ names ++ [name] := by
      rw [List.append_assoc]
      exact h.not_prefix_append _
    exact (h.proper.of_sameOutside he).entry _ _ hnot hlook
  make names e e' hnames he hrun := by
    have hmade := made_makeDirectories (target.along names) e
    rw [hrun] at hmade
    have hbelow : d.placeOf target <+: e.placeOf (target.along names) := by
      rw [placeOf_congr he.workingDirectory, placeOf_along hnames]
      exact List.prefix_append _ _
    refine he.trans (hmade.sameOutside ?_)
    rintro a (rfl | ha)
    · exact .inl hbelow
    · by_cases hout : d.placeOf target <+: d.placeOf a
      · rw [placeOf_congr he.workingDirectory]
        exact .inl hout
      · rcases above_along (d := d) hnames ha with hin | ha
        · exact absurd hin hout
        · rw [placeOf_congr he.workingDirectory, he.look _ hout]
          exact .inr (h.way a ha)
  copy names e e' hnames _ he hrun := by
    refine he.trans ((touched_copyFile hrun).sameOutside_of_path ?_)
    rw [placeOf_congr he.workingDirectory, placeOf_along hnames]
    exact List.prefix_append _ _

/-- Once a file has been copied, each further step keeps the bytes of the copy. -/
theorem copying_bytesAt (h : Beside source target d) (hname : Path.Plain name)
    {bytes : ByteArray} (hbytes : d.bytesAt (source.join name) = some bytes) :
    Copying source target Path.Plain fun e =>
      SameOutside (d.placeOf target) d e ∧ e.bytesAt (target.join name) = some bytes where
  name names _ _ _ _ hnames he hlist hmem := h.copying_sameOutside.name names hnames he.1 hlist hmem
  make names e e' hnames he hrun := by
    refine ⟨h.copying_sameOutside.make names hnames he.1 hrun, ?_⟩
    have hchanged := changedAt_makeDirectories (target.along names) e
    rw [hrun] at hchanged
    rw [hchanged.bytesAt_eq (Set.notMem_empty _), he.2]
  copy names e e' hnames hne he hrun := by
    refine ⟨h.copying_sameOutside.copy names hnames hne he.1 hrun, ?_⟩
    have hsource : e.placeOf (source.along names) = d.placeOf source ++ names := by
      rw [placeOf_congr he.1.workingDirectory, placeOf_along hnames]
    have htarget : e.placeOf (target.along names) = d.placeOf target ++ names := by
      rw [placeOf_congr he.1.workingDirectory, placeOf_along hnames]
    by_cases hfile : names = [name]
    · -- the same file is copied again
      subst hfile
      have hapart : e.placeOf (source.along [name]) ≠ e.placeOf (target.along [name]) := by
        rw [hsource, htarget]
        intro heq
        exact h.not_prefix_append [name] (heq ▸ List.prefix_append _ _)
      have hout : ¬ d.placeOf target <+: d.placeOf (source.join name) := by
        rw [placeOf_join hname]
        exact h.not_prefix_append _
      rw [show target.join name = target.along [name] from rfl, bytesAt_of_copyFile hrun hapart,
        ← hbytes]
      exact he.1.bytesAt_eq hout
    · have hother : e.placeOf (target.join name) ∉ ({e.placeOf (target.along names)} : Set _) := by
        rw [htarget, placeOf_congr he.1.workingDirectory, placeOf_join hname]
        intro heq
        exact hfile (List.append_cancel_left (Set.mem_singleton_iff.mp heq)).symm
      rw [(touched_copyFile hrun).changedAt.bytesAt_eq hother, he.2]

end Beside

/-- Outside the directory to copy to nothing is seen to have changed. -/
theorem sameOutside_of_copyTree (hbeside : Beside source target d)
    (h : copyTree source target d = (.ok (), d')) : SameOutside (d.placeOf target) d d' :=
  hbeside.copying_sameOutside.copyLevels [] (by simp) (.refl _ d) h

/-- A file of the directory has been copied with its bytes. -/
theorem bytesAt_of_copyLevels (hbeside : Beside source target d) (hname : Path.Plain name)
    {bytes : ByteArray} (hbytes : d.bytesAt (source.join name) = some bytes)
    (h : copyLevels (levels + 1) source target d = (.ok (), d')) :
    d'.bytesAt (target.join name) = some bytes := by
  obtain ⟨d₁, cs, hmade, hlist, hentries⟩ := copyLevels_ok h
  have hsame := hbeside.copying_sameOutside
  have hkeep := hbeside.copying_bytesAt hname hbytes
  have hout : ¬ d.placeOf target <+: d.placeOf (source.join name) := by
    rw [placeOf_join hname]
    exact hbeside.not_prefix_append _
  have hd₁ := hsame.make [] (by simp) (.refl _ d) hmade
  have hplain : ∀ m ∈ cs, Path.Plain m.1 := fun m hm =>
    hsame.name [] (by simp) hd₁ hlist hm
  -- the file is among the entries
  obtain ⟨executable, hfile⟩ : ∃ executable, d₁.at? (d₁.placeOf (source.join name)) =
      some (.file bytes executable) := by
    rw [← hd₁.bytesAt_eq hout, bytesAt, Option.map_eq_some_iff] at hbytes
    obtain ⟨⟨b, executable⟩, hfile, rfl⟩ := hbytes
    exact ⟨executable, file?_eq_some_iff.mp hfile⟩
  rw [placeOf_join hname] at hfile
  obtain ⟨before, after, rfl⟩ := List.append_of_mem (mem_list_of_at? hlist hfile)
  have hbefore : ∀ m ∈ before, ∀ e e', SameOutside (d.placeOf target) d e →
      copyEntry levels source target m e = (.ok (), e') → SameOutside (d.placeOf target) d e' :=
    fun m hm e e' he hrun => hsame.copyEntry (hplain m (by simp [hm])) he hrun
  obtain ⟨e, e', he, hrun, hafter⟩ := forM_split hbefore hd₁ hentries
  have hcopied : e.copyFile (source.join name) (target.join name) = .ok e' := by
    rw [copyEntry_file] at hrun
    exact change_eq_ok_iff.mp hrun
  have hapart : e.placeOf (source.join name) ≠ e.placeOf (target.join name) := by
    rw [placeOf_congr he.workingDirectory, placeOf_congr he.workingDirectory, placeOf_join hname,
      placeOf_join hname]
    intro heq
    exact hbeside.not_prefix_append [name] (heq ▸ List.prefix_append _ _)
  have he' : SameOutside (d.placeOf target) d e' ∧ e'.bytesAt (target.join name) = some bytes := by
    refine ⟨hsame.copyEntry hname he hrun, ?_⟩
    rw [bytesAt_of_copyFile hcopied hapart, he.bytesAt_eq hout, hbytes]
  have hkept := forM_keeps (fun m hm e e' he hrun =>
    hkeep.copyEntry (hplain m (by simp [hm])) he hrun) he' hafter
  exact hkept.2

theorem bytesAt_of_copyTree (hbeside : Beside source target d) (hname : Path.Plain name)
    {bytes : ByteArray} (hbytes : d.bytesAt (source.join name) = some bytes)
    (h : copyTree source target d = (.ok (), d')) :
    d'.bytesAt (target.join name) = some bytes :=
  bytesAt_of_copyLevels hbeside hname hbytes h

/-! ## A copy within the directory -/

/-- A directory is not copied to a place within itself: the copy that has been made so far is always
one level deeper than what has been copied. -/
theorem copyLevels_ne_ok_of_within {below : Location}
    (hworking : ∀ n ∈ d.workingDirectory, Path.Plain n)
    (hwithin : d.placeOf target = d.placeOf source ++ below) (hbelow : below ≠ [])
    (hthere : target = "" → d.look (d.placeOf target) = some none) :
    copyLevels levels source target d ≠ (.ok (), d') := by
  induction levels generalizing source target d d' below with
  | zero => exact fun h => by cases h
  | succ levels ih =>
    intro h
    obtain ⟨d₁, cs, hmade, hlist, hentries⟩ := copyLevels_ok h
    have hkeep := copying_workingDirectory source target d
    have hd₁ := hkeep.make [] (by simp) rfl hmade
    have htarget : d₁.look (d₁.placeOf target) = some none := by
      by_cases hempty : target = ""
      · subst hempty
        obtain rfl : d = d₁ := congrArg Prod.snd hmade
        exact hthere rfl
      · obtain ⟨q, hleads⟩ := leads_of_makeDirectories hempty hmade
        exact hleads.look
    -- the entry on the way to the copy is copied too
    obtain ⟨name, rest, rfl⟩ := List.exists_cons_of_ne_nil hbelow
    have hname : Path.Plain name :=
      plain_of_mem_placeOf (p := target) hworking (by rw [hwithin]; simp)
    obtain ⟨ds, hds⟩ : ∃ ds, d₁.at? (d₁.placeOf source ++ [name]) = some (.directory ds) := by
      obtain ⟨ts, hts⟩ := look_eq_directory_iff.mp htarget
      rw [placeOf_congr hd₁, hwithin, List.append_cons] at hts
      rw [placeOf_congr hd₁]
      exact exists_directory_of_at?_append hts
    obtain ⟨before, after, rfl⟩ := List.append_of_mem (mem_list_of_at? hlist hds)
    obtain ⟨e, e', he, hrun, -⟩ := forM_split
      (fun m _ e e' he hrun => hkeep.copyEntry trivial he hrun) hd₁ hentries
    have hwithin' : e.placeOf (target.join name) =
        e.placeOf (source.join name) ++ (rest ++ [name]) := by
      rw [placeOf_join hname, placeOf_join hname, placeOf_congr he, placeOf_congr he, hwithin]
      simp
    refine ih (he ▸ hworking) hwithin' (by simp) (fun hempty => ?_) hrun
    exact absurd hempty (Path.join_ne_empty hname)

/-- An entry is copied to the working directory only where that is there. -/
theorem look_of_copyEntry {m : String × Entry} (hname : Path.Plain m.1)
    (h : copyEntry levels source "" m d = (.ok (), d')) : d.look (d.placeOf "") = some none := by
  rw [copyEntry] at h
  split at h
  · cases levels with
    | zero => cases h
    | succ levels =>
      obtain ⟨d₁, cs, hmade, -, -⟩ := copyLevels_ok h
      obtain ⟨q, hleads⟩ := leads_of_makeDirectories (Path.join_ne_empty hname) hmade
      obtain ⟨above, habove, -⟩ := hleads.exists_leads hname
      have hchanged := made_makeDirectories (Path.join "" m.1) d
      rw [hmade] at hchanged
      rw [← habove.look, placeOf_congr hchanged.workingDirectory]
      -- nothing is made on the way
      rcases hchanged.look (d.placeOf "") with hsame | ⟨⟨a, rfl | ⟨n, hpos, hn, -⟩, hplace⟩, -, -⟩
      · exact hsame.symm
      · rw [placeOf_join hname] at hplace
        simp at hplace
      · rw [Path.components_join hname] at hn
        exact absurd hn (Nat.not_lt.mpr hpos)
  · obtain ⟨-, -, -, place, -, -, -, hnames, -⟩ := copyFile_eq_ok (change_eq_ok_iff.mp h)
    obtain ⟨above, habove, -⟩ := hnames.exists_leads hname
    exact habove.look

/-- A directory with something in it is not copied to a place within itself. -/
theorem copyTree_ne_ok_of_within {below : Location} (hproper : Proper (d.placeOf target) d)
    (hwithin : d.placeOf target = d.placeOf source ++ below) (hbelow : below ≠ [])
    (hentry : d.look (d.placeOf source ++ [name]) ≠ none) :
    copyTree source target d ≠ (.ok (), d') := by
  intro h
  refine copyLevels_ne_ok_of_within hproper.workingDirectory hwithin hbelow (fun hempty => ?_) h
  subst hempty
  obtain ⟨d₁, cs, hmade, hlist, hentries⟩ := copyLevels_ok h
  obtain rfl : d = d₁ := congrArg Prod.snd hmade
  obtain ⟨e, he⟩ := Option.ne_none_iff_exists'.mp fun hnone => hentry (look_eq_none_iff.mpr hnone)
  rcases cs with _ | ⟨m, rest⟩
  · exact absurd (mem_list_of_at? hlist he) List.not_mem_nil
  obtain ⟨_, d₂, hfirst, -⟩ := Act.bind_eq_ok_iff.mp hentries
  refine look_of_copyEntry ?_ hfirst
  have hlook := look_of_mem_list hlist (List.mem_cons_self (l := rest))
  by_cases hplace : d.placeOf "" <+: d.placeOf source ++ [m.1]
  · -- then the entry is the directory to copy to
    refine plain_of_mem_placeOf (p := "") hproper.workingDirectory ?_
    rw [hwithin, List.prefix_append_right_inj] at hplace
    obtain ⟨n, ns, rfl⟩ := List.exists_cons_of_ne_nil hbelow
    rw [List.cons_prefix_cons] at hplace
    rw [hwithin, ← hplace.1]
    simp
  · exact hproper.entry _ _ hplace hlook

end DiskAct

end Pipewright
