import Pipewright.Disk.Files
import Pipewright.Disk.Lemmas
import Pipewright.Proofs.Results

/-!
# Where paths lead

A path is followed along a trail of the entries that have been passed.  All that the trail tells
can be looked up on the disk: an entry that has been passed is the one at the place where it was
met.  So names lead from place to place, and two disks that agree about places agree about paths.

* `Disk.lead`: where names lead from a place; `walk_eq_lead`: a walk along a trail does the same.
* `Disk.locate_eq_ok_iff`: where a path leads, by the names along it.
* `Disk.NameStep`, `Disk.lead_cons_eq_ok_iff`: what one name can do on the way.
* `Disk.lead_concat`: the last name of a path is looked up in a directory.
* `Disk.HasPlace`: a target tells what is at its place, in a directory that is there.
* `Disk.placeOf`: the place of a path; `Disk.place_of_locate`: where the path leads, if it leads
  anywhere.
-/

namespace Pipewright

namespace Disk

variable {d : Disk} {place q : Location} {name : String} {cs : List (String × Entry)} {t : Target}

/-! ## Names -/

/-- The entries of a directory are at the places below it. -/
theorem at?_concat (h : d.at? place = some (.directory cs)) (name : String) :
    d.at? (place ++ [name]) = cs.lookup name := by
  rw [at?, Entry.at?_append]
  rw [at?] at h
  rw [h, Option.bind_some, Entry.at?_cons, Entry.children]
  simp

/-- What is above an entry is a directory. -/
theorem exists_directory_of_at?_concat {e : Entry} (h : d.at? (place ++ [name]) = some e) :
    ∃ cs, d.at? place = some (.directory cs) := by
  rw [at?, Entry.at?_append] at h
  rcases hplace : d.root.at? place with _ | (_ | cs)
  · rw [hplace] at h
    cases h
  · rw [hplace, Option.bind_some, Entry.at?_cons] at h
    cases h
  · exact ⟨cs, hplace⟩

/-- What is above a directory is a directory. -/
theorem exists_directory_of_at?_append {below : Location}
    (h : d.at? (place ++ below) = some (.directory cs)) :
    ∃ ds, d.at? place = some (.directory ds) := by
  rw [at?, Entry.at?_append] at h
  rcases hplace : d.root.at? place with _ | (_ | ds)
  · rw [hplace] at h
    cases h
  · rw [hplace] at h
    cases below with
    | nil => cases h
    | cons name rest =>
      rw [Option.bind_some, Entry.at?_cons] at h
      cases h
  · exact ⟨ds, hplace⟩

/-- Where names lead from a place. -/
def lead (d : Disk) (place : Location) : List String → Except DiskFault Target
  | [] => .ok ⟨place, d.at? place⟩
  | name :: rest =>
    match d.at? place with
    | some (.directory _) =>
      if name = "." then d.lead place rest
      else if name = ".." then d.lead place.dropLast rest
      else if nameLimit < name.utf8ByteSize then .error .nameTooLong
      else if (d.at? (place ++ [name])).isSome then d.lead (place ++ [name]) rest
      else if rest.isEmpty then .ok ⟨place ++ [name], none⟩
      else .error .notFound
    | _ => .error .notDirectory

@[simp] theorem lead_nil : d.lead place [] = .ok ⟨place, d.at? place⟩ := rfl

/-- Names lead on from a directory only. -/
theorem exists_directory_of_lead {rest : List String} (h : d.lead place (name :: rest) = .ok t) :
    ∃ cs, d.at? place = some (.directory cs) := by
  rw [lead] at h
  rcases hplace : d.at? place with _ | (_ | cs)
  · rw [hplace] at h
    cases h
  · rw [hplace] at h
    cases h
  · exact ⟨cs, rfl⟩

/-- The step that one name makes from a directory. -/
theorem lead_cons (h : d.at? place = some (.directory cs)) (name : String) (rest : List String) :
    d.lead place (name :: rest) =
      if name = "." then d.lead place rest
      else if name = ".." then d.lead place.dropLast rest
      else if nameLimit < name.utf8ByteSize then .error .nameTooLong
      else if (d.at? (place ++ [name])).isSome then d.lead (place ++ [name]) rest
      else if rest.isEmpty then .ok ⟨place ++ [name], none⟩
      else .error .notFound := by
  rw [lead, h]

/-! ## One name on the way -/

/-- The name is looked up in a directory: it is neither of the two that stay and go back, and it is
not too long. -/
structure LookedUp (name : String) : Prop where
  notStay : name ≠ "."
  notBack : name ≠ ".."
  short : ¬ nameLimit < name.utf8ByteSize

/-- What becomes of the first of some names that lead from a directory to a target. -/
inductive NameStep (d : Disk) (place : Location) (name : String) (rest : List String)
    (t : Target) : Prop where
  | stay (hname : name = ".") (hrest : d.lead place rest = .ok t)
  | back (hname : name = "..") (hrest : d.lead place.dropLast rest = .ok t)
  | down (hname : LookedUp name) {e : Entry} (hchild : d.at? (place ++ [name]) = some e)
      (hrest : d.lead (place ++ [name]) rest = .ok t)
  /-- Only the last name may be that of nothing. -/
  | missing (hname : LookedUp name) (hchild : d.at? (place ++ [name]) = none) (hrest : rest = [])
      (ht : t = ⟨place ++ [name], none⟩)

/-- Names lead somewhere when the first one does what it can do in a directory. -/
theorem lead_cons_eq_ok_iff {rest : List String} :
    d.lead place (name :: rest) = .ok t ↔
      (∃ cs, d.at? place = some (.directory cs)) ∧ d.NameStep place name rest t := by
  constructor
  · intro h
    obtain ⟨cs, hcs⟩ := exists_directory_of_lead h
    refine ⟨⟨cs, hcs⟩, ?_⟩
    rw [lead_cons hcs] at h
    split at h
    · next hname => exact .stay hname h
    split at h
    · next hname => exact .back hname h
    split at h
    · cases h
    next hstay hback hshort =>
    split at h
    · next hchild =>
      obtain ⟨e, he⟩ := Option.isSome_iff_exists.mp hchild
      exact .down ⟨hstay, hback, hshort⟩ he h
    split at h
    · next hchild hrest =>
      cases h
      exact .missing ⟨hstay, hback, hshort⟩ (Option.not_isSome_iff_eq_none.mp hchild)
        (List.isEmpty_iff.mp hrest) rfl
    · cases h
  · rintro ⟨⟨cs, hcs⟩, hstep⟩
    rw [lead_cons hcs]
    rcases hstep with ⟨hname, hrest⟩ | ⟨hname, hrest⟩ | ⟨hname, hchild, hrest⟩ |
      ⟨hname, hchild, hrest, ht⟩
    · rw [if_pos hname, hrest]
    · rw [if_neg (by rw [hname]; decide), if_pos hname, hrest]
    · rw [if_neg hname.notStay, if_neg hname.notBack, if_neg hname.short, hchild,
        Option.isSome_some, if_pos rfl, hrest]
    · rw [if_neg hname.notStay, if_neg hname.notBack, if_neg hname.short, hchild, hrest, ht]
      rfl

/-! ## Trails -/

/-- The entries of a trail are at the places where it has passed them. -/
def Trail.On (d : Disk) : Trail → Prop
  | [] => True
  | m :: trail => d.at? (Trail.place (m :: trail)) = some m.2 ∧ Trail.On d trail

@[simp] theorem Trail.place_nil : Trail.place [] = [] := rfl

@[simp] theorem Trail.place_cons (m : String × Entry) (trail : Trail) :
    Trail.place (m :: trail) = trail.place ++ [m.1] := by
  simp [Trail.place]

/-- The entry at the end of a trail is at its place. -/
theorem Trail.On.at?_place {trail : Trail} (h : trail.On d) :
    d.at? trail.place = some ((trail.head?.map Prod.snd).getD d.root) := by
  cases trail with
  | nil => simp [at?]
  | cons m trail => exact h.1

/-- A walk along a trail goes where names lead from the place of the trail. -/
theorem walk_eq_lead {trail : Trail} (h : trail.On d) (names : List String) :
    d.walk trail names = d.lead trail.place names := by
  induction names generalizing trail with
  | nil => rw [walk, lead_nil, h.at?_place]
  | cons name rest ih =>
    have htop := h.at?_place
    rw [walk]
    rcases hentry : (trail.head?.map Prod.snd).getD d.root with ⟨bytes, executable⟩ | cs
    · rw [hentry] at htop
      rw [lead, htop]
    · rw [hentry] at htop
      -- going back takes an entry from the trail and the last name from its place
      have hback : Trail.On d (trail.drop 1) := by
        cases trail with
        | nil => exact h
        | cons m trail => exact h.2
      have hbackPlace : Trail.place (trail.drop 1) = trail.place.dropLast := by
        cases trail with
        | nil => rfl
        | cons m trail => simp
      simp only [lead_cons htop, at?_concat htop]
      split
      · exact ih h
      · split
        · rw [ih hback, hbackPlace]
        · split
          · rfl
          · cases hchild : cs.lookup name with
            | none => simp
            | some e =>
              have hon : Trail.On d ((name, e) :: trail) :=
                ⟨by rw [Trail.place_cons, at?_concat htop, hchild], h⟩
              simpa using ih hon

/-! ## Targets -/

/-- An entry that is there is in a directory that is there. -/
theorem holds_of_at? {e : Entry} (h : d.at? place = some e) : d.Holds place := by
  rcases List.eq_nil_or_concat place with rfl | ⟨above, name, rfl⟩
  · exact .inl rfl
  · rw [List.concat_eq_append] at h ⊢
    obtain ⟨cs, hcs⟩ := exists_directory_of_at?_concat h
    exact .inr ⟨cs, by rwa [List.dropLast_concat]⟩

/-- The directory above an entry is there, and so is the root above itself. -/
theorem isSome_at?_dropLast (h : d.at? place = some (.directory cs)) :
    (d.at? place.dropLast).isSome = true := by
  rcases holds_of_at? h with rfl | ⟨ds, hds⟩
  · rw [List.dropLast_nil, h, Option.isSome_some]
  · exact Option.isSome_iff_exists.mpr ⟨_, hds⟩

/-- A target tells what is at its place, and the place is in a directory that is there. -/
structure HasPlace (d : Disk) (t : Target) : Prop where
  entry_eq : t.entry = d.at? t.place
  holds : d.Holds t.place

/-- Names that lead somewhere lead to a place in a directory. -/
theorem hasPlace_of_lead {names : List String} (hplace : (d.at? place).isSome = true)
    (h : d.lead place names = .ok t) : d.HasPlace t := by
  induction names generalizing place with
  | nil =>
    cases h
    obtain ⟨e, he⟩ := Option.isSome_iff_exists.mp hplace
    exact ⟨rfl, holds_of_at? he⟩
  | cons name rest ih =>
    obtain ⟨⟨cs, hcs⟩, hstep⟩ := lead_cons_eq_ok_iff.mp h
    rcases hstep with ⟨-, hrest⟩ | ⟨-, hrest⟩ | ⟨-, hchild, hrest⟩ | ⟨-, hchild, -, rfl⟩
    · exact ih hplace hrest
    · exact ih (isSome_at?_dropLast hcs) hrest
    · exact ih (by rw [hchild, Option.isSome_some]) hrest
    · exact ⟨hchild.symm, .inr ⟨cs, by rwa [List.dropLast_concat]⟩⟩

/-- Names that lead somewhere lead to a directory first, in which the last name is looked up. -/
theorem lead_concat {names : List String} (h : d.lead place (names ++ [name]) = .ok t) :
    ∃ q cs, d.lead place names = .ok ⟨q, some (.directory cs)⟩ ∧ d.lead q [name] = .ok t := by
  induction names generalizing place with
  | nil =>
    obtain ⟨cs, hcs⟩ := exists_directory_of_lead h
    exact ⟨place, cs, by rw [lead_nil, hcs], h⟩
  | cons n rest ih =>
    obtain ⟨hdirectory, hstep⟩ := lead_cons_eq_ok_iff.mp h
    rcases hstep with ⟨hn, hrest⟩ | ⟨hn, hrest⟩ | ⟨hn, hchild, hrest⟩ | ⟨-, -, hrest, -⟩
    · obtain ⟨q, cs, hq, hlast⟩ := ih hrest
      exact ⟨q, cs, lead_cons_eq_ok_iff.mpr ⟨hdirectory, .stay hn hq⟩, hlast⟩
    · obtain ⟨q, cs, hq, hlast⟩ := ih hrest
      exact ⟨q, cs, lead_cons_eq_ok_iff.mpr ⟨hdirectory, .back hn hq⟩, hlast⟩
    · obtain ⟨q, cs, hq, hlast⟩ := ih hrest
      exact ⟨q, cs, lead_cons_eq_ok_iff.mpr ⟨hdirectory, .down hn hchild hq⟩, hlast⟩
    · exact absurd hrest (List.append_ne_nil_of_right_ne_nil _ (List.cons_ne_nil _ _))

/-- A name that is neither of the two that stay and go back leads to the place that is called so. -/
theorem place_of_lead_singleton (h : d.lead q [name] = .ok t) (hstay : name ≠ ".")
    (hback : name ≠ "..") : t.place = q ++ [name] := by
  obtain ⟨-, hstep⟩ := lead_cons_eq_ok_iff.mp h
  rcases hstep with ⟨hname, -⟩ | ⟨hname, -⟩ | ⟨-, -, hrest⟩ | ⟨-, -, -, rfl⟩
  · exact absurd hname hstay
  · exact absurd hname hback
  · cases hrest
    rfl
  · rfl

/-- Going nowhere or back from a directory leads to a directory. -/
theorem directory_of_lead_singleton (h : d.lead q [name] = .ok t)
    (hname : name = "." ∨ name = "..") : ∃ cs, t.entry = some (.directory cs) := by
  obtain ⟨⟨cs, hcs⟩, hstep⟩ := lead_cons_eq_ok_iff.mp h
  have hspecial : ¬ LookedUp name := by
    intro hlooked
    rcases hname with hname | hname
    · exact hlooked.notStay hname
    · exact hlooked.notBack hname
  rcases hstep with ⟨-, hrest⟩ | ⟨-, hrest⟩ | ⟨hlooked, -, -⟩ | ⟨hlooked, -, -, -⟩
  · cases hrest
    exact ⟨cs, hcs⟩
  · cases hrest
    rcases holds_of_at? hcs with rfl | ⟨ds, hds⟩
    · exact ⟨cs, hcs⟩
    · exact ⟨ds, hds⟩
  · exact absurd hlooked hspecial
  · exact absurd hlooked hspecial

/-- Names lead to a file, or to nothing, by way of directories, so they lead there on each disk that
has these directories. -/
theorem lead_of_directories {d' : Disk} {names : List String} {entry : Option Entry} {e : Entry}
    (hdir : ∀ p cs, d.at? p = some (.directory cs) → ∃ cs', d'.at? p = some (.directory cs'))
    (h : d.lead place names = .ok ⟨q, entry⟩) (hentry : ∀ cs, entry ≠ some (.directory cs))
    (he : d'.at? q = some e) : d'.lead place names = .ok ⟨q, some e⟩ := by
  induction names generalizing place with
  | nil =>
    cases h
    rw [lead_nil, he]
  | cons name rest ih =>
    obtain ⟨⟨cs, hcs⟩, hstep⟩ := lead_cons_eq_ok_iff.mp h
    refine lead_cons_eq_ok_iff.mpr ⟨hdir place cs hcs, ?_⟩
    rcases hstep with ⟨hname, hrest⟩ | ⟨hname, hrest⟩ | ⟨hname, hchild, hrest⟩ |
      ⟨hname, -, rfl, htarget⟩
    · exact .stay hname (ih hrest)
    · exact .back hname (ih hrest)
    · -- the child is a directory, or else the end of the way
      cases rest with
      | nil =>
        cases hrest
        exact .down hname he (by rw [lead_nil, he])
      | cons n rest =>
        obtain ⟨ds, hds⟩ := exists_directory_of_lead hrest
        obtain ⟨ds', hds'⟩ := hdir _ ds hds
        exact .down hname hds' (ih hrest)
    · cases htarget
      exact .down hname he (by rw [lead_nil, he])

end Disk

/-! ## Paths -/

/-- The path can name something on some disk. -/
structure Path.Usable (p : Path) : Prop where
  noZero : '\x00' ∉ p.toList
  notEmpty : ¬ p.isEmpty
  short : ¬ Disk.pathLimit ≤ p.utf8ByteSize

namespace Disk

variable {d : Disk} {p : Path} {t : Target}

/-- The names along a path from the root. -/
def way (d : Disk) (p : Path) : List String :=
  (if p.isAbsolute then [] else d.workingDirectory) ++ p.names

/-- A path leads where the names along it lead from the root. -/
theorem locate_eq_ok_iff : d.locate p = .ok t ↔ p.Usable ∧ d.lead [] (d.way p) = .ok t := by
  have hon : Trail.On d [] := trivial
  have hwalk : d.walk [] (d.way p) = d.lead [] (d.way p) := walk_eq_lead hon _
  rw [locate]
  constructor
  · intro h
    split at h
    · cases h
    split at h
    · cases h
    split at h
    · cases h
    next hzero hempty hlong =>
    exact ⟨⟨hzero, hempty, hlong⟩, hwalk ▸ h⟩
  · rintro ⟨⟨hzero, hempty, hlong⟩, h⟩
    rw [if_neg hzero, if_neg hempty, if_neg hlong]
    exact hwalk ▸ h

/-- A path that leads somewhere leads to a place in a directory. -/
theorem hasPlace_of_locate (h : d.locate p = .ok t) : d.HasPlace t :=
  hasPlace_of_lead rfl (locate_eq_ok_iff.mp h).2

/-! ## The place of a path

No entry stands for another one, so where a path leads can be read off its names: a name goes down,
and only the two special names stay or go back. -/

/-- The place that a name stands for when it is met at a place. -/
def nextPlace (place : Location) (name : String) : Location :=
  if name = "." then place else if name = ".." then place.dropLast else place ++ [name]

theorem nextPlace_of_lookedUp {name : String} (h : LookedUp name) (place : Location) :
    nextPlace place name = place ++ [name] := by
  rw [nextPlace, if_neg h.notStay, if_neg h.notBack]

/-- Names lead to the place that they stand for one after the other. -/
theorem place_of_lead {place : Location} {names : List String} (h : d.lead place names = .ok t) :
    t.place = names.foldl nextPlace place := by
  induction names generalizing place with
  | nil =>
    cases h
    rfl
  | cons name rest ih =>
    obtain ⟨-, hstep⟩ := lead_cons_eq_ok_iff.mp h
    rw [List.foldl_cons]
    rcases hstep with ⟨rfl, hrest⟩ | ⟨rfl, hrest⟩ | ⟨hname, -, hrest⟩ | ⟨hname, -, rfl, rfl⟩
    · exact ih hrest
    · exact ih hrest
    · rw [nextPlace_of_lookedUp hname]
      exact ih hrest
    · exact (nextPlace_of_lookedUp hname place).symm

/-- The place of a path. -/
def placeOf (d : Disk) (p : Path) : Location :=
  (d.way p).foldl nextPlace []

/-- Where a path leads, if it leads anywhere, is its place. -/
theorem place_of_locate (h : d.locate p = .ok t) : t.place = d.placeOf p :=
  place_of_lead (locate_eq_ok_iff.mp h).2

/-- Places are the same on disks with the same working directory. -/
theorem placeOf_congr {d' : Disk} (h : d'.workingDirectory = d.workingDirectory) (p : Path) :
    d'.placeOf p = d.placeOf p := by
  rw [placeOf, placeOf, way, way, h]

end Disk

end Pipewright
