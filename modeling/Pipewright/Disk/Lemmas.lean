import Pipewright.Disk.Basic

/-!
# What is where after a change

A change at a place of a disk shows at that place and below it, and nowhere else but in the
directories on the way to it, which stay directories.

* `Entry.at?_append`: a place below a place.
* `Disk.Holds`: the directory that a place is in is there.
* `Disk.at?_alter_append`, `Disk.at?_alter_of_not_prefix`: what is at a changed place and below it,
  and what is elsewhere.
* `Disk.at?_put_append`, `Disk.at?_erase_append`: the same once an entry has been put or taken away.
-/

namespace Pipewright

namespace Entry

@[simp] theorem at?_nil (e : Entry) : e.at? [] = some e := by
  simp [at?]

theorem at?_cons (e : Entry) (name : String) (rest : Location) :
    e.at? (name :: rest) = (e.children.lookup name).bind fun child => child.at? rest := by
  rw [at?]
  cases e.children.lookup name <;> rfl

/-- What is at a place below a place is there below what is at the place. -/
theorem at?_append (e : Entry) (p q : Location) :
    e.at? (p ++ q) = (e.at? p).bind fun f => f.at? q := by
  induction p generalizing e with
  | nil => simp
  | cons name p ih =>
    rw [List.cons_append, at?_cons, at?_cons]
    cases e.children.lookup name with
    | none => rfl
    | some child => exact ih child

@[simp] theorem alter_nil (change : Option Entry → Option Entry) (e : Option Entry) :
    alter change [] e = change e := by
  simp [alter]

@[simp] theorem alter_cons_directory (change : Option Entry → Option Entry) (name : String)
    (rest : Location) (cs : List (String × Entry)) :
    alter change (name :: rest) (some (directory cs)) =
      some (directory (alterKey name (alter change rest) cs)) := by
  rw [alter]

/-- A change below what is not there, or below a file, does nothing. -/
theorem alter_cons_of_not_directory (change : Option Entry → Option Entry) (name : String)
    (rest : Location) {e : Option Entry} (h : ∀ cs, e ≠ some (directory cs)) :
    alter change (name :: rest) e = e := by
  match e with
  | none => rw [alter]; simp
  | some (file ..) => rw [alter]; simp
  | some (directory cs) => exact absurd rfl (h cs)

/-- The directory that a place is in is there below an entry.  The entry itself is in none. -/
def Holds (e : Entry) (place : Location) : Prop :=
  place = [] ∨ ∃ cs, e.at? place.dropLast = some (directory cs)

/-- What is at a place once it has been changed. -/
theorem at?_alter_self (change : Option Entry → Option Entry) {place : Location} {e : Entry}
    (h : e.Holds place) :
    ((alter change place (some e)).bind fun f => f.at? place) = change (e.at? place) := by
  induction place generalizing e with
  | nil => cases hc : change (some e) <;> simp [hc]
  | cons name rest ih =>
    obtain h | ⟨cs, h⟩ := h
    · simp at h
    · match e with
      | file .. =>
        cases rest with
        | nil => simp at h
        | cons n r => simp [at?_cons, children] at h
      | directory ds =>
        cases rest with
        | nil =>
          simp only [alter_cons_directory, at?_cons, children, lookup_alterKey, Option.bind_some,
            if_true, alter_nil, at?_nil, Option.bind_fun_some]
        | cons n r =>
          rw [List.dropLast_cons_cons, at?_cons] at h
          simp only [alter_cons_directory, Option.bind_some, at?_cons _ name, children,
            lookup_alterKey, if_true]
          simp only [children] at h
          cases hl : ds.lookup name with
          | none => simp [hl] at h
          | some child =>
            rw [hl, Option.bind_some] at h
            exact ih (.inr ⟨cs, h⟩)

/-- What is elsewhere is what it was: a change does not show at a place that is neither on the way
to the changed one nor below it. -/
theorem at?_alter_of_not_prefix (change : Option Entry → Option Entry) {place q : Location}
    {e : Entry} (h : ¬ place <+: q) (h' : ¬ q <+: place) :
    ((alter change place (some e)).bind fun f => f.at? q) = e.at? q := by
  induction place generalizing e q with
  | nil => exact absurd (by simp) h
  | cons name rest ih =>
    match e, q with
    | _, [] => exact absurd (by simp) h'
    | file .., _ => rw [alter_cons_of_not_directory _ _ _ (by simp)]; rfl
    | directory cs, k :: q =>
      simp only [alter_cons_directory, Option.bind_some, at?_cons, children, lookup_alterKey]
      split
      · next hk =>
        subst hk
        rw [List.cons_prefix_cons, not_and] at h h'
        cases hl : cs.lookup k with
        | none =>
          cases rest with
          | nil => exact absurd (by simp) (h rfl)
          | cons n r => rw [alter_cons_of_not_directory _ _ _ (by simp)]
        | some child => exact ih (h rfl) (h' rfl)
      · rfl

end Entry

namespace Disk

variable {d : Disk} {place : Location}

/-- The directory that a place is in is there.  The root is in none. -/
def Holds (d : Disk) (place : Location) : Prop :=
  d.root.Holds place

theorem root_alter (hne : place ≠ []) (change : Option Entry → Option Entry) :
    some (d.alter place change).root = Entry.alter change place (some d.root) := by
  match place with
  | [] => exact absurd rfl hne
  | name :: rest => simp only [Disk.alter, root, Entry.alter_cons_directory]

theorem at?_alter (hne : place ≠ []) (change : Option Entry → Option Entry) (q : Location) :
    (d.alter place change).at? q =
      (Entry.alter change place (some d.root)).bind fun f => f.at? q := by
  rw [← root_alter hne, Option.bind_some]
  rfl

/-- What is at a place once it has been changed. -/
theorem at?_alter_self (hne : place ≠ []) (h : d.Holds place)
    (change : Option Entry → Option Entry) :
    (d.alter place change).at? place = change (d.at? place) := by
  rw [at?_alter hne, Entry.at?_alter_self change h]
  rfl

/-- What is below a place once it has been changed. -/
theorem at?_alter_append (hne : place ≠ []) (h : d.Holds place)
    (change : Option Entry → Option Entry) (q : Location) :
    (d.alter place change).at? (place ++ q) = (change (d.at? place)).bind fun f => f.at? q := by
  rw [← at?_alter_self hne h change]
  exact Entry.at?_append _ place q

/-- What is elsewhere is what it was. -/
theorem at?_alter_of_not_prefix {q : Location} (h : ¬ place <+: q) (h' : ¬ q <+: place)
    (change : Option Entry → Option Entry) : (d.alter place change).at? q = d.at? q := by
  have hne : place ≠ [] := by
    rintro rfl
    exact h (by simp)
  rw [at?_alter hne, Entry.at?_alter_of_not_prefix change h h']
  rfl

/-- What is at a place below which an entry has been put, or at the place itself. -/
theorem at?_put_append (hne : place ≠ []) (h : d.Holds place) (e : Entry) (q : Location) :
    (d.put place e).at? (place ++ q) = e.at? q :=
  at?_alter_append hne h _ q

/-- Nothing is at a place from which the entry has been taken, nor below it. -/
theorem at?_erase_append (hne : place ≠ []) (h : d.Holds place) (q : Location) :
    (d.erase place).at? (place ++ q) = none :=
  at?_alter_append hne h _ q

end Disk

end Pipewright
