import Mathlib.Data.Set.Insert
import Pipewright.Proofs.Disk.Lead

/-!
# What is seen at places

At a place there is nothing, a directory, or a file with its bytes.  A change at a place that is not
that of a directory shows at this place and nowhere else: the directories above it stay directories,
and below it there has been nothing and is nothing.

* `Disk.look`, `Disk.file?`: what is seen at a place, and the file there.
* `Disk.look_alter`: a change at one place.
* `Disk.Touched`: nothing is seen to have changed but at certain places.
-/

namespace Pipewright

namespace Entry

/-- The bytes of a file, and whether it can be run. -/
def file? : Entry → Option (ByteArray × Bool)
  | file bytes executable => some (bytes, executable)
  | directory _ => none

theorem at?_cons_of_children_eq_nil {e : Entry} (h : e.children = []) (name : String)
    (rest : Location) : e.at? (name :: rest) = none := by
  rw [at?_cons, h]
  rfl

variable {change : Option Entry → Option Entry} {place q : Location} {e : Option Entry}

/-- A change at a place without a directory is not seen at other places, so long as it puts nothing
below the place. -/
theorem look_alter_of_ne (hplace : ∀ cs, e.bind (fun f => f.at? place) ≠ some (directory cs))
    (hchange : ∀ f, change (e.bind fun f => f.at? place) = some f → f.children = [])
    (hne : q ≠ place) :
    ((alter change place e).bind fun f => f.at? q).map file? =
      (e.bind fun f => f.at? q).map file? := by
  induction place generalizing e q with
  | nil =>
    rcases q with _ | ⟨k, q⟩
    · exact absurd rfl hne
    -- below the changed place there is nothing, neither before nor after
    have hafter : ((change e).bind fun f => f.at? (k :: q)) = none := by
      rcases h : change e with _ | f
      · rfl
      · exact at?_cons_of_children_eq_nil (hchange f (by simpa using h)) k q
    rcases e with _ | (_ | cs)
    · rw [alter_nil, hafter]
      rfl
    · rw [alter_nil, hafter]
      rfl
    · exact absurd rfl (hplace cs)
  | cons name rest ih =>
    rcases e with _ | (_ | cs)
    · rw [alter_cons_of_not_directory _ _ _ (by simp)]
    · rw [alter_cons_of_not_directory _ _ _ (by simp)]
    · rw [alter_cons_directory]
      rcases q with _ | ⟨k, q⟩
      · rfl
      simp only [Option.bind_some, at?_cons, children, lookup_alterKey] at hplace hchange ⊢
      by_cases hk : k = name
      · subst hk
        rw [if_pos rfl]
        exact ih hplace hchange fun h => hne (h ▸ rfl)
      · rw [if_neg hk]

end Entry

namespace Disk

variable {d d' d'' : Disk} {place q : Location} {places places' : Set Location}

/-- What is seen at a place: nothing, a directory, or a file with its bytes and whether it can be
run. -/
def look (d : Disk) (q : Location) : Option (Option (ByteArray × Bool)) :=
  (d.at? q).map Entry.file?

/-- The file at a place, if there is one. -/
def file? (d : Disk) (q : Location) : Option (ByteArray × Bool) :=
  (d.at? q).bind Entry.file?

theorem file?_eq_join (d : Disk) (q : Location) : d.file? q = (d.look q).join := by
  rw [file?, look]
  cases d.at? q <;> rfl

theorem look_eq_directory_iff :
    d.look q = some none ↔ ∃ cs, d.at? q = some (.directory cs) := by
  rw [look]
  rcases d.at? q with _ | (_ | _) <;> simp [Entry.file?]

theorem look_ne_directory_iff :
    d.look q ≠ some none ↔ ∀ cs, d.at? q ≠ some (.directory cs) := by
  rw [ne_eq, look_eq_directory_iff, not_exists]

theorem look_eq_file_iff {bytes : ByteArray} {executable : Bool} :
    d.look q = some (some (bytes, executable)) ↔ d.at? q = some (.file bytes executable) := by
  rw [look]
  rcases d.at? q with _ | (_ | _) <;> simp [Entry.file?]

theorem look_eq_none_iff : d.look q = none ↔ d.at? q = none := by
  rw [look, Option.map_eq_none_iff]

theorem file?_eq_some_iff {bytes : ByteArray} {executable : Bool} :
    d.file? q = some (bytes, executable) ↔ d.at? q = some (.file bytes executable) := by
  rw [file?]
  rcases d.at? q with _ | (_ | _) <;> simp [Entry.file?]

/-! ## One change -/

/-- The root is a directory, so a place without one is not the root. -/
theorem ne_nil_of_not_directory (h : ∀ cs, d.at? place ≠ some (.directory cs)) : place ≠ [] := by
  rintro rfl
  exact h d.children rfl

/-- A change at a place without a directory is not seen elsewhere, so long as it puts nothing below
the place. -/
theorem look_alter {change : Option Entry → Option Entry}
    (hplace : ∀ cs, d.at? place ≠ some (.directory cs))
    (hchange : ∀ f, change (d.at? place) = some f → f.children = []) (hq : q ≠ place) :
    (d.alter place change).look q = d.look q := by
  rw [look, at?_alter (ne_nil_of_not_directory hplace)]
  exact Entry.look_alter_of_ne hplace hchange hq

/-- From one disk to the other nothing is seen to have changed but at certain places, none of which
has been or becomes that of a directory. -/
structure Touched (places : Set Location) (d d' : Disk) : Prop where
  workingDirectory : d'.workingDirectory = d.workingDirectory
  notDirectory : ∀ q ∈ places, d.look q ≠ some none
  notMade : ∀ q ∈ places, d'.look q ≠ some none
  look : ∀ q, q ∉ places → d'.look q = d.look q

theorem Touched.trans_self (h : Touched places d d') (h' : Touched places d' d'') :
    Touched places d d'' where
  workingDirectory := h'.workingDirectory.trans h.workingDirectory
  notDirectory := h.notDirectory
  notMade := h'.notMade
  look q hq := (h'.look q hq).trans (h.look q hq)

/-- A change at a place without a directory that puts no directory there. -/
theorem touched_alter {change : Option Entry → Option Entry}
    (hplace : ∀ cs, d.at? place ≠ some (.directory cs)) (hholds : d.Holds place)
    (hchange : ∀ f, change (d.at? place) = some f → f.file? ≠ none) :
    Touched {place} d (d.alter place change) where
  workingDirectory := by
    rw [alter]
    split <;> rfl
  notDirectory q hq := by
    rw [Set.mem_singleton_iff.mp hq]
    exact look_ne_directory_iff.mpr hplace
  notMade q hq := by
    rw [Set.mem_singleton_iff.mp hq, Disk.look, at?_alter_self (ne_nil_of_not_directory hplace) hholds]
    intro hmade
    obtain ⟨f, hf, hnone⟩ := Option.map_eq_some_iff.mp hmade
    exact hchange f hf hnone
  look q hq := by
    refine look_alter hplace (fun f hf => ?_) hq
    rcases f with _ | cs
    · rfl
    · exact absurd rfl (hchange _ hf)

theorem touched_put_file (hplace : ∀ cs, d.at? place ≠ some (.directory cs))
    (hholds : d.Holds place) (bytes : ByteArray) (executable : Bool) :
    Touched {place} d (d.put place (.file bytes executable)) := by
  refine touched_alter hplace hholds fun f hf => ?_
  obtain rfl := Option.some.inj hf
  exact Option.some_ne_none _

end Disk

end Pipewright
