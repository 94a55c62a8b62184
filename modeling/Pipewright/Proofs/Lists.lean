import Mathlib.Algebra.BigOperators.Group.List.Basic
import Mathlib.Algebra.Order.Ring.Nat
import Mathlib.Data.List.Nodup

/-!
# Searching and counting entries

A search of a list whose entries have different keys finds at most one entry of a key.  When lists
made of the entries are searched, and the search finds what belongs to one key only, then all that
it finds is made of one entry.  Lists made of some of the entries are a part of those made of all.

* `filter_flatMap_of_nodup`: searching lists made of the entries.
* `filter_eq_singleton_of_nodup`: searching the entries.
* `flatMap_sublist_flatMap`, `flatMap_filter_eq_iff`: lists made of some of the entries.
* `exists_map_eq`: lists of values of a function.
* `exists_split_of_flatMap`: where an entry of lists made of the entries stands.
* `sum_map_add_one`: counting the entries with what each of them has.
-/

namespace Pipewright

variable {α β κ : Type} {l : List α} {a : α}

/-- When the keys of the entries differ, a search of lists made of the entries that finds nothing of
other keys finds what is made of one entry. -/
theorem filter_flatMap_of_nodup {key : α → κ} {f : α → List β} {p : β → Bool}
    (hnodup : (l.map key).Nodup) (ha : a ∈ l)
    (hother : ∀ b ∈ l, key b ≠ key a → (f b).filter p = []) :
    (l.flatMap f).filter p = (f a).filter p := by
  obtain ⟨before, after, rfl⟩ := List.append_of_mem ha
  rw [List.map_append, List.map_cons, List.nodup_append, List.nodup_cons] at hnodup
  obtain ⟨-, ⟨hafter, -⟩, hbefore⟩ := hnodup
  have hnone : ∀ m : List α, (∀ b ∈ m, (f b).filter p = []) → (m.flatMap f).filter p = [] := by
    intro m hm
    rw [List.filter_flatMap, List.flatMap_eq_nil_iff]
    exact hm
  have h₁ := hnone before fun b hb => hother b (List.mem_append_left _ hb)
    (hbefore _ (List.mem_map_of_mem hb) _ List.mem_cons_self)
  have h₂ := hnone after fun b hb =>
    hother b (List.mem_append_right _ (List.mem_cons_of_mem _ hb))
      fun heq => hafter (heq ▸ List.mem_map_of_mem hb)
  rw [List.flatMap_append, List.flatMap_cons, List.filter_append, List.filter_append, h₁, h₂,
    List.nil_append, List.append_nil]

/-- When the keys of the entries differ, there is one entry of each key. -/
theorem filter_eq_singleton_of_nodup [DecidableEq κ] {key : α → κ} (hnodup : (l.map key).Nodup)
    (ha : a ∈ l) : l.filter (fun b => key b = key a) = [a] := by
  have hone : (l.flatMap fun b => [b]).filter (fun b => key b = key a) =
      [a].filter fun b => key b = key a :=
    filter_flatMap_of_nodup hnodup ha fun b _ hne => List.filter_cons_of_neg (by simpa using hne)
  rw [List.flatMap_singleton'] at hone
  rw [hone, List.filter_cons_of_pos (by simp), List.filter_nil]

/-- Lists made of the entries of a part are a part of those made of all entries. -/
theorem flatMap_sublist_flatMap {l' : List α} (h : l.Sublist l') (f : α → List β) :
    (l.flatMap f).Sublist (l'.flatMap f) := by
  induction h with
  | slnil => exact .slnil
  | cons a _ ih => exact ih.trans (List.sublist_append_right _ _)
  | cons_cons a _ ih => exact (List.Sublist.refl (f a)).append ih

/-- An entry of lists made of the entries stands in one of them, behind those made of the entries
before. -/
theorem exists_split_of_flatMap {f : α → List β} {xs ys : List β} {b : β}
    (h : l.flatMap f = xs ++ b :: ys) :
    ∃ as a bs us vs, l = as ++ a :: bs ∧ f a = us ++ b :: vs ∧ xs = as.flatMap f ++ us := by
  induction l generalizing xs with
  | nil => exact absurd h.symm (by simp)
  | cons a l ih =>
    rw [List.flatMap_cons] at h
    obtain ⟨zs, rfl, hrest⟩ | ⟨zs, ha, hrest⟩ := List.append_eq_append_iff.mp h
    · obtain ⟨as, a', bs, us, vs, rfl, ha', rfl⟩ := ih hrest
      exact ⟨a :: as, a', bs, us, vs, rfl, ha', by rw [List.flatMap_cons, List.append_assoc]⟩
    · rcases zs with _ | ⟨z, zs⟩
      · -- the entry is the first one behind the list of `a`
        have hl : l.flatMap f = [] ++ b :: ys := by simpa using hrest.symm
        obtain ⟨as, a', bs, us, vs, rfl, ha', hnil⟩ := ih hl
        refine ⟨a :: as, a', bs, us, vs, rfl, ha', ?_⟩
        rw [List.flatMap_cons, List.append_assoc, ← hnil, List.append_nil, ha, List.append_nil]
      · obtain ⟨rfl, -⟩ := List.cons.inj hrest
        exact ⟨[], a, l, xs, zs, rfl, ha, rfl⟩

/-- A list whose entries are all values of a function is made of what has these values. -/
theorem exists_map_eq {f : β → α} {p : β → Prop} (h : ∀ a ∈ l, ∃ b, p b ∧ f b = a) :
    ∃ bs : List β, bs.map f = l ∧ ∀ b ∈ bs, p b := by
  induction l with
  | nil => exact ⟨[], rfl, List.forall_mem_nil _⟩
  | cons a l ih =>
    obtain ⟨⟨b, hb, rfl⟩, hl⟩ := List.forall_mem_cons.mp h
    obtain ⟨bs, rfl, hbs⟩ := ih hl
    exact ⟨b :: bs, rfl, List.forall_mem_cons.mpr ⟨hb, hbs⟩⟩

/-- Lists made of chosen entries are those made of all entries exactly when nothing is made of the
others. -/
theorem flatMap_filter_eq_iff {p : α → Bool} {f : α → List β} :
    (l.filter p).flatMap f = l.flatMap f ↔ ∀ a ∈ l, p a = false → f a = [] := by
  induction l with
  | nil => simp
  | cons a rest ih =>
    rw [List.forall_mem_cons, List.flatMap_cons, ← ih]
    by_cases ha : p a = true
    · rw [List.filter_cons_of_pos ha, List.flatMap_cons, List.append_right_inj]
      simp [ha]
    · rw [List.filter_cons_of_neg ha]
      have hle : ((rest.filter p).flatMap f).length ≤ (rest.flatMap f).length :=
        (flatMap_sublist_flatMap List.filter_sublist f).length_le
      constructor
      · intro heq
        have hlen := congrArg List.length heq
        rw [List.length_append] at hlen
        have hnil : f a = [] := List.length_eq_zero_iff.mp (by omega)
        rw [hnil, List.nil_append] at heq
        exact ⟨fun _ => hnil, heq⟩
      · rintro ⟨hnil, heq⟩
        rw [hnil (Bool.eq_false_iff.mpr ha), heq, List.nil_append]

/-- Each entry counts for one, and for what it has. -/
theorem sum_map_add_one (f : α → Nat) (l : List α) :
    (l.map fun a => f a + 1).sum = (l.map f).sum + l.length := by
  rw [List.sum_map_add, List.map_const', List.sum_replicate_nat, Nat.mul_one]

end Pipewright
