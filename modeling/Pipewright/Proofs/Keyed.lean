import Mathlib.Data.List.Nodup
import Pipewright.Keyed

/-!
# Lists in the order of their keys

A list that is in the order of its keys is what putting its values in one after the other makes.
Sorting brings a list into that order and keeps of each key the last value.  When the keys of a list
differ, what is looked up in it tells what is in it; and when they stand in order as well, it tells
the list.

* `putKey_eq_append`: a greater key comes last.
* `keysInOrder_sortKeys`, `mem_of_mem_sortKeys`, `lookup_sortKeys`: what sorting makes.
* `lookup_eq_some_iff_mem`: looking up in a list whose keys differ.
* `KeysInOrder.eq_of_lookup`, `KeysInOrder.lookup_filter`: looking up in lists in order.
-/

namespace Pipewright

variable {α : Type} {l : List (String × α)}

/-- A greater key comes last. -/
theorem putKey_eq_append {key : String} (h : ∀ m ∈ l, m.1 < key) (a : α) :
    putKey l key a = l ++ [(key, a)] := by
  induction l with
  | nil => rfl
  | cons m l ih =>
    obtain ⟨hm, hl⟩ := List.forall_mem_cons.mp h
    have hne : key ≠ m.1 := fun heq => String.lt_irrefl key (heq ▸ hm)
    have hnlt : ¬ key < m.1 := fun hlt => String.lt_irrefl key (String.lt_trans hlt hm)
    rw [putKey, if_neg hne, if_neg hnlt, ih hl, List.cons_append]

/-- What is made of a list by putting in the values of another one. -/
theorem lookup_foldl_putKey (ms l : List (String × α)) (key : String) :
    (ms.foldl (fun soFar m => putKey soFar m.1 m.2) l).lookup key =
      (ms.reverse.lookup key).or (l.lookup key) := by
  induction ms generalizing l with
  | nil => rfl
  | cons m ms ih =>
    rw [List.foldl_cons, ih, lookup_putKey, List.reverse_cons, List.lookup_append, Option.or_assoc,
      lookup_cons_eq, List.lookup_nil]
    by_cases hkey : key = m.1
    · rw [if_pos hkey, if_pos hkey, Option.some_or]
    · rw [if_neg hkey, if_neg hkey, Option.none_or]

/-- Sorting keeps the last value of each key. -/
theorem lookup_sortKeys (l : List (String × α)) (key : String) :
    (sortKeys l).lookup key = l.reverse.lookup key := by
  rw [sortKeys, lookup_foldl_putKey, List.lookup_nil, Option.or_none]

theorem keysInOrder_sortKeys (l : List (String × α)) : KeysInOrder (sortKeys l) :=
  List.foldlRecOn l _ List.Pairwise.nil fun _ h m _ => keysInOrder_putKey h m.1 m.2

theorem mem_of_mem_sortKeys {m : String × α} (h : m ∈ sortKeys l) : m ∈ l := by
  have hall : ∀ n ∈ sortKeys l, n ∈ l := by
    refine List.foldlRecOn l (motive := fun soFar => ∀ n ∈ soFar, n ∈ l) _
      (List.forall_mem_nil _) fun soFar h k hk n hn => ?_
    obtain rfl | hn := mem_putKey hn
    · exact hk
    · exact h n hn
  exact hall m h

/-! ## Lists whose keys differ -/

theorem lookup_eq_none_iff_notMem {key : String} :
    l.lookup key = none ↔ key ∉ l.map Prod.fst := by
  rw [List.lookup_eq_none_iff, List.mem_map]
  constructor
  · rintro h ⟨m, hm, rfl⟩
    simpa using h m hm
  · intro h m hm
    rw [bne_iff_ne]
    rintro rfl
    exact h ⟨m, hm, rfl⟩

/-- What is looked up in a list whose keys differ is what stands there. -/
theorem lookup_eq_some_iff_mem (hl : (l.map Prod.fst).Nodup) {key : String} {a : α} :
    l.lookup key = some a ↔ (key, a) ∈ l := by
  induction l with
  | nil => simp
  | cons m l ih =>
    obtain ⟨k, b⟩ := m
    rw [List.map_cons, List.nodup_cons] at hl
    obtain ⟨hk, hl⟩ := hl
    rw [lookup_cons_eq, List.mem_cons, Prod.mk.injEq]
    by_cases hkey : key = k
    · subst hkey
      have hnot : (key, a) ∉ l := fun hmem => hk (List.mem_map.mpr ⟨_, hmem, rfl⟩)
      simp [hnot, eq_comm]
    · rw [if_neg hkey, ih hl]
      simp [hkey]

/-- In a list whose keys differ it does not matter from which end a key is looked up. -/
theorem lookup_reverse_of_nodup (hl : (l.map Prod.fst).Nodup) (key : String) :
    l.reverse.lookup key = l.lookup key := by
  have hreverse : (l.reverse.map Prod.fst).Nodup := by
    rw [List.map_reverse, List.nodup_reverse]
    exact hl
  ext a
  rw [lookup_eq_some_iff_mem hreverse, lookup_eq_some_iff_mem hl, List.mem_reverse]

/-- Sorting a list whose keys differ does not change what is looked up. -/
theorem lookup_sortKeys_of_nodup (hl : (l.map Prod.fst).Nodup) (key : String) :
    (sortKeys l).lookup key = l.lookup key := by
  rw [lookup_sortKeys, lookup_reverse_of_nodup hl]

namespace KeysInOrder

variable {l' : List (String × α)}

/-- Keys in order differ. -/
theorem nodup (h : KeysInOrder l) : (l.map Prod.fst).Nodup := by
  rw [List.Nodup, List.pairwise_map]
  refine h.imp ?_
  intro m n hlt heq
  rw [heq] at hlt
  exact String.lt_irrefl _ hlt

theorem filter (h : KeysInOrder l) (p : String × α → Bool) : KeysInOrder (l.filter p) :=
  List.Pairwise.filter p h

/-- Lists in order in which the same is looked up are the same. -/
theorem eq_of_lookup (h : KeysInOrder l) (h' : KeysInOrder l')
    (hlookup : ∀ key, l.lookup key = l'.lookup key) : l = l' := by
  have hmem : ∀ m, m ∈ l ↔ m ∈ l' := by
    rintro ⟨key, a⟩
    rw [← lookup_eq_some_iff_mem h.nodup, ← lookup_eq_some_iff_mem h'.nodup, hlookup]
  have hperm : l.Perm l' :=
    (List.perm_ext_iff_of_nodup h.nodup.of_map h'.nodup.of_map).mpr hmem
  refine List.Perm.eq_of_pairwise (fun m n _ _ hmn hnm => ?_) h h' hperm
  exact absurd (String.lt_trans hmn hnm) (String.lt_irrefl _)

/-- Sorting what is in order changes nothing. -/
theorem sortKeys_eq (h : KeysInOrder l) : sortKeys l = l := by
  refine eq_of_lookup (keysInOrder_sortKeys l) h fun key => ?_
  exact lookup_sortKeys_of_nodup h.nodup key

/-- A chosen part of the list has the values of the keys that are chosen with them. -/
theorem lookup_filter (h : KeysInOrder l) (p : String × α → Bool) (key : String) :
    (l.filter p).lookup key = (l.lookup key).filter fun a => p (key, a) := by
  ext a
  rw [lookup_eq_some_iff_mem (h.filter p).nodup, List.mem_filter, Option.filter_eq_some_iff,
    lookup_eq_some_iff_mem h.nodup]

end KeysInOrder

end Pipewright
