/-!
# Values by key

Directories, JSON objects and tables are lists of pairs of a key and a value.  The value of a key
is the one that stands first, and `List.lookup` finds it.

* `alterKey`: a list with the value of one key changed; `lookup_alterKey` tells what is looked up in
  it.
* `putKey`: a list in the order of the keys with a value put in; `lookup_putKey` and
  `keysInOrder_putKey` tell what is looked up in it and that it stays in order.
* `sortKeys`: a list put in the order of its keys.
-/

namespace Pipewright

theorem lookup_cons_eq {α : Type} (k j : String) (a : α) (l : List (String × α)) :
    ((j, a) :: l).lookup k = if k = j then some a else l.lookup k := by
  by_cases h : k = j
  · simp [h]
  · rw [List.lookup_cons, beq_eq_false_iff_ne.2 h, if_neg h]

theorem lookup_filter_ne {α : Type} (key k : String) (l : List (String × α)) :
    (l.filter fun m => m.1 ≠ key).lookup k = if k = key then none else l.lookup k := by
  induction l with
  | nil => simp
  | cons m rest ih => grind [lookup_cons_eq]

/-! ## Changing the value of a key -/

/-- The list with what `change` makes of the value of a key.  A key that is new comes last, and a
key without a value goes.  The key is there at most once after that. -/
def alterKey {α : Type} (key : String) (change : Option α → Option α) :
    List (String × α) → List (String × α)
  | [] => ((change none).map fun a => (key, a)).toList
  | (k, a) :: rest =>
    if k = key then
      ((change (some a)).map fun b => (k, b)).toList ++ rest.filter fun m => m.1 ≠ key
    else (k, a) :: alterKey key change rest

/-- The value of the key is what has been made of it, and the values of other keys are what they
were. -/
theorem lookup_alterKey {α : Type} (key : String) (change : Option α → Option α)
    (l : List (String × α)) (k : String) :
    (alterKey key change l).lookup k = if k = key then change (l.lookup key) else l.lookup k := by
  induction l with
  | nil => cases h : change none <;> simp [alterKey, h, lookup_cons_eq]
  | cons m rest ih =>
    obtain ⟨j, a⟩ := m
    rw [alterKey]
    split
    · next hj =>
      subst hj
      rw [List.lookup_append, lookup_filter_ne]
      cases h : change (some a) <;> simp [lookup_cons_eq, h] <;> grind
    · simp only [lookup_cons_eq, ih]
      grind

/-! ## Lists in the order of the keys -/

/-- Puts a value under a key, in front of the first greater key.  A key that is met on the way gets
the new value. -/
def putKey {α : Type} (l : List (String × α)) (key : String) (value : α) : List (String × α) :=
  match l with
  | [] => [(key, value)]
  | (k, v) :: rest =>
    if key = k then (key, value) :: rest
    else if key < k then (key, value) :: (k, v) :: rest
    else (k, v) :: putKey rest key value

/-- The key has the value that has been put under it, and other keys have the values that they
had. -/
theorem lookup_putKey {α : Type} (l : List (String × α)) (key : String) (value : α) (k : String) :
    (putKey l key value).lookup k = if k = key then some value else l.lookup k := by
  induction l with
  | nil => simp [putKey, lookup_cons_eq]
  | cons m rest ih =>
    obtain ⟨j, a⟩ := m
    rw [putKey]
    split
    · next h => simp only [lookup_cons_eq, h]; grind
    · split
      · simp only [lookup_cons_eq]
      · next h _ => simp only [lookup_cons_eq, ih]; grind

/-- The keys of a list stand in order, each once. -/
def KeysInOrder {α : Type} (l : List (String × α)) : Prop :=
  l.Pairwise fun m n => m.1 < n.1

theorem mem_putKey {α : Type} {l : List (String × α)} {key : String} {value : α}
    {m : String × α} (h : m ∈ putKey l key value) : m = (key, value) ∨ m ∈ l := by
  induction l with
  | nil => simpa [putKey] using h
  | cons n rest ih =>
    obtain ⟨j, a⟩ := n
    rw [putKey] at h
    grind

/-- A list in the order of its keys stays so when a value is put in. -/
theorem keysInOrder_putKey {α : Type} {l : List (String × α)} (h : KeysInOrder l) (key : String)
    (value : α) : KeysInOrder (putKey l key value) := by
  induction l with
  | nil => simp [putKey, KeysInOrder]
  | cons n rest ih =>
    obtain ⟨j, a⟩ := n
    obtain ⟨hj, hrest⟩ := List.pairwise_cons.1 h
    rw [putKey]
    split
    · next he =>
      subst he
      exact List.pairwise_cons.2 ⟨hj, hrest⟩
    · split
      · next _ hlt =>
        refine List.pairwise_cons.2 ⟨fun m hm => ?_, h⟩
        obtain rfl | hm := List.mem_cons.1 hm
        · exact hlt
        · exact String.lt_trans hlt (hj m hm)
      · next hne hlt =>
        refine List.pairwise_cons.2 ⟨fun m hm => ?_, ih hrest⟩
        obtain rfl | hm := mem_putKey hm
        · exact Decidable.byContradiction fun hc =>
            hne (String.le_antisymm (String.not_lt.1 hc) (String.not_lt.1 hlt))
        · exact hj m hm

/-- The list in the order of its keys, with the last value of each key. -/
def sortKeys {α : Type} (l : List (String × α)) : List (String × α) :=
  l.foldl (fun soFar m => putKey soFar m.1 m.2) []

end Pipewright
