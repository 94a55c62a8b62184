import Mathlib.Data.List.Forall2

/-!
# Results of computations that may fail

Two computations in a row give a result when both do, and a computation done for each entry of a
list gives results entry by entry.  An error of the whole is an error of one of its parts.

* `bind_eq_ok_iff`, `bind_eq_error_iff`: two computations in a row.
* `eq_ok_of_toOption`: a result that can be compared.
* `eq_of_fst`, `exists_eq_of_fst`: a result with the state that it leaves.
* `mapError_eq_error_iff`, `mapError_eq_ok_iff`: errors told in other words.
* `mapM_eq_ok_iff`, `mapM_eq_error_iff`, `mapM_eq_some_iff`: one computation for each entry.
* `exists_mem_of_forall₂`, `exists_getElem?_of_forall₂`: what an entry of the results is the result
  of.
* `exists_forall₂`: results for all entries from a result for each.
* `mem_iff_of_mapM_eq_ok`: the results of one computation for each entry.
-/

namespace Pipewright

variable {ε α β : Type}

theorem bind_eq_ok_iff {x : Except ε α} {f : α → Except ε β} {b : β} :
    (x >>= f) = .ok b ↔ ∃ a, x = .ok a ∧ f a = .ok b := by
  cases x with
  | error e => simp [bind, Except.bind]
  | ok a => simp [bind, Except.bind]

/-- A result is there when it can be taken out. -/
theorem eq_ok_of_toOption {x : Except ε α} {a : α} (h : x.toOption = some a) : x = .ok a := by
  cases x with
  | error e => cases h
  | ok b => exact congrArg _ (Option.some.inj h)

/-- A result is left together with a state. -/
theorem eq_of_fst {x : α × β} {a : α} (h : x.1 = a) : x = (a, x.2) :=
  Prod.ext h rfl

theorem exists_eq_of_fst {x : α × β} {a : α} (h : x.1 = a) : ∃ b, x = (a, b) :=
  ⟨_, eq_of_fst h⟩

theorem bind_eq_error_iff {x : Except ε α} {f : α → Except ε β} {e : ε} :
    (x >>= f) = .error e ↔ x = .error e ∨ ∃ a, x = .ok a ∧ f a = .error e := by
  cases x with
  | error e' => simp [bind, Except.bind]
  | ok a => simp [bind, Except.bind]

/-- An error that is told in other words is one. -/
theorem mapError_eq_error_iff {ε' : Type} {x : Except ε α} {f : ε → ε'} {e : ε'} :
    x.mapError f = .error e ↔ ∃ e', x = .error e' ∧ e = f e' := by
  cases x with
  | error e' => simp [Except.mapError, eq_comm]
  | ok a => simp [Except.mapError]

/-- A result is the same however errors are told. -/
theorem mapError_eq_ok_iff {ε' : Type} {x : Except ε α} {f : ε → ε'} {a : α} :
    x.mapError f = .ok a ↔ x = .ok a := by
  cases x with
  | error e' => simp [Except.mapError]
  | ok b => simp [Except.mapError]

theorem mapM_eq_ok_iff {f : α → Except ε β} {l : List α} {r : List β} :
    l.mapM f = .ok r ↔ List.Forall₂ (fun a b => f a = .ok b) l r := by
  induction l generalizing r with
  | nil =>
    rw [List.mapM_nil, List.forall₂_nil_left_iff]
    exact ⟨fun h => (Except.ok.inj h).symm, fun h => congrArg Except.ok h.symm⟩
  | cons a l ih =>
    rw [List.mapM_cons, bind_eq_ok_iff, List.forall₂_cons_left_iff]
    constructor
    · rintro ⟨b, hb, h⟩
      obtain ⟨bs, hbs, h⟩ := bind_eq_ok_iff.mp h
      cases h
      exact ⟨b, bs, hb, ih.mp hbs, rfl⟩
    · rintro ⟨b, bs, hb, hbs, rfl⟩
      exact ⟨b, hb, bind_eq_ok_iff.mpr ⟨bs, ih.mpr hbs, rfl⟩⟩

/-- The computation for the first entry for which it fails tells the error. -/
theorem mapM_eq_error_iff {f : α → Except ε β} {l : List α} {e : ε} :
    l.mapM f = .error e ↔ ∃ before a after, l = before ++ a :: after ∧
      (∀ b ∈ before, ∃ r, f b = .ok r) ∧ f a = .error e := by
  induction l with
  | nil => simp [pure, Except.pure]
  | cons a l ih =>
    rw [List.mapM_cons, bind_eq_error_iff]
    constructor
    · rintro (ha | ⟨r, hr, h⟩)
      · exact ⟨[], a, l, rfl, by simp, ha⟩
      · obtain hl | ⟨rs, -, h⟩ := bind_eq_error_iff.mp h
        · obtain ⟨before, a', after, rfl, hbefore, ha'⟩ := ih.mp hl
          exact ⟨a :: before, a', after, rfl, List.forall_mem_cons.mpr ⟨⟨r, hr⟩, hbefore⟩, ha'⟩
        · cases h
    · rintro ⟨before, a', after, hsplit, hbefore, ha'⟩
      rcases before with _ | ⟨b, before⟩
      · obtain ⟨rfl, rfl⟩ := List.cons.inj hsplit
        exact .inl ha'
      · obtain ⟨rfl, rfl⟩ := List.cons.inj hsplit
        obtain ⟨⟨r, hr⟩, hbefore⟩ := List.forall_mem_cons.mp hbefore
        exact .inr ⟨r, hr, bind_eq_error_iff.mpr
          (.inl (ih.mpr ⟨before, a', after, rfl, hbefore, ha'⟩))⟩

/-- A computation that may have no result has one for each entry. -/
theorem mapM_eq_some_iff {f : α → Option β} {l : List α} {r : List β} :
    l.mapM f = some r ↔ List.Forall₂ (fun a b => f a = some b) l r := by
  induction l generalizing r with
  | nil =>
    rw [List.mapM_nil, List.forall₂_nil_left_iff]
    exact ⟨fun h => (Option.some.inj h).symm, fun h => congrArg some h.symm⟩
  | cons a l ih =>
    rw [List.mapM_cons, List.forall₂_cons_left_iff]
    constructor
    · intro h
      obtain ⟨b, hb, h⟩ := Option.bind_eq_some_iff.mp h
      obtain ⟨bs, hbs, h⟩ := Option.bind_eq_some_iff.mp h
      cases h
      exact ⟨b, bs, hb, ih.mp hbs, rfl⟩
    · rintro ⟨b, bs, hb, hbs, rfl⟩
      exact Option.bind_eq_some_iff.mpr
        ⟨b, hb, Option.bind_eq_some_iff.mpr ⟨bs, ih.mpr hbs, rfl⟩⟩

/-- Each entry on the right is related to one on the left. -/
theorem exists_mem_of_forall₂ {R : α → β → Prop} {l : List α} {r : List β} {b : β}
    (h : List.Forall₂ R l r) (hb : b ∈ r) : ∃ a ∈ l, R a b := by
  induction h with
  | nil => cases hb
  | cons hR _ ih =>
    rcases List.mem_cons.mp hb with rfl | hb
    · exact ⟨_, List.mem_cons_self, hR⟩
    · obtain ⟨a, ha, hR'⟩ := ih hb
      exact ⟨a, List.mem_cons_of_mem _ ha, hR'⟩

/-- An entry on the left is related to the one in the same place on the right. -/
theorem exists_getElem?_of_forall₂ {R : α → β → Prop} {l : List α} {r : List β}
    (h : List.Forall₂ R l r) {i : Nat} {a : α} (ha : l[i]? = some a) :
    ∃ b, r[i]? = some b ∧ R a b := by
  induction h generalizing i with
  | nil => cases ha
  | @cons c d l r hcd _ ih =>
    cases i with
    | zero =>
      cases ha
      exact ⟨d, rfl, hcd⟩
    | succ i => exact ih ha

/-- When each entry is related to something, there is a list of what the entries are related to. -/
theorem exists_forall₂ {R : α → β → Prop} {l : List α} (h : ∀ a ∈ l, ∃ b, R a b) :
    ∃ r, List.Forall₂ R l r := by
  induction l with
  | nil => exact ⟨[], .nil⟩
  | cons a l ih =>
    obtain ⟨b, hb⟩ := h a List.mem_cons_self
    obtain ⟨r, hr⟩ := ih fun a' ha' => h a' (List.mem_cons_of_mem _ ha')
    exact ⟨b :: r, .cons hb hr⟩

/-- The results are those of the entries. -/
theorem mem_iff_of_mapM_eq_ok {f : α → Except ε β} {l : List α} {r : List β}
    (h : l.mapM f = .ok r) {b : β} : b ∈ r ↔ ∃ a ∈ l, f a = .ok b := by
  have hall := mapM_eq_ok_iff.mp h
  refine ⟨exists_mem_of_forall₂ hall, ?_⟩
  rintro ⟨a, ha, hb⟩
  obtain ⟨b', hb', ha'⟩ := exists_mem_of_forall₂ hall.flip ha
  obtain rfl : b = b' := Except.ok.inj (hb.symm.trans ha')
  exact hb'

end Pipewright
