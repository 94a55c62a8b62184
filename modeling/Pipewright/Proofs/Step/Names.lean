import Mathlib
import Pipewright.Proofs.Text.Lines
import Pipewright.Step.Name

/-!
# The letters of names

The name of a step is made of ASCII letters and digits, and so is the label of its process.  None
of the characters that stand behind a name in a line of the workflow is one of them.

* `isAlphanum_of_mem_camelCase`: a word in camel case is made of letters and digits.
* `StepName.Lettered`: a name is made of letters and digits; `StepName.lettered_of`: the names of
  steps are.
* `StepName.label_eq_label_iff`: names with one label differ in the case of letters only.
-/

namespace Pipewright

/-! ## Characters -/

theorem isAlphanum_toUpper {c : Char} (h : c.isAlphanum = true) : c.toUpper.isAlphanum = true := by
  by_cases hlower : c.isLower = true
  · have halpha : c.toUpper.isAlpha = true := by
      simp [Char.isAlpha, hlower]
    rw [Char.isAlphanum, halpha, Bool.true_or]
  · rwa [Char.toUpper_eq_of_not_isLower hlower]

theorem isAlphanum_toLower {c : Char} (h : c.isAlphanum = true) : c.toLower.isAlphanum = true := by
  by_cases hupper : c.isUpper = true
  · have halpha : c.toLower.isAlpha = true := by
      simp [Char.isAlpha, hupper]
    rw [Char.isAlphanum, halpha, Bool.true_or]
  · rwa [Char.toLower_eq_of_not_isUpper hupper]

/-! ## Words -/

/-- Joined words hold the characters of the words, some of them in upper case. -/
theorem exists_of_mem_joinWords {ws : List (List Char)} {c : Char} (h : c ∈ joinWords ws) :
    ∃ w ∈ ws, ∃ b ∈ w, c = b ∨ c = b.toUpper := by
  cases ws with
  | nil => cases h
  | cons w ws =>
    rcases List.mem_append.mp h with hc | hc
    · exact ⟨w, List.mem_cons_self, c, hc, .inl rfl⟩
    · obtain ⟨v, hv, hc⟩ := List.mem_flatMap.mp hc
      cases v with
      | nil => cases hc
      | cons b v =>
        refine ⟨b :: v, List.mem_cons_of_mem _ hv, ?_⟩
        rcases List.mem_cons.mp hc with rfl | hc
        · exact ⟨b, List.mem_cons_self, .inr rfl⟩
        · exact ⟨c, List.mem_cons_of_mem _ hc, .inl rfl⟩

/-- A word in camel case is made of letters and digits. -/
theorem isAlphanum_of_mem_camelCase {s : String} {c : Char} (h : c ∈ (camelCase s).toList) :
    c.isAlphanum = true := by
  rw [camelCase, String.toList_ofList] at h
  obtain ⟨w, hw, b, hb, hc⟩ := exists_of_mem_joinWords h
  obtain ⟨hmem, hne⟩ := Text.mem_of_mem_splitOn hw hb
  obtain ⟨a, ha, rfl⟩ := List.mem_map.mp hmem
  have hkept : a.isAlphanum = true := by
    have hname := (List.mem_filter.mp ha).2
    rw [isNameChar, Bool.or_eq_true, decide_eq_true_iff] at hname
    rcases hname with hname | rfl
    · exact hname
    · exact absurd (by decide) hne
  rcases hc with rfl | rfl
  · exact isAlphanum_toLower hkept
  · exact isAlphanum_toUpper (isAlphanum_toLower hkept)

/-! ## Names of steps -/

namespace StepName

variable {name : StepName}

/-- The name is made of ASCII letters and digits. -/
def Lettered (name : StepName) : Prop :=
  ∀ c ∈ name.text.toList, c.isAlphanum = true

/-- The names of steps are made of letters and digits. -/
theorem lettered_of {node : Node} (h : of node = .ok name) : name.Lettered := by
  rw [of] at h
  rcases hbase : base? node.attributes with _ | base
  · rw [hbase] at h
    cases h
  · rw [hbase] at h
    cases h
    exact fun c hc => isAlphanum_of_mem_camelCase hc

/-- The label of a process is made of letters and digits. -/
theorem Lettered.isAlphanum_of_mem_label (h : name.Lettered) {c : Char}
    (hc : c ∈ name.label.toList) : c.isAlphanum = true := by
  rw [label, String.toList_ofList] at hc
  obtain ⟨b, hb, rfl⟩ := List.mem_map.mp hc
  exact isAlphanum_toUpper (h b hb)

/-- Two names have one label exactly when they differ at most in the case of letters. -/
theorem label_eq_label_iff {name' : StepName} :
    name.label = name'.label ↔ name.text.toLower = name'.text.toLower := by
  have hlower (n : StepName) :
      n.text.toLower = String.ofList (n.label.toList.map Char.toLower) := by
    rw [label, String.toList_ofList, List.map_map, ← String.toList_inj, String.toList_ofList,
      String.toLower, String.toList_map]
    exact List.map_congr_left fun c _ => (Char.toLower_toUpper_eq_toLower c).symm
  have hupper (n : StepName) :
      n.label = String.ofList (n.text.toLower.toList.map Char.toUpper) := by
    rw [label, String.toLower, String.toList_map, List.map_map]
    exact congrArg _ (List.map_congr_left fun c _ => (Char.toUpper_toLower_eq_toUpper c).symm)
  constructor
  · intro heq
    rw [hlower name, hlower name', heq]
  · intro heq
    rw [hupper name, hupper name', heq]

end StepName

end Pipewright
