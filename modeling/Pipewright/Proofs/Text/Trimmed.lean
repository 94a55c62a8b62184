import Mathlib.Data.List.Infix
import Mathlib.Data.List.TakeWhile
import Pipewright.Text.Blank

/-!
# Texts with white space around them

A text that has no white space at its ends can be told from the white space around it: trimming
gives the text back, and what stands somewhere in the whole and has no white space at its ends
either stands in the text.

* `Bare`: a text that is not empty and has no white space at its ends.
* `trimStart_append`, `trimEnd_append`: white space on one side.
* `trim_eq_iff`: white space on both sides.
* `infix_around_iff`: what stands in a text with white space around it.
-/

namespace Pipewright.Text

variable {cs l r needle : List Char}

/-- The text starts and ends with characters that are not white space. -/
def Bare (cs : List Char) : Prop :=
  cs.head?.any (!isSpace ·) = true ∧ cs.getLast?.any (!isSpace ·) = true

instance : DecidablePred Bare := fun _ => inferInstanceAs (Decidable (_ ∧ _))

theorem Bare.reverse (h : Bare cs) : Bare cs.reverse := by
  rw [Bare, List.head?_reverse, List.getLast?_reverse]
  exact And.symm h

theorem Bare.head?_append (h : Bare cs) (r : List Char) :
    (cs ++ r).head?.any (!isSpace ·) = true := by
  rcases cs with _ | ⟨a, rest⟩
  · cases h.1
  · exact h.1

/-! ## Trimming -/

/-- White space is cut at the start up to the first other character. -/
theorem trimStart_append (hl : ∀ c ∈ l, isSpace c = true)
    (hcs : cs.head?.any (!isSpace ·) = true) : trimStart (l ++ cs) = cs := by
  rcases cs with _ | ⟨a, rest⟩
  · cases hcs
  · rw [trimStart, List.dropWhile_append_of_pos hl, List.dropWhile_cons_of_neg (by simpa using hcs)]

/-- What is cut at the start is the white space in front. -/
theorem takeWhile_isSpace_append (hl : ∀ c ∈ l, isSpace c = true)
    (hcs : cs.head?.any (!isSpace ·) = true) : (l ++ cs).takeWhile isSpace = l := by
  rcases cs with _ | ⟨a, rest⟩
  · cases hcs
  · rw [List.takeWhile_append_of_pos hl, List.takeWhile_cons_of_neg (by simpa using hcs),
      List.append_nil]

/-- Trimming at the end is trimming at the start, backwards. -/
theorem trimEnd_eq (cs : List Char) : trimEnd cs = (trimStart cs.reverse).reverse :=
  rfl

theorem trimEnd_append (hr : ∀ c ∈ r, isSpace c = true) (hcs : Bare cs) :
    trimEnd (cs ++ r) = cs := by
  rw [trimEnd_eq, List.reverse_append,
    trimStart_append (fun c hc => hr c (List.mem_reverse.mp hc)) hcs.reverse.1,
    List.reverse_reverse]

theorem takeWhile_append_trimStart (cs : List Char) : cs.takeWhile isSpace ++ trimStart cs = cs :=
  List.takeWhile_append_dropWhile

theorem exists_trimEnd_append (cs : List Char) :
    ∃ r, cs = trimEnd cs ++ r ∧ ∀ c ∈ r, isSpace c = true := by
  refine ⟨(cs.reverse.takeWhile isSpace).reverse, ?_, fun c hc => ?_⟩
  · rw [trimEnd_eq, ← List.reverse_append, takeWhile_append_trimStart, List.reverse_reverse]
  · exact List.mem_takeWhile_imp (List.mem_reverse.mp hc)

/-- A text without white space at its ends is what trimming leaves exactly when there is nothing but
white space around it. -/
theorem trim_eq_iff {s m : String} (hm : Bare m.toList) :
    trim s = m ↔ ∃ l r, s.toList = l ++ m.toList ++ r ∧ (∀ c ∈ l, isSpace c = true) ∧
      ∀ c ∈ r, isSpace c = true := by
  constructor
  · rintro rfl
    obtain ⟨r, hr, hspace⟩ := exists_trimEnd_append (trimStart s.toList)
    refine ⟨s.toList.takeWhile isSpace, r, ?_, fun c hc => List.mem_takeWhile_imp hc, hspace⟩
    rw [trim, String.toList_ofList, List.append_assoc, ← hr, takeWhile_append_trimStart]
  · rintro ⟨l, r, hs, hl, hr⟩
    rw [trim, hs, List.append_assoc, trimStart_append hl (hm.head?_append r), trimEnd_append hr hm,
      String.ofList_toList]

/-! ## Finding -/

/-- What starts with another character than white space does not start in the white space. -/
theorem infix_of_infix_append (hl : ∀ c ∈ l, isSpace c = true)
    (hneedle : needle.head?.any (!isSpace ·) = true) (h : needle <:+: l ++ cs) :
    needle <:+: cs := by
  induction l with
  | nil => exact h
  | cons a l ih =>
    rw [List.forall_mem_cons] at hl
    rw [List.cons_append, List.infix_cons_iff] at h
    rcases h with h | h
    · rcases needle with _ | ⟨b, needle⟩
      · cases hneedle
      · obtain ⟨rfl, -⟩ := List.cons_prefix_cons.mp h
        simp [hl.1] at hneedle
    · exact ih hl.2 h

/-- What has no white space at its ends stands in a text with white space around it exactly when it
stands in the text. -/
theorem infix_around_iff (hl : ∀ c ∈ l, isSpace c = true) (hr : ∀ c ∈ r, isSpace c = true)
    (hneedle : Bare needle) : needle <:+: l ++ cs ++ r ↔ needle <:+: cs := by
  constructor
  · intro h
    rw [List.append_assoc] at h
    have hback := List.reverse_infix.mpr (infix_of_infix_append hl hneedle.1 h)
    rw [List.reverse_append] at hback
    exact List.reverse_infix.mp (infix_of_infix_append
      (fun c hc => hr c (List.mem_reverse.mp hc)) hneedle.reverse.1 hback)
  · intro h
    exact h.trans (List.infix_append l cs r)

end Pipewright.Text
