import Mathlib.Data.List.Count
import Pipewright.Project.Generate
import Pipewright.Proofs.Composition.Slots
import Pipewright.Proofs.Text.Trimmed

/-!
# The grammar of skeletons

A text is read line by line, with the places so far at hand, and reading stops at the first line
that is at fault.  What is read can be told of the text as a whole: a skeleton has each marker on
one line, and no marker shares its line.

* `Slot.Marks`, `Slot.marks_iff_of_trim_eq`: the markers that a line holds.
* `Skeleton.Marked`: the texts that are skeletons; `Skeleton.Orderly`: no line is at fault.
* `Skeleton.Fails`: the fault of a text that is none; `Skeleton.Fails.eq`: there is one.
* `Skeleton.outcome_parseLines`: what is read of lines, whatever the lines before them.
* `Skeleton.parse_grammar`: the main statement.
-/

namespace Pipewright

/-! ## Markers -/

namespace Slot

variable {line : String} {s t : Slot}

/-- The line holds the marker of the place. -/
def Marks (s : Slot) (line : String) : Prop :=
  Text.occursIn s.marker line = true

instance (s : Slot) (line : String) : Decidable (s.Marks line) :=
  inferInstanceAs (Decidable (_ = true))

/-- The first of the places for which something holds, in the order of the places. -/
def First (p : Slot → Prop) (s : Slot) : Prop :=
  p s ∧ ∃ before after, all = before ++ s :: after ∧ ∀ t ∈ before, ¬ p t

theorem find?_all_eq_some_iff {p : Slot → Prop} [DecidablePred p] :
    all.find? (fun t => decide (p t)) = some s ↔ First p s := by
  rw [List.find?_eq_some_iff_append, First]
  simp only [decide_eq_true_eq, Bool.not_eq_true', decide_eq_false_iff_not]

/-- There is one first place. -/
theorem First.eq {p : Slot → Prop} (hs : First p s) (ht : First p t) : s = t := by
  classical
  exact Option.some.inj ((find?_all_eq_some_iff.mpr hs).symm.trans (find?_all_eq_some_iff.mpr ht))

theorem inLine?_eq_none_iff : inLine? line = none ↔ ∀ s, ¬ Marks s line := by
  rw [inLine?, List.find?_eq_none]
  exact ⟨fun h s => h s (mem_all s), fun h s _ => h s⟩

theorem inLine?_eq_some_iff : inLine? line = some s ↔ First (Marks · line) s := by
  have hfind : inLine? line = all.find? fun t => decide (t.Marks line) :=
    congrArg (all.find? ·) (funext fun t => Bool.decide_eq_true.symm)
  rw [hfind, find?_all_eq_some_iff]

/-- No marker has white space at its ends. -/
theorem bare_marker (s : Slot) : Text.Bare s.marker.toList := by
  cases s <;> decide

/-- No marker stands in another one. -/
theorem marker_infix_marker_iff : t.marker.toList <:+: s.marker.toList ↔ t = s := by
  cases t <;> cases s <;> decide

/-- A line that is a marker with white space around it holds that marker only. -/
theorem marks_iff_of_trim_eq (h : Text.trim line = s.marker) : t.Marks line ↔ t = s := by
  obtain ⟨l, r, hline, hl, hr⟩ := (Text.trim_eq_iff s.bare_marker).mp h
  rw [Marks, Text.occursIn_iff, hline, Text.infix_around_iff hl hr t.bare_marker,
    marker_infix_marker_iff]

end Slot

namespace Skeleton

variable {line source : String} {lines before rest after : List String} {s : Slot}
  {fault fault' : SkeletonFault}

/-! ## Skeletons -/

/-- The lines of a skeleton: each marker stands on one line, alone. -/
structure Marked (lines : List String) : Prop where
  once : ∀ s : Slot, lines.countP (Text.occursIn s.marker) = 1
  alone : ∀ line ∈ lines, ∀ s : Slot, s.Marks line → Text.trim line = s.marker

/-- A line that stands behind others is at fault when it holds a marker that is not alone, or one
that stands before. -/
def Offends (before : List String) (line : String) : Prop :=
  ∃ s : Slot, s.Marks line ∧
    (Text.trim line ≠ s.marker ∨ ∃ earlier ∈ before, s.Marks earlier)

/-- No line is at fault. -/
def Orderly (lines : List String) : Prop :=
  ∀ before line after, lines = before ++ line :: after → ¬ Offends before line

theorem orderly_nil : Orderly [] := by
  intro before line after h
  exact absurd h (by simp)

/-- Behind lines of which none is at fault there may be one more that is not at fault. -/
theorem orderly_concat_iff :
    Orderly (lines ++ [line]) ↔ Orderly lines ∧ ¬ Offends lines line := by
  constructor
  · intro h
    exact ⟨fun before l after hsplit => h before l (after ++ [line]) (by simp [hsplit]),
      h lines line [] rfl⟩
  · rintro ⟨h, hline⟩ before l after hsplit
    rcases List.eq_nil_or_concat after with rfl | ⟨after, l', rfl⟩
    · obtain ⟨rfl, heq⟩ := List.append_inj' hsplit rfl
      rwa [← List.singleton_inj.mp heq]
    · rw [List.concat_eq_append, ← List.cons_append, ← List.append_assoc] at hsplit
      exact h before l after (List.append_inj' hsplit rfl).1

/-- A text is a skeleton exactly when no line is at fault and no marker is missing. -/
theorem marked_iff :
    Marked lines ↔ Orderly lines ∧ ∀ s : Slot, ∃ line ∈ lines, s.Marks line := by
  constructor
  · intro h
    constructor
    · rintro before line after rfl ⟨s, hmarks, hshared | ⟨earlier, hearlier, hmarks'⟩⟩
      · exact hshared (h.alone line (by simp) s hmarks)
      · -- the marker would be counted twice
        have hone := h.once s
        have hpos := List.countP_pos_iff.mpr ⟨earlier, hearlier, hmarks'⟩
        rw [List.countP_append, List.countP_cons_of_pos hmarks] at hone
        omega
    · intro s
      exact List.countP_pos_iff.mp (by rw [h.once s]; exact Nat.one_pos)
  · rintro ⟨horderly, hall⟩
    constructor
    · intro s
      obtain ⟨line, hline, hmarks⟩ := hall s
      obtain ⟨before, after, rfl⟩ := List.append_of_mem hline
      have hbefore : before.countP (Text.occursIn s.marker) = 0 := by
        refine List.countP_eq_zero.mpr fun earlier hearlier hmarks' => ?_
        exact horderly before line after rfl ⟨s, hmarks, .inr ⟨earlier, hearlier, hmarks'⟩⟩
      have hafter : after.countP (Text.occursIn s.marker) = 0 := by
        refine List.countP_eq_zero.mpr fun later hlater hmarks' => ?_
        obtain ⟨between, rest, rfl⟩ := List.append_of_mem hlater
        exact horderly (before ++ line :: between) later rest (by simp)
          ⟨s, hmarks', .inr ⟨line, by simp, hmarks⟩⟩
      rw [List.countP_append, List.countP_cons_of_pos hmarks, hbefore, hafter]
    · intro line hline s hmarks
      obtain ⟨before, after, rfl⟩ := List.append_of_mem hline
      by_contra hshared
      exact horderly before line after rfl ⟨s, hmarks, .inl hshared⟩

/-! ## Faults -/

/-- The fault of a line that stands behind others.  Of several markers in the line the first one is
told. -/
inductive LineFault (before : List String) (line : String) : SkeletonFault → Prop where
  | sharedLine {s : Slot} (hfirst : Slot.First (Slot.Marks · line) s)
      (hshared : Text.trim line ≠ s.marker) :
      LineFault before line (.sharedLine (before.length + 1) s)
  | repeated {s : Slot} (halone : Text.trim line = s.marker)
      (hearlier : ∃ earlier ∈ before, s.Marks earlier) :
      LineFault before line (.repeated (before.length + 1) s)

/-- Why lines are no skeleton: the first line that is at fault, or else the first marker that is
missing. -/
inductive Fails (lines : List String) : SkeletonFault → Prop where
  | line {before after : List String} {line : String} {fault : SkeletonFault}
      (hsplit : lines = before ++ line :: after) (hbefore : Orderly before)
      (hfault : LineFault before line fault) : Fails lines fault
  | missing {s : Slot} (horderly : Orderly lines)
      (hfirst : Slot.First (fun t => ∀ line ∈ lines, ¬ t.Marks line) s) : Fails lines (.missing s)

theorem LineFault.offends (h : LineFault before line fault) : Offends before line := by
  cases h with
  | sharedLine hfirst hshared => exact ⟨_, hfirst.1, .inl hshared⟩
  | repeated halone hearlier =>
    exact ⟨_, (Slot.marks_iff_of_trim_eq halone).mpr rfl, .inr hearlier⟩

theorem LineFault.eq (h : LineFault before line fault) (h' : LineFault before line fault') :
    fault = fault' := by
  cases h with
  | sharedLine hfirst hshared =>
    cases h' with
    | sharedLine hfirst' hshared' => rw [hfirst.eq hfirst']
    | repeated halone' hearlier' =>
      obtain rfl := (Slot.marks_iff_of_trim_eq halone').mp hfirst.1
      exact absurd halone' hshared
  | repeated halone hearlier =>
    cases h' with
    | sharedLine hfirst' hshared' =>
      obtain rfl := (Slot.marks_iff_of_trim_eq halone).mp hfirst'.1
      exact absurd halone hshared'
    | repeated halone' hearlier' =>
      have hsame := (Slot.marks_iff_of_trim_eq halone).mp
        ((Slot.marks_iff_of_trim_eq halone').mpr rfl)
      rw [hsame]

/-- There is one first line at fault. -/
theorem eq_of_offends {before' after' : List String} {line' : String}
    (hsplit : before ++ line :: after = before' ++ line' :: after') (hbefore : Orderly before)
    (hline : Offends before line) (hbefore' : Orderly before') (hline' : Offends before' line') :
    before = before' ∧ line = line' := by
  rcases List.append_eq_append_iff.mp hsplit with ⟨between, rfl, h⟩ | ⟨between, rfl, h⟩
  · rcases between with _ | ⟨l, between⟩
    · exact ⟨(List.append_nil _).symm, (List.cons.inj h).1⟩
    · obtain ⟨rfl, -⟩ := List.cons.inj h
      exact absurd hline (hbefore' before line between rfl)
  · rcases between with _ | ⟨l, between⟩
    · exact ⟨List.append_nil _, (List.cons.inj h).1.symm⟩
    · obtain ⟨rfl, -⟩ := List.cons.inj h
      exact absurd hline' (hbefore before' line' between rfl)

/-- There is one reason why lines are no skeleton. -/
theorem Fails.eq (h : Fails lines fault) (h' : Fails lines fault') : fault = fault' := by
  cases h with
  | line hsplit hbefore hfault =>
    cases h' with
    | line hsplit' hbefore' hfault' =>
      obtain ⟨rfl, rfl⟩ := eq_of_offends (hsplit.symm.trans hsplit') hbefore hfault.offends
        hbefore' hfault'.offends
      exact hfault.eq hfault'
    | missing horderly' hfirst' => exact absurd hfault.offends (horderly' _ _ _ hsplit)
  | missing horderly hfirst =>
    cases h' with
    | line hsplit' hbefore' hfault' => exact absurd hfault'.offends (horderly _ _ _ hsplit')
    | missing horderly' hfirst' => rw [hfirst.eq hfirst']

theorem Fails.not_marked (h : Fails lines fault) : ¬ Marked lines := by
  rw [marked_iff]
  rintro ⟨horderly, hall⟩
  cases h with
  | line hsplit hbefore hfault => exact horderly _ _ _ hsplit hfault.offends
  | missing horderly hfirst =>
    obtain ⟨line, hline, hmarks⟩ := hall _
    exact hfirst.1 line hline hmarks

/-! ## Reading -/

/-- What can come of reading lines: they are a skeleton, or they fail for the reason told. -/
def Outcome {α : Type} (lines : List String) : Except SkeletonFault α → Prop
  | .ok _ => Marked lines
  | .error fault => Fails lines fault

theorem Outcome.cons {segments : Except SkeletonFault (List Segment)} (h : Outcome lines segments)
    (segment : Segment) : Outcome lines (do return segment :: (← segments)) := by
  cases segments <;> exact h

variable {seen : List Slot} {segment : Segment}

/-- A line that cannot be read behind others is at fault. -/
theorem lineFault_of_segmentOf (hseen : ∀ s : Slot, s ∈ seen ↔ ∃ line ∈ before, s.Marks line)
    (h : segmentOf (before.length + 1) seen line = .error fault) : LineFault before line fault := by
  rw [segmentOf] at h
  split at h
  · cases h
  · next s hfound =>
    split at h
    · next hshared =>
      cases h
      exact .sharedLine (Slot.inLine?_eq_some_iff.mp hfound) hshared
    · next halone =>
      split at h
      · next hold =>
        cases h
        exact .repeated (Decidable.not_not.mp halone) ((hseen s).mp hold)
      · cases h

/-- A line that is read behind others is not at fault, and its segment tells the place whose marker
it holds. -/
theorem not_offends_of_segmentOf (hseen : ∀ s : Slot, s ∈ seen ↔ ∃ line ∈ before, s.Marks line)
    {number : Nat} (h : segmentOf number seen line = .ok segment) :
    ¬ Offends before line ∧ ∀ s : Slot, s ∈ segment.slot?.toList ↔ s.Marks line := by
  obtain ⟨hreads, hnew⟩ := segmentOf_ok h
  cases hreads with
  | text hnone =>
    rw [Slot.inLine?_eq_none_iff] at hnone
    exact ⟨fun ⟨s, hmarks, _⟩ => hnone s hmarks, fun s => iff_of_false List.not_mem_nil (hnone s)⟩
  | @slot s hfound halone =>
    refine ⟨?_, fun t => List.mem_singleton.trans (Slot.marks_iff_of_trim_eq halone).symm⟩
    rintro ⟨t, hmarks, hfault⟩
    obtain rfl := (Slot.marks_iff_of_trim_eq halone).mp hmarks
    rcases hfault with hshared | hearlier
    · exact hshared halone
    · exact hnew t rfl ((hseen t).mpr hearlier)

/-- Lines are read behind others of which none is at fault, and whose places have been seen. -/
theorem outcome_parseLines (horderly : Orderly before)
    (hseen : ∀ s : Slot, s ∈ seen ↔ ∃ line ∈ before, s.Marks line) :
    Outcome (before ++ rest) (parseLines (before.length + 1) seen rest) := by
  induction rest generalizing before seen with
  | nil =>
    rw [parseLines, List.append_nil]
    split
    · next s hmissing =>
      have habsent : (fun t : Slot => ∀ line ∈ before, ¬ t.Marks line) = (· ∉ seen) :=
        funext fun t => propext (by rw [hseen]; simp)
      refine Fails.missing horderly ?_
      rw [habsent]
      exact Slot.find?_all_eq_some_iff.mp hmissing
    · next hnone =>
      refine marked_iff.mpr ⟨horderly, fun s => (hseen s).mp ?_⟩
      simpa using List.find?_eq_none.mp hnone s s.mem_all
  | cons line rest ih =>
    rw [parseLines]
    cases hsegment : segmentOf (before.length + 1) seen line with
    | error fault => exact Fails.line rfl horderly (lineFault_of_segmentOf hseen hsegment)
    | ok segment =>
      obtain ⟨hline, hslots⟩ := not_offends_of_segmentOf hseen hsegment
      have hseen' : ∀ s : Slot, s ∈ segment.slot?.toList ++ seen ↔
          ∃ l ∈ before ++ [line], s.Marks l := by
        intro s
        rw [List.mem_append, hslots, hseen]
        simp [or_and_right, exists_or, or_comm]
      have hrest := ih (orderly_concat_iff.mpr ⟨horderly, hline⟩) hseen'
      rw [List.append_assoc, List.length_append] at hrest
      exact hrest.cons segment

/-- A text is read as a skeleton, or there is a reason why it is none. -/
theorem outcome_parse (source : String) : Outcome (Text.lines source) (parse source) := by
  have hlines : Outcome (Text.lines source) (parseLines 1 [] (Text.lines source)) :=
    outcome_parseLines orderly_nil fun s => by simp
  rw [parse]
  cases hparse : parseLines 1 [] (Text.lines source) <;> rw [hparse] at hlines <;> exact hlines

/-- A text is a skeleton exactly when each marker stands on one line of it, and no marker shares its
line.  If it is none, then for the first line at fault, that is, for the first line with a marker
that shares its line or stands on a line before; or, if no line is at fault, for the first marker
that is missing.  A project whose skeleton is such a text is not made, and that is the error. -/
theorem parse_grammar (source : String) :
    ((∃ skeleton, parse source = .ok skeleton) ↔ Marked (Text.lines source)) ∧
    (∀ fault, parse source = .error fault ↔ Fails (Text.lines source) fault) ∧
    ∀ (settings : GenerationSettings) (d : Disk), d.readText settings.skeletonPath = .ok source →
      ∀ e, settings.loadSkeleton d = .error e ↔
        ∃ fault, Fails (Text.lines source) fault ∧ e = .template (.malformed fault) := by
  have houtcome := outcome_parse source
  have herror : ∀ fault, parse source = .error fault ↔ Fails (Text.lines source) fault := by
    intro fault
    cases hparse : parse source with
    | ok skeleton =>
      rw [hparse] at houtcome
      exact iff_of_false nofun fun hfails => hfails.not_marked houtcome
    | error fault' =>
      rw [hparse] at houtcome
      rw [Except.error.injEq]
      exact ⟨fun heq => heq ▸ houtcome, fun hfails => houtcome.eq hfails⟩
  refine ⟨?_, herror, fun settings d hread e => ?_⟩
  · cases hparse : parse source with
    | ok skeleton =>
      rw [hparse] at houtcome
      exact iff_of_true ⟨skeleton, rfl⟩ houtcome
    | error fault =>
      rw [hparse] at houtcome
      exact iff_of_false nofun houtcome.not_marked
  · rw [GenerationSettings.loadSkeleton, hread]
    show (parse source).mapError _ = .error e ↔ _
    simp only [mapError_eq_error_iff, herror]

end Skeleton

end Pipewright
