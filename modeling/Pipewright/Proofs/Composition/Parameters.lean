import Pipewright.Composition
import Pipewright.Proofs.Composition.Slots
import Pipewright.Proofs.Step.Names

/-!
# Parameters of the composed workflow

A step gives a value to each of its parameters: its file, its environment, its processors, and the
files that it reads and writes.  A value is put between double quotes as it is.  So an entry of the
section has the line feeds of its value and two double quotes more than its value, and it is one line
with a quoted text when the value has neither.

* `Text.Quotable`: the texts that can stand between double quotes on one line.
* `ComposedStep.parameters`, `ComposedStep.count_paramLine`: the values of a step, and what an entry
  has of its value.
* `Composition.params_ofSteps`, `Composition.mem_params_ofSteps`, `Composition.length_params_ofSteps`:
  the entries, step after step.
* `Composition.sum_feeds_params`: the line feeds in them.
-/

namespace Pipewright

namespace Text

/-- The text can stand between double quotes on one line: it has neither quotes nor line feeds. -/
def Quotable (s : String) : Prop :=
  '"' ∉ s.toList ∧ '\n' ∉ s.toList

instance : DecidablePred Quotable := fun _ => inferInstanceAs (Decidable (_ ∧ _))

theorem quotable_append {s t : String} : Quotable (s ++ t) ↔ Quotable s ∧ Quotable t := by
  simp only [Quotable, String.toList_append, List.mem_append, not_or]
  exact and_and_and_comm

/-- Letters and digits can stand between double quotes. -/
theorem quotable_of_isAlphanum {s : String} (h : ∀ c ∈ s.toList, c.isAlphanum = true) :
    Quotable s :=
  ⟨fun hmem => absurd (h _ hmem) (by decide), fun hmem => absurd (h _ hmem) (by decide)⟩

theorem isAlphanum_of_mem_decimal {n : Nat} {c : Char} (h : c ∈ (decimal n).toList) :
    c.isAlphanum = true := by
  rw [Char.isAlphanum, isDigit_of_mem_decimal h, Bool.or_true]

theorem quotable_decimal (n : Nat) : Quotable (decimal n) :=
  quotable_of_isAlphanum fun _ hc => isAlphanum_of_mem_decimal hc

end Text

/-! ## Values of a step -/

namespace ComposedStep

variable {s : ComposedStep} {q : String × String}

/-- The parameters of numbered files, each with its value. -/
def fileParameters (slot : String) (files : List String) : List (String × String) :=
  (files.zipIdx 1).map fun (file, i) => (slot ++ Text.decimal i, file)

/-- The parameters of the step, each with its value. -/
def parameters (s : ComposedStep) : List (String × String) :=
  [("filename", s.filename), ("runtime ", s.runtime), ("cpu", (s.cpu.map Text.decimal).getD "")] ++
    fileParameters "input" s.inputs ++ fileParameters "output" s.outputs

theorem paramLines_eq (s : ComposedStep) :
    s.paramLines = s.parameters.map fun q => s.paramLine q.1 q.2 := by
  have hfiles : ∀ slot files, s.fileLines slot files =
      (fileParameters slot files).map fun q => s.paramLine q.1 q.2 := by
    intro slot files
    rw [fileLines, fileParameters, List.map_map]
    rfl
  rw [paramLines, parameters, hfiles, hfiles, List.map_append, List.map_append]
  rfl

theorem length_parameters (s : ComposedStep) :
    s.parameters.length = 3 + s.inputs.length + s.outputs.length := by
  simp only [parameters, fileParameters, List.length_append, List.length_cons, List.length_nil,
    List.length_map, List.length_zipIdx]

/-- A parameter of numbered files has one of the files as its value. -/
theorem mem_fileParameters {slot : String} {files : List String}
    (h : q ∈ fileParameters slot files) : ∃ i, q.1 = slot ++ Text.decimal i ∧ q.2 ∈ files := by
  obtain ⟨p, hp, rfl⟩ := List.mem_map.mp h
  exact ⟨p.2, rfl, List.fst_mem_of_mem_zipIdx hp⟩

/-- What is called a parameter, and the value that it has. -/
theorem mem_parameters (h : q ∈ s.parameters) :
    q = ("filename", s.filename) ∨ q = ("runtime ", s.runtime) ∨
      q = ("cpu", (s.cpu.map Text.decimal).getD "") ∨
      (∃ i, q.1 = "input" ++ Text.decimal i ∧ q.2 ∈ s.inputs) ∨
      ∃ i, q.1 = "output" ++ Text.decimal i ∧ q.2 ∈ s.outputs := by
  simp only [parameters, List.mem_append, List.mem_cons, List.not_mem_nil, or_false] at h
  obtain ((rfl | rfl | rfl) | h) | h := h
  · exact .inl rfl
  · exact .inr (.inl rfl)
  · exact .inr (.inr (.inl rfl))
  · exact .inr (.inr (.inr (.inl (mem_fileParameters h))))
  · exact .inr (.inr (.inr (.inr (mem_fileParameters h))))

/-- What a parameter is called is made of letters, digits and spaces. -/
theorem slot_chars (h : q ∈ s.parameters) : ∀ c ∈ q.1.toList, c.isAlphanum || c == ' ' := by
  have hdecimal : ∀ i, ∀ c ∈ (Text.decimal i).toList, c.isAlphanum || c == ' ' := fun i c hc => by
    rw [Text.isAlphanum_of_mem_decimal hc, Bool.true_or]
  rw [← List.all_eq_true]
  obtain rfl | rfl | rfl | ⟨i, hslot, -⟩ | ⟨i, hslot, -⟩ := mem_parameters h
  · simp
  · simp
  · simp
  · rw [hslot, String.toList_append, List.all_append, List.all_eq_true.mpr (hdecimal i)]
    rfl
  · rw [hslot, String.toList_append, List.all_append, List.all_eq_true.mpr (hdecimal i)]
    rfl

/-- A character that is in no name and in nothing that a parameter is called is in the entry for a
parameter as often as in its value, but for what stands in every entry. -/
theorem count_paramLine (hs : s.name.Lettered) (hq : q ∈ s.parameters) {c : Char}
    (hc : c.isAlphanum = false) (hspace : c ≠ ' ') :
    (s.paramLine q.1 q.2).toList.count c =
      "params._=\"\"".toList.count c + q.2.toList.count c := by
  have hname : s.name.text.toList.count c = 0 :=
    List.count_eq_zero.mpr fun hmem => absurd ((hs c hmem).symm.trans hc) nofun
  have hslot : q.1.toList.count c = 0 := by
    refine List.count_eq_zero.mpr fun hmem => ?_
    have hchar := slot_chars hq c hmem
    rw [hc, Bool.false_or] at hchar
    exact hspace (eq_of_beq hchar)
  have hfixed : "params._=\"\"".toList =
      "params.".toList ++ "_".toList ++ "=\"".toList ++ "\"".toList := rfl
  unfold paramLine
  rw [hfixed]
  simp only [String.toList_append, List.count_append, hname, hslot]
  omega

/-- An entry has the line feeds of its value. -/
theorem feeds_paramLine (hs : s.name.Lettered) (hq : q ∈ s.parameters) :
    Text.feeds (s.paramLine q.1 q.2) = Text.feeds q.2 := by
  have hnone : "params._=\"\"".toList.count '\n' = 0 := by decide
  rw [Text.feeds, count_paramLine hs hq (by decide) (by decide), hnone, Nat.zero_add, Text.feeds]

/-- The line feed in a file's name ends the line in the midst of the value. -/
example : Text.lines ((⟨⟨"x"⟩, "a\nb", "", none, [], [], []⟩ : ComposedStep).paramLine
    "filename" "a\nb") = ["params.x_filename=\"a", "b\""] := by decide +kernel

/-- An entry has two double quotes more than its value. -/
theorem quotes_paramLine (hs : s.name.Lettered) (hq : q ∈ s.parameters) :
    (s.paramLine q.1 q.2).toList.count '"' = q.2.toList.count '"' + 2 := by
  have htwo : "params._=\"\"".toList.count '"' = 2 := by decide
  rw [count_paramLine hs hq (by decide) (by decide), htwo, Nat.add_comm]

end ComposedStep

/-! ## Entries -/

namespace Composition

variable {steps : List ComposedStep}

theorem params_foldl_add {c : Composition} (hc : c.params ≠ []) :
    (steps.foldl add c).params =
      [""].intercalate (c.params :: steps.map ComposedStep.paramLines) := by
  induction steps generalizing c with
  | nil => rw [List.foldl_nil, List.map_nil, List.intercalate_singleton]
  | cons s rest ih =>
    have hadd : (c.add s).params = c.params ++ [""] ++ s.paramLines := by
      rw [add, if_neg (by simpa using hc)]
    have hne : (c.add s).params ≠ [] := by
      rw [hadd]
      simp
    rw [List.foldl_cons, ih hne, hadd, List.map_cons, List.intercalate_cons_cons]
    cases rest with
    | nil => rw [List.map_nil, List.intercalate_singleton, List.intercalate_singleton]
    | cons s' rest =>
      rw [List.map_cons, List.intercalate_cons_cons, List.intercalate_cons_cons]
      simp only [List.append_assoc]

/-- The entries are those of the steps, with an empty one between two steps. -/
theorem params_ofSteps (steps : List ComposedStep) :
    (ofSteps steps).sections.params = [""].intercalate (steps.map ComposedStep.paramLines) := by
  rcases steps with _ | ⟨s, rest⟩
  · rfl
  have hfirst : (add {} s).params = s.paramLines := rfl
  have hne : (add {} s).params ≠ [] := by
    rw [hfirst, ComposedStep.paramLines]
    simp
  rw [sections, ofSteps, List.foldl_cons, params_foldl_add hne, hfirst, List.map_cons]

/-- An entry is empty or gives a parameter of a step its value. -/
theorem mem_params_ofSteps {entry : String} (h : entry ∈ (ofSteps steps).sections.params) :
    entry = "" ∨ ∃ s ∈ steps, ∃ q ∈ s.parameters, entry = s.paramLine q.1 q.2 := by
  rw [params_ofSteps] at h
  obtain h | h := Text.mem_of_mem_intercalate h
  · exact .inl (List.mem_singleton.mp h)
  · obtain ⟨_, hlines, h⟩ := List.mem_flatten.mp h
    obtain ⟨s, hs, rfl⟩ := List.mem_map.mp hlines
    rw [s.paramLines_eq] at h
    obtain ⟨q, hq, rfl⟩ := List.mem_map.mp h
    exact .inr ⟨s, hs, q, hq, rfl⟩

/-- There are three entries for each step, one for each of its files, and an empty one between two
steps. -/
theorem length_params_ofSteps (steps : List ComposedStep) :
    (ofSteps steps).sections.params.length =
      (steps.map fun s => 3 + s.inputs.length + s.outputs.length).sum + (steps.length - 1) := by
  have hone : ∀ entries : List String, (entries.map fun _ => 1).sum = entries.length := by
    intro entries
    rw [List.map_const', List.sum_replicate_nat, Nat.mul_one]
  have hstep : ∀ s : ComposedStep,
      s.paramLines.length = 3 + s.inputs.length + s.outputs.length := by
    intro s
    rw [s.paramLines_eq, List.length_map, s.length_parameters]
  rw [params_ofSteps, ← hone, Text.sum_map_intercalate, List.map_map, List.length_map, Nat.mul_one]
  congr 2
  exact List.map_congr_left fun s _ => (hone _).trans (hstep s)

/-- The line feeds in the entries are those in the values. -/
theorem sum_feeds_params (h : ∀ s ∈ steps, s.name.Lettered) :
    ((ofSteps steps).sections.params.map Text.feeds).sum =
      (steps.map fun s => (s.parameters.map fun q => Text.feeds q.2).sum).sum := by
  have hempty : Text.feeds "" = 0 := rfl
  rw [params_ofSteps, Text.sum_map_intercalate, hempty, Nat.mul_zero, Nat.add_zero, List.map_map]
  refine congrArg List.sum (List.map_congr_left fun s hs => ?_)
  show (s.paramLines.map Text.feeds).sum = _
  rw [s.paramLines_eq, List.map_map, Function.comp_def]
  exact congrArg List.sum (List.map_congr_left fun q hq => ComposedStep.feeds_paramLine (h s hs) hq)

end Composition

end Pipewright
