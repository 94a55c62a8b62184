import Pipewright.Proofs.Results
import Pipewright.Step.Binding

/-!
# What bindings tell

The bindings of a step are one for each input file, numbered from one.  A wired binding names an
output of a supplier with the name of the input file, counted as the supplier counts its outputs.

* `mem_producersOf_iff`: the outputs that have a name.
* `bindInputs_ok`, `eq_map_of_bindInputs`: the bindings, input by input.
* `bindInput_eq_error_iff`, `exists_bindInputs`, `bindInputs_error`: when there are bindings, and
  why there are none.
* `positions_of_bindInputs`, `binding_of_bindInputs`: how the bindings are numbered.
* `exists_supplier_of_wired`: what a wired binding names.
-/

namespace Pipewright

variable {node : Node} {name : StepName} {suppliers : List Supplier} {policy : BindingPolicy}
  {bindings : List Binding} {b : Binding} {p : Producer}

theorem mem_producersOf_iff {filename : String} :
    p ∈ producersOf filename suppliers ↔
      ∃ u ∈ suppliers, p.process = u.name.label ∧ (filename, p.output) ∈ u.outputs.zipIdx 1 := by
  rw [producersOf, List.mem_flatMap]
  refine exists_congr fun u => and_congr_right fun _ => ?_
  rw [Supplier.producersOf, List.mem_filterMap]
  constructor
  · rintro ⟨⟨output, i⟩, hmem, hp⟩
    dsimp only at hp
    split at hp
    · next heq =>
      cases hp
      exact ⟨rfl, heq ▸ hmem⟩
    · cases hp
  · rintro ⟨hprocess, hmem⟩
    exact ⟨(filename, p.output), hmem, by simp [← hprocess]⟩

/-- Bindings are made input by input. -/
theorem bindInputs_ok (h : bindInputs node name suppliers policy = .ok bindings) :
    List.Forall₂ (fun (x : String × Nat) b =>
        b = ⟨x.2, x.1, .ofProducers (producersOf x.1 suppliers)⟩)
      (node.attributes.inputFiles.zipIdx 1) bindings := by
  refine (mapM_eq_ok_iff.mp h).imp fun x b hb => ?_
  dsimp only [bindInput] at hb
  split at hb
  · cases hb
  · exact (Except.ok.inj hb).symm

/-- Every input has a binding, if the strict policy is not given an input that could be several
outputs. -/
theorem exists_bindInputs (h : policy = .strict → ∀ filename ∈ node.attributes.inputFiles,
      (producersOf filename suppliers).length ≤ 1) :
    ∃ bindings, bindInputs node name suppliers policy = .ok bindings := by
  have heach : ∀ p ∈ node.attributes.inputFiles.zipIdx 1,
      ∃ b, bindInput node name suppliers policy p.2 p.1 = .ok b := by
    intro p hp
    refine ⟨_, if_neg ?_⟩
    rintro ⟨hstrict, hmany⟩
    have hone := h hstrict p.1 (List.fst_mem_of_mem_zipIdx hp)
    omega
  obtain ⟨bindings, hall⟩ := exists_forall₂ heach
  exact ⟨bindings, mapM_eq_ok_iff.mpr hall⟩

/-- Only the strict policy stops at an input, and only when several outputs could be it. -/
theorem bindInput_eq_error_iff {filename : String} {i : Nat} {e : Error} :
    bindInput node name suppliers policy i filename = .error e ↔
      policy = .strict ∧ 1 < (producersOf filename suppliers).length ∧
      e = .ambiguousBinding node.id name.text filename
        ((producersOf filename suppliers).map Producer.text) := by
  dsimp only [bindInput]
  split
  · next hmany => rw [Except.error.injEq, and_iff_right hmany.1, and_iff_right hmany.2, eq_comm]
  · next hone => exact iff_of_false nofun fun h => hone ⟨h.1, h.2.1⟩

/-- The strict policy binds no input that could be several outputs. -/
theorem producers_le_one_of_bindInput {filename : String} {i : Nat}
    (h : bindInput node name suppliers .strict i filename = .ok b) :
    (producersOf filename suppliers).length ≤ 1 := by
  by_contra hmany
  rw [bindInput_eq_error_iff.mpr ⟨rfl, Nat.not_le.mp hmany, rfl⟩] at h
  cases h

/-- The strict policy stops at the first input that could be several outputs, and names them. -/
theorem bindInputs_error {e : Error} (h : bindInputs node name suppliers policy = .error e) :
    policy = .strict ∧ ∃ before filename after,
      node.attributes.inputFiles = before ++ filename :: after ∧
      (∀ f ∈ before, (producersOf f suppliers).length ≤ 1) ∧
      1 < (producersOf filename suppliers).length ∧
      e = .ambiguousBinding node.id name.text filename
        ((producersOf filename suppliers).map Producer.text) := by
  obtain ⟨before, ⟨filename, i⟩, after, hsplit, hbefore, hinput⟩ := mapM_eq_error_iff.mp h
  obtain ⟨rfl, hmany, rfl⟩ := bindInput_eq_error_iff.mp hinput
  refine ⟨rfl, before.map Prod.fst, filename, after.map Prod.fst, ?_, ?_, hmany, rfl⟩
  · rw [← List.zipIdx_map_fst 1 node.attributes.inputFiles, hsplit, List.map_append, List.map_cons]
  · intro f hf
    obtain ⟨x, hx, rfl⟩ := List.mem_map.mp hf
    obtain ⟨b, hb⟩ := hbefore x hx
    exact producers_le_one_of_bindInput hb

/-- Whichever the policy, the bindings are the same. -/
theorem eq_map_of_bindInputs (h : bindInputs node name suppliers policy = .ok bindings) :
    bindings = (node.attributes.inputFiles.zipIdx 1).map fun x =>
      ⟨x.2, x.1, .ofProducers (producersOf x.1 suppliers)⟩ := by
  rw [← List.forall₂_eq_eq_eq, List.forall₂_map_right_iff]
  exact (bindInputs_ok h).flip

/-- The bindings are numbered from one. -/
theorem positions_of_bindInputs (h : bindInputs node name suppliers policy = .ok bindings) :
    bindings.map Binding.position = List.range' 1 node.attributes.inputFiles.length := by
  have hpositions : List.Forall₂ (fun (x : String × Nat) b => x.2 = b.position)
      (node.attributes.inputFiles.zipIdx 1) bindings :=
    (bindInputs_ok h).imp fun x b hb => by rw [hb]
  rw [← List.zipIdx_map_snd 1, eq_comm, ← List.forall₂_eq_eq_eq, List.forall₂_map_left_iff,
    List.forall₂_map_right_iff]
  exact hpositions

/-- A binding has the number of its input file, and its source is told by the name of the file. -/
theorem binding_of_bindInputs (h : bindInputs node name suppliers policy = .ok bindings)
    (hb : b ∈ bindings) : (b.filename, b.position) ∈ node.attributes.inputFiles.zipIdx 1 ∧
      b.source = .ofProducers (producersOf b.filename suppliers) := by
  obtain ⟨⟨filename, i⟩, hmem, rfl⟩ := exists_mem_of_forall₂ (bindInputs_ok h) hb
  exact ⟨hmem, rfl⟩

/-- A wired binding names an output that a supplier counts under the name of the input file. -/
theorem exists_supplier_of_wired (h : bindInputs node name suppliers policy = .ok bindings)
    (hb : b ∈ bindings) (hsource : b.source = .wired p) :
    ∃ u ∈ suppliers, p.process = u.name.label ∧ (b.filename, p.output) ∈ u.outputs.zipIdx 1 := by
  have hproducers := (binding_of_bindInputs h hb).2
  rw [hsource] at hproducers
  refine mem_producersOf_iff.mp ?_
  rcases hfirst : producersOf b.filename suppliers with _ | ⟨q, rest⟩
  · rw [hfirst] at hproducers
    cases hproducers
  · rw [hfirst] at hproducers
    cases hproducers
    exact List.mem_cons_self

end Pipewright
