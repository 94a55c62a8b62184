import Mathlib.Data.Prod.Lex
import Pipewright.Proofs.Step.Bindings

/-!
# Inputs and the outputs that are offered for them

An output of a supplier that has the name of an input is an offer for that input.  It stands at a
place, which is told by the number of its supplier and by its number there.  A binding takes the
offer at the first place; the strict policy takes it only when there is no other.

* `Place`, `Offered`: where an output stands, and which producer it is.
* `offersOf`, `OffersInOrder`: all offers, in the order of their places.
* `FirstOffer`, `Unambiguous`: the offer at the first place, and that there is no second one.
* `BoundFirst`: bindings that take the first offers.
* `bindInputs_offers`: the main statement.
-/

namespace Pipewright

/-! ## Offers -/

/-- Where an output stands: the number of its supplier, and its number among the outputs of the
supplier.  Both are counted from zero, and the supplier counts first. -/
abbrev Place := Nat ×ₗ Nat

/-- The output at the place has the name, and the producer tells it. -/
def Offered (suppliers : List Supplier) (filename : String) (place : Place) (p : Producer) :
    Prop :=
  ∃ u, suppliers[(ofLex place).1]? = some u ∧ u.outputs[(ofLex place).2]? = some filename ∧
    p = ⟨u.name.label, (ofLex place).2 + 1⟩

/-- These are the offers for the name, in the order of their places. -/
structure OffersInOrder (suppliers : List Supplier) (filename : String)
    (offers : List (Place × Producer)) : Prop where
  ordered : offers.Pairwise fun o o' => o.1 < o'.1
  mem_iff : ∀ place p, (place, p) ∈ offers ↔ Offered suppliers filename place p

/-- The offer at the first place. -/
def FirstOffer (suppliers : List Supplier) (filename : String) (place : Place) (p : Producer) :
    Prop :=
  Offered suppliers filename place p ∧
    ∀ place' p', Offered suppliers filename place' p' → place ≤ place'

/-- No two places have an offer. -/
def Unambiguous (suppliers : List Supplier) (filename : String) : Prop :=
  ∀ place p place' p', Offered suppliers filename place p →
    Offered suppliers filename place' p' → place = place'

/-- The offers, supplier by supplier and output by output. -/
def offersOf (filename : String) (suppliers : List Supplier) : List (Place × Producer) :=
  suppliers.zipIdx.flatMap fun (u, i) =>
    (u.outputs.idxsOf filename).map fun j => (toLex (i, j), ⟨u.name.label, j + 1⟩)

variable {node : Node} {name : StepName} {suppliers : List Supplier} {filename : String}
  {offers : List (Place × Producer)} {p : Producer}

theorem mem_idxsOf_iff {names : List String} {j : Nat} :
    j ∈ names.idxsOf filename ↔ names[j]? = some filename := by
  rw [List.idxsOf, List.mem_findIdxs_iff_exists_getElem_pos, List.getElem?_eq_some_iff]
  simp only [beq_iff_eq]

/-- There is one producer at a place. -/
theorem Offered.eq {place : Place} {q : Producer} (h : Offered suppliers filename place p)
    (h' : Offered suppliers filename place q) : p = q := by
  obtain ⟨u, hu, -, rfl⟩ := h
  obtain ⟨v, hv, -, rfl⟩ := h'
  obtain rfl := Option.some.inj (hu.symm.trans hv)
  rfl

/-- The offers are in order, and no other is missing. -/
theorem offersInOrder_offersOf (filename : String) (suppliers : List Supplier) :
    OffersInOrder suppliers filename (offersOf filename suppliers) where
  ordered := by
    rw [offersOf, List.pairwise_flatMap]
    constructor
    · rintro ⟨u, i⟩ -
      rw [List.pairwise_map]
      refine List.pairwise_findIdxs.imp fun hlt => ?_
      exact Prod.Lex.toLex_lt_toLex.mpr (.inr ⟨rfl, hlt⟩)
    · -- the numbers of the suppliers grow
      have hnumbers : (suppliers.zipIdx.map Prod.snd).Pairwise (· < ·) := by
        rw [List.zipIdx_map_snd]
        exact List.pairwise_lt_range'
      refine (List.pairwise_map.mp hnumbers).imp fun {s t} hlt o ho o' ho' => ?_
      obtain ⟨j, -, rfl⟩ := List.mem_map.mp ho
      obtain ⟨j', -, rfl⟩ := List.mem_map.mp ho'
      exact Prod.Lex.toLex_lt_toLex.mpr (.inl hlt)
  mem_iff place p := by
    rw [offersOf, List.mem_flatMap, Prod.exists]
    constructor
    · rintro ⟨u, i, hu, ho⟩
      obtain ⟨j, hj, heq⟩ := List.mem_map.mp ho
      cases heq
      exact ⟨u, List.mk_mem_zipIdx_iff_getElem?.mp hu, mem_idxsOf_iff.mp hj, rfl⟩
    · rintro ⟨u, hu, hfile, rfl⟩
      exact ⟨u, _, List.mk_mem_zipIdx_iff_getElem?.mpr hu,
        List.mem_map.mpr ⟨_, mem_idxsOf_iff.mpr hfile, rfl⟩⟩

theorem Supplier.producersOf_eq (u : Supplier) (filename : String) :
    u.producersOf filename =
      (u.outputs.idxsOf filename).map fun j => ⟨u.name.label, j + 1⟩ := by
  have hshift : (u.outputs.idxsOf filename).map (· + 1) = u.outputs.idxsOf filename 1 :=
    List.findIdxs_start.symm
  have hmap : (u.outputs.idxsOf filename).map (fun j => (⟨u.name.label, j + 1⟩ : Producer)) =
      (u.outputs.idxsOf filename 1).map fun j => ⟨u.name.label, j⟩ := by
    rw [← hshift, List.map_map]
    rfl
  rw [hmap, List.idxsOf, List.findIdxs_eq_filterMap_zipIdx, List.map_filterMap, producersOf]
  refine List.filterMap_congr ?_
  rintro ⟨output, i⟩ -
  dsimp only
  by_cases h : output = filename
  · rw [if_pos h, h, beq_self_eq_true]
    rfl
  · rw [if_neg h, beq_false_of_ne h]
    rfl

/-- The producers of a name are those of the offers for it. -/
theorem map_snd_offersOf (filename : String) (suppliers : List Supplier) :
    (offersOf filename suppliers).map Prod.snd = producersOf filename suppliers := by
  rw [offersOf, List.map_flatMap, producersOf]
  conv_rhs => rw [← List.zipIdx_map_fst 0 suppliers, List.flatMap_map]
  refine List.flatMap_congr fun x _ => ?_
  rw [List.map_map, Supplier.producersOf_eq]
  rfl

/-! ## What a list of offers tells -/

namespace OffersInOrder

/-- The offer at the first place is the first one of the list. -/
theorem head_eq_some_iff (h : OffersInOrder suppliers filename offers) :
    (offers.map Prod.snd).head? = some p ↔ ∃ place, FirstOffer suppliers filename place p := by
  rcases offers with _ | ⟨⟨place, q⟩, rest⟩
  · simp only [List.map_nil, List.head?_nil, reduceCtorEq, false_iff, not_exists]
    intro place hfirst
    exact List.not_mem_nil ((h.mem_iff place p).mpr hfirst.1)
  · rw [List.map_cons, List.head?_cons, Option.some_inj]
    have hleast : ∀ place' p', Offered suppliers filename place' p' → place ≤ place' := by
      intro place' p' hoffered
      obtain heq | hmem := List.mem_cons.mp ((h.mem_iff place' p').mpr hoffered)
      · exact (congrArg Prod.fst heq).ge
      · exact ((List.pairwise_cons.mp h.ordered).1 _ hmem).le
    have hoffered := (h.mem_iff place q).mp List.mem_cons_self
    constructor
    · rintro rfl
      exact ⟨place, hoffered, hleast⟩
    · rintro ⟨place', hoffered', hleast'⟩
      obtain rfl : place' = place :=
        le_antisymm (hleast' _ _ hoffered) (hleast _ _ hoffered')
      exact hoffered.eq hoffered'

/-- There is at most one offer exactly when no two places have one. -/
theorem length_le_one_iff (h : OffersInOrder suppliers filename offers) :
    offers.length ≤ 1 ↔ Unambiguous suppliers filename := by
  rcases offers with _ | ⟨o, _ | ⟨o', rest⟩⟩
  · refine iff_of_true (Nat.zero_le 1) fun place p place' p' hoffered => ?_
    exact absurd ((h.mem_iff place p).mpr hoffered) List.not_mem_nil
  · refine iff_of_true (Nat.le_refl 1) fun place p place' p' hoffered hoffered' => ?_
    have heq := List.mem_singleton.mp ((h.mem_iff place p).mpr hoffered)
    have heq' := List.mem_singleton.mp ((h.mem_iff place' p').mpr hoffered')
    exact congrArg Prod.fst (heq.trans heq'.symm)
  · refine iff_of_false (by simp) fun hone => ?_
    have hlt : o.1 < o'.1 := (List.pairwise_cons.mp h.ordered).1 o' List.mem_cons_self
    have hsame : o.1 = o'.1 := hone _ _ _ _ ((h.mem_iff o.1 o.2).mp List.mem_cons_self)
      ((h.mem_iff o'.1 o'.2).mp (List.mem_cons_of_mem _ List.mem_cons_self))
    exact hlt.ne hsame

end OffersInOrder

/-- A source is wired to the offer at the first place. -/
theorem ofProducers_eq_wired_iff :
    Source.ofProducers (producersOf filename suppliers) = .wired p ↔
      ∃ place, FirstOffer suppliers filename place p := by
  rw [← (offersInOrder_offersOf filename suppliers).head_eq_some_iff, map_snd_offersOf]
  rcases producersOf filename suppliers with _ | ⟨q, rest⟩
  · exact iff_of_false nofun nofun
  · rw [List.head?_cons, Option.some_inj, Source.ofProducers, Source.wired.injEq]

/-- A source is raw when nothing is offered. -/
theorem ofProducers_eq_raw_iff :
    Source.ofProducers (producersOf filename suppliers) = .raw ↔
      ∀ place p, ¬ Offered suppliers filename place p := by
  have hoffers := offersInOrder_offersOf filename suppliers
  rw [← map_snd_offersOf]
  rcases hlist : offersOf filename suppliers with _ | ⟨o, rest⟩
  · refine iff_of_true rfl fun place p hoffered => ?_
    exact List.not_mem_nil (hlist ▸ (hoffers.mem_iff place p).mpr hoffered)
  · refine iff_of_false nofun fun hnone => hnone o.1 o.2 ((hoffers.mem_iff o.1 o.2).mp ?_)
    rw [hlist]
    exact List.mem_cons_self

/-- There is at most one producer exactly when no two places have an offer. -/
theorem length_producersOf_le_one_iff :
    (producersOf filename suppliers).length ≤ 1 ↔ Unambiguous suppliers filename := by
  rw [← map_snd_offersOf, List.length_map]
  exact (offersInOrder_offersOf filename suppliers).length_le_one_iff

/-! ## Bindings -/

/-- The bindings are one for each input file, in order and numbered from one, and each of them
takes the first offer. -/
structure BoundFirst (node : Node) (suppliers : List Supplier) (bindings : List Binding) :
    Prop where
  filenames_eq : bindings.map Binding.filename = node.attributes.inputFiles
  positions_eq : bindings.map Binding.position = List.range' 1 bindings.length
  wired_iff : ∀ b ∈ bindings, ∀ p,
    b.source = .wired p ↔ ∃ place, FirstOffer suppliers b.filename place p
  raw_iff : ∀ b ∈ bindings,
    b.source = .raw ↔ ∀ place p, ¬ Offered suppliers b.filename place p

/-- What the strict policy makes of bindings that take the first offers: it keeps them, or it stops
at the first input that is ambiguous and tells all that is offered for it. -/
inductive StrictResult (node : Node) (name : StepName) (suppliers : List Supplier)
    (bindings : List Binding) : Except Error (List Binding) → Prop where
  | kept (hone : ∀ filename ∈ node.attributes.inputFiles, Unambiguous suppliers filename) :
      StrictResult node name suppliers bindings (.ok bindings)
  | stopped {before after : List String} {filename : String} {offers : List (Place × Producer)}
      (hsplit : node.attributes.inputFiles = before ++ filename :: after)
      (hbefore : ∀ f ∈ before, Unambiguous suppliers f) (hmany : ¬ Unambiguous suppliers filename)
      (hoffers : OffersInOrder suppliers filename offers) :
      StrictResult node name suppliers bindings (.error (.ambiguousBinding node.id name.text
        filename (offers.map fun o => o.2.text)))

variable {policy : BindingPolicy} {bindings : List Binding}

/-- Whichever the policy, bindings take the first offers. -/
theorem boundFirst_of_bindInputs (h : bindInputs node name suppliers policy = .ok bindings) :
    BoundFirst node suppliers bindings where
  filenames_eq := by
    rw [eq_map_of_bindInputs h, List.map_map]
    exact List.zipIdx_map_fst 1 node.attributes.inputFiles
  positions_eq := by
    rw [positions_of_bindInputs h, eq_map_of_bindInputs h, List.length_map, List.length_zipIdx]
  wired_iff b hb p := by
    rw [(binding_of_bindInputs h hb).2, ofProducers_eq_wired_iff]
  raw_iff b hb := by
    rw [(binding_of_bindInputs h hb).2, ofProducers_eq_raw_iff]

/-- The strict policy keeps the bindings that take the first offers, or it stops. -/
theorem strictResult_bindInputs (h : bindInputs node name suppliers .firstMatch = .ok bindings) :
    StrictResult node name suppliers bindings (bindInputs node name suppliers .strict) := by
  cases hstrict : bindInputs node name suppliers .strict with
  | ok bindings' =>
    obtain rfl : bindings' = bindings :=
      (eq_map_of_bindInputs hstrict).trans (eq_map_of_bindInputs h).symm
    refine .kept fun filename hfilename => length_producersOf_le_one_iff.mp ?_
    rw [← List.zipIdx_map_fst 1 node.attributes.inputFiles] at hfilename
    obtain ⟨x, hx, rfl⟩ := List.mem_map.mp hfilename
    obtain ⟨b, -, hb⟩ := exists_mem_of_forall₂ (mapM_eq_ok_iff.mp hstrict).flip hx
    exact producers_le_one_of_bindInput hb
  | error e =>
    obtain ⟨-, before, filename, after, hsplit, hbefore, hmany, rfl⟩ := bindInputs_error hstrict
    rw [← map_snd_offersOf, List.map_map]
    refine .stopped hsplit (fun f hf => length_producersOf_le_one_iff.mp (hbefore f hf)) ?_
      (offersInOrder_offersOf filename suppliers)
    exact fun hone => absurd (length_producersOf_le_one_iff.mpr hone) (Nat.not_le.mpr hmany)

/-- By the first match every input that is not blank has a binding, and it takes the output at the
first place that is offered, or none if none is.  The strict policy gives the same bindings exactly
when no input has two places to be taken from; else it stops at the first input that has, and tells
all of them. -/
theorem bindInputs_offers (node : Node) (name : StepName) (suppliers : List Supplier) :
    ∃ bindings, bindInputs node name suppliers .firstMatch = .ok bindings ∧
      BoundFirst node suppliers bindings ∧
      StrictResult node name suppliers bindings (bindInputs node name suppliers .strict) ∧
      ((∃ kept, bindInputs node name suppliers .strict = .ok kept) ↔
        ∀ filename ∈ node.attributes.inputFiles, Unambiguous suppliers filename) := by
  obtain ⟨bindings, h⟩ : ∃ bindings, bindInputs node name suppliers .firstMatch = .ok bindings :=
    exists_bindInputs nofun
  have hstrict := strictResult_bindInputs h
  refine ⟨bindings, h, boundFirst_of_bindInputs h, hstrict, ?_⟩
  generalize bindInputs node name suppliers .strict = result at hstrict
  cases hstrict with
  | kept hone => exact iff_of_true ⟨bindings, rfl⟩ hone
  | stopped hsplit hbefore hmany hoffers =>
    refine iff_of_false nofun fun hone => hmany (hone _ ?_)
    rw [hsplit]
    exact List.mem_append_right _ List.mem_cons_self

/-- A blank dependency is no input.  One input is offered by two suppliers, three times in all, and
one by none. -/
example : bindInputs { id := "d", attributes := { dependencies := ["y", " ", "z"] } } ⟨"dD"⟩
    [⟨"a", ⟨"aA"⟩, ["x", "y"]⟩, ⟨"b", ⟨"bB"⟩, ["y", "y"]⟩] .firstMatch =
      .ok [⟨1, "y", .wired ⟨"AA", 2⟩⟩, ⟨2, "z", .raw⟩] := rfl

end Pipewright
