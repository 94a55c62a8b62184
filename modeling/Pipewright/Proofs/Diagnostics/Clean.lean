import Pipewright.Diagnostics
import Pipewright.Proofs.Graph.Circle
import Pipewright.Proofs.Lists
import Pipewright.Proofs.Plan.Existence
import Pipewright.Proofs.Step.Bindings

/-!
# Documents without errors

When no rule reports an error, all that could keep the document from being planned is excluded:
every link leads to a node, no circle stops the search for the order, and every execution node has
a name.  Inputs that several outputs could be are no errors, and only the strict policy minds them;
when none of them is reported, it has nothing to mind.

* `Graph.Clean`: no rule reports an error; `Graph.exists_validate_iff`: then the reports are the
  result.
* `Graph.Clean.exists_follow`, `Graph.Clean.exists_executionOrder`, `Graph.Clean.exists_sourceFile`,
  `Graph.Clean.exists_name`, `Graph.Clean.operator_ne_unknown`: what the rules exclude.
* `Graph.producers_le_one`: without reports about inputs, an input could be one output at most.
* `Graph.Clean.exists_plan`: the plans.
-/

namespace Pipewright

namespace Graph

variable {g : Graph} {n u : Node} {policy : BindingPolicy}

/-- What one rule reports is reported. -/
theorem mem_diagnostics {r : Rule} {d : Diagnostic} (hd : d ∈ r.apply g) : d ∈ g.diagnostics :=
  List.mem_flatMap.mpr ⟨r, by cases r <;> decide, hd⟩

/-- No rule reports an error. -/
def Clean (g : Graph) : Prop :=
  ∀ d ∈ g.diagnostics, d.severity ≠ .error

/-- There are no messages of errors exactly when no rule reports one. -/
theorem errorMessages_isEmpty_iff : (errorMessages g.diagnostics).isEmpty = true ↔ g.Clean := by
  simp [errorMessages, Clean]

/-- The reports are the result exactly when none of them is an error. -/
theorem exists_validate_iff : (∃ ds, g.validate = .ok ds) ↔ g.Clean := by
  rw [validate, ← errorMessages_isEmpty_iff]
  by_cases h : (errorMessages g.diagnostics).isEmpty = true
  · simp [h]
  · simp [h]

/-! ## What the rules exclude -/

namespace Clean

/-- Every link leads to a node. -/
theorem exists_follow (h : g.Clean) (hn : n ∈ g.nodes) {link : Link} (hlink : link ∈ n.links) :
    ∃ m, g.follow n link = .ok m := by
  rcases hfound : g.node? link.target with _ | m
  · have hreport : danglingReport n link ∈ g.danglingReferences := by
      refine List.mem_flatMap.mpr ⟨n, hn, List.mem_map_of_mem (List.mem_filter.mpr ⟨hlink, ?_⟩)⟩
      rw [hfound]
      rfl
    exact absurd rfl (h _ (mem_diagnostics (r := .danglingReference) hreport))
  · exact ⟨m, follow_eq_ok_iff.mpr hfound⟩

/-- There is an execution order. -/
theorem exists_executionOrder (h : g.Clean) (hg : g.Accepted) :
    ∃ order, g.executionOrder = .ok order := by
  cases horder : g.executionOrder with
  | ok order => exact ⟨order, rfl⟩
  | error e =>
    exfalso
    obtain ⟨v, rest, rfl, -, -⟩ | ⟨n, link, -, hn, hlink, hnode⟩ :=
      executionOrder_error_cases hg horder
    · obtain ⟨d, hd, hseverity⟩ : ∃ d ∈ g.orderFaults, d.severity = .error := by
        rw [orderFaults, horder]
        exact ⟨_, List.mem_singleton_self _, rfl⟩
      exact h d (mem_diagnostics (r := .executionOrder) hd) hseverity
    · obtain ⟨m, hm⟩ := h.exists_follow (mem_of_node? (hn.node?_id hg)) hlink
      rw [follow_eq_ok_iff, hnode] at hm
      cases hm

/-- An operator of an execution node is one that a step can be made of. -/
theorem operator_ne_unknown (h : g.Clean) (hn : n ∈ g.executionNodes) (word : String) :
    n.operator ≠ some (.unknown word) := by
  intro hoperator
  obtain ⟨d, hd, hseverity⟩ : ∃ d ∈ g.unsupportedOperators, d.severity = .error :=
    ⟨_, List.mem_filterMap.mpr ⟨n, hn, by rw [operatorReport?, hoperator]⟩, rfl⟩
  exact h d (mem_diagnostics (r := .supportedOperator) hd) hseverity

/-- Every execution node names a file. -/
theorem exists_sourceFile (h : g.Clean) (hn : n ∈ g.executionNodes) :
    ∃ file, n.attributes.sourceFile? = some file := by
  rcases hfile : n.attributes.sourceFile? with _ | file
  · have hreport : filenameReport n ∈ g.missingFilenames :=
      List.mem_map_of_mem (List.mem_filter.mpr ⟨hn, by rw [hfile]; rfl⟩)
    exact absurd rfl (h _ (mem_diagnostics (r := .filenamePresent) hreport))
  · exact ⟨file, rfl⟩

/-- Every execution node has a name. -/
theorem exists_name (h : g.Clean) (hn : n ∈ g.executionNodes) :
    ∃ name, StepName.of n = .ok name := by
  obtain ⟨file, hfile⟩ := h.exists_sourceFile hn
  rw [StepName.of, StepName.base?, hfile]
  cases Text.filledIn n.attributes.label with
  | none => exact ⟨_, rfl⟩
  | some label => exact ⟨_, rfl⟩

end Clean

/-! ## Suppliers -/

/-- The steps that data flows from are nodes of the graph. -/
theorem mem_nodes_of_mem_stepSources (hu : u ∈ g.stepSources n) :
    u ∈ g.nodes ∧ isStep u = true := by
  obtain ⟨htarget, hstep⟩ := List.mem_filter.mp hu
  obtain ⟨link, -, hfollow⟩ := linksTo_of_mem_dataTargets htarget
  exact ⟨mem_of_node? (follow_eq_ok_iff.mp hfollow), hstep⟩

/-- The steps that data flows from have names. -/
theorem Clean.exists_suppliers (h : g.Clean) (n : Node) :
    ∃ suppliers, (g.stepSources n).mapM Supplier.named = .ok suppliers := by
  have heach : ∀ u ∈ g.stepSources n, ∃ s, Supplier.named u = .ok s := by
    intro u hu
    obtain ⟨hmem, hstep⟩ := mem_nodes_of_mem_stepSources hu
    obtain ⟨name, hname⟩ := h.exists_name (mem_executionNodes_of_isStep hmem hstep)
    exact ⟨Supplier.of u name, by rw [Supplier.named, hname]; rfl⟩
  obtain ⟨suppliers, hall⟩ := exists_forall₂ heach
  exact ⟨suppliers, mapM_eq_ok_iff.mpr hall⟩

/-- The suppliers of a list of nodes are those with names, when all have one. -/
theorem namedSuppliers_eq {nodes : List Node} {suppliers : List Supplier}
    (h : nodes.mapM Supplier.named = .ok suppliers) : namedSuppliers nodes = suppliers := by
  induction mapM_eq_ok_iff.mp h with
  | nil => rfl
  | @cons u s rest others hs _ ih =>
    obtain ⟨name, hname, hs⟩ := bind_eq_ok_iff.mp hs
    cases hs
    have hothers := ih (mapM_eq_ok_iff.mpr ‹_›)
    rw [namedSuppliers, List.filterMap_cons, hname]
    exact congrArg _ hothers

/-- When no input of a node is reported, each could be one output at most. -/
theorem producers_le_one (hnone : ∀ d ∈ g.diagnostics, d.rule ≠ .ambiguousOutput) (h : g.Clean)
    (hn : n ∈ g.executionNodes) {suppliers : List Supplier}
    (hnamed : (g.stepSources n).mapM Supplier.named = .ok suppliers) {filename : String}
    (hfilename : filename ∈ n.attributes.inputFiles) :
    (producersOf filename suppliers).length ≤ 1 := by
  have hsources : g.dataSources n = .ok (g.dataTargets n) :=
    dataSources_eq_ok fun link hlink => h.exists_follow (List.mem_filter.mp hn).1 hlink
  -- the rule looks at all nodes that data flows from, the steps among them
  have hsub : suppliers.Sublist (namedSuppliers (g.dataTargets n)) := by
    rw [← namedSuppliers_eq hnamed]
    exact List.filter_sublist.filterMap _
  have hle : (producersOf filename suppliers).length ≤
      (producersOf filename (namedSuppliers (g.dataTargets n))).length :=
    (flatMap_sublist_flatMap hsub _).length_le
  by_contra hmany
  obtain ⟨d, hd, hrule⟩ : ∃ d ∈ g.ambiguitiesOf n, d.rule = .ambiguousOutput := by
    rw [ambiguitiesOf, hsources]
    exact ⟨_, List.mem_filterMap.mpr ⟨filename, hfilename, if_pos (by omega)⟩, rfl⟩
  have hreport : d ∈ g.ambiguousOutputs := List.mem_flatMap.mpr ⟨n, hn, hd⟩
  exact hnone d (mem_diagnostics (r := .ambiguousOutput) hreport) hrule

/-! ## Plans -/

namespace Clean

/-- Without errors there is a plan, if the strict policy is not given a reported input. -/
theorem exists_plan (h : g.Clean) (hg : g.Accepted)
    (hnone : policy = .strict → ∀ d ∈ g.diagnostics, d.rule ≠ .ambiguousOutput) :
    ∃ steps, g.plan policy = .ok steps := by
  refine (exists_plan_iff hg).mpr ⟨h.exists_executionOrder hg, fun n hn hstep => ?_⟩
  have hexecution := mem_executionNodes_of_isStep hn hstep
  obtain ⟨name, hname⟩ := h.exists_name hexecution
  obtain ⟨operator, hoperator⟩ := Option.isSome_iff_exists.mp (Bool.and_eq_true_iff.mp hstep).2
  obtain ⟨suppliers, hnamed⟩ := h.exists_suppliers n
  have hbind : ∃ bindings, bindInputs n name suppliers policy = .ok bindings :=
    exists_bindInputs fun hstrict filename hfilename =>
      producers_le_one (hnone hstrict) h hexecution hnamed hfilename
  obtain ⟨bindings, hbindings⟩ := hbind
  exact ⟨⟨n.id, name, operator.toText, bindings⟩,
    ⟨rfl, hname, by rw [hoperator]; rfl, suppliers, hnamed, hbindings⟩⟩

end Clean

end Graph

end Pipewright
