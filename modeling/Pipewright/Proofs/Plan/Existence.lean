import Pipewright.Proofs.Graph.Circle
import Pipewright.Proofs.Plan.Planned

/-!
# When there is a plan, and what is in it

A plan is made in execution order, with a table of the steps so far, but neither whether there is
one nor which steps it has depends on the order.  There is a plan exactly when there is an order
and the graph tells the step of each node that becomes one; the steps of a plan are those that the
graph tells, each once.

* `Graph.PlannedAs.eq`: the graph tells one step for each node.
* `Graph.plan_eq_ok_iff`: a plan, step by step in execution order.
* `Graph.exists_plan_iff`: when there is a plan.
* `Graph.mem_plan_iff`, `Graph.nodup_plan`: the steps of a plan, without their order.
-/

namespace Pipewright

namespace Graph

variable {g : Graph} {n : Node} {order done : List Node} {handled : Handled}
  {policy : BindingPolicy} {step step' : PlannedStep} {steps : List PlannedStep}

/-- The graph tells one step for each node. -/
theorem PlannedAs.eq (h : g.PlannedAs policy n step) (h' : g.PlannedAs policy n step') :
    step = step' := by
  have hname : step.name = step'.name := Except.ok.inj (h.name_eq.symm.trans h'.name_eq)
  have hoperator : step.operator = step'.operator :=
    Option.some.inj (h.operator_eq.symm.trans h'.operator_eq)
  obtain ⟨suppliers, hnamed, hbindings⟩ := h.bindings_eq
  obtain ⟨suppliers', hnamed', hbindings'⟩ := h'.bindings_eq
  obtain rfl := Except.ok.inj (hnamed.symm.trans hnamed')
  have hsame : step.bindings = step'.bindings := by
    rw [hname] at hbindings
    exact Except.ok.inj (hbindings.symm.trans hbindings')
  obtain ⟨node, name, operator, bindings⟩ := step
  obtain ⟨node', name', operator', bindings'⟩ := step'
  obtain rfl : node = node' := h.node_eq.trans h'.node_eq.symm
  obtain rfl : name = name' := hname
  obtain rfl : operator = operator' := hoperator
  obtain rfl : bindings = bindings' := hsame
  rfl

/-! ## Making a plan of what the graph tells -/

/-- The step that the graph tells is the one that is planned. -/
theorem PlannedAs.planStep_eq (h : g.PlannedAs policy n step) (hg : g.Accepted)
    (horder : g.executionOrder = .ok order) {rest : List Node}
    (hsplit : order.filter isStep = done ++ n :: rest) (hdone : handled.Records done) :
    g.planStep policy handled n = .ok step := by
  obtain ⟨suppliers, hnamed, hbindings⟩ := h.bindings_eq
  obtain ⟨suppliers', hnamed', heq⟩ := bindStep_eq hg horder hsplit hdone policy step.name
  obtain rfl := Except.ok.inj (hnamed.symm.trans hnamed')
  rw [planStep, h.name_eq]
  show (g.bindStep policy handled n step.name >>= _) = _
  rw [heq, hbindings, h.operator_eq, ← h.node_eq]
  rfl

/-- The steps that the graph tells are those that are planned. -/
theorem planSteps_eq_ok (hg : g.Accepted) (horder : g.executionOrder = .ok order)
    {todo : List Node} (hsplit : order.filter isStep = done ++ todo) (hdone : handled.Records done)
    (h : List.Forall₂ (g.PlannedAs policy) todo steps) :
    planSteps g policy handled todo = .ok steps := by
  induction h generalizing done handled with
  | nil => rfl
  | @cons n step rest others hstep hrest ih =>
    have hdone' := hdone.concat hstep.name_eq (id_notMem_of_split hg horder hsplit)
    have hothers := ih (by rw [hsplit, List.append_assoc]; rfl) hdone'
    rw [planSteps, hstep.planStep_eq hg horder hsplit hdone]
    show (planSteps g policy ((n.id, step.name) :: handled) rest >>= _) = _
    rw [hothers]
    rfl

/-- A plan holds the steps that the graph tells of the nodes that become steps, in execution
order. -/
theorem plan_eq_ok_iff (hg : g.Accepted) :
    g.plan policy = .ok steps ↔
      ∃ order, g.executionOrder = .ok order ∧
        List.Forall₂ (g.PlannedAs policy) (order.filter isStep) steps := by
  rw [plan, bind_eq_ok_iff]
  constructor
  · rintro ⟨nodes, hnodes, h⟩
    obtain ⟨order, horder, hfilter⟩ := bind_eq_ok_iff.mp hnodes
    cases hfilter
    exact ⟨order, horder, planSteps_ok hg horder (List.nil_append _).symm .nil h⟩
  · rintro ⟨order, horder, h⟩
    exact ⟨order.filter isStep, bind_eq_ok_iff.mpr ⟨order, horder, rfl⟩,
      planSteps_eq_ok hg horder (List.nil_append _).symm .nil h⟩

/-! ## Without the order -/

/-- A node that becomes a step is an execution node. -/
theorem mem_executionNodes_of_isStep (hn : n ∈ g.nodes) (hstep : isStep n = true) :
    n ∈ g.executionNodes :=
  List.mem_filter.mpr ⟨hn, (Bool.and_eq_true_iff.mp hstep).1⟩

/-- The nodes that become steps are steps of the order. -/
theorem mem_filter_isStep_iff (hg : g.Accepted) (horder : g.executionOrder = .ok order) :
    n ∈ order.filter isStep ↔ n ∈ g.nodes ∧ isStep n = true := by
  rw [List.mem_filter, mem_executionOrder_iff hg horder]
  refine and_congr_left fun hstep => ⟨fun hneeded => ?_, fun hn => ?_⟩
  · exact mem_of_node? (hneeded.node?_id hg)
  · exact ⟨n, mem_executionNodes_of_isStep hn hstep, .refl⟩

/-- There is a plan exactly when there is an execution order and the graph tells the step of each
node that becomes one. -/
theorem exists_plan_iff (hg : g.Accepted) :
    (∃ steps, g.plan policy = .ok steps) ↔
      (∃ order, g.executionOrder = .ok order) ∧
        ∀ n ∈ g.nodes, isStep n = true → ∃ step, g.PlannedAs policy n step := by
  constructor
  · rintro ⟨steps, h⟩
    obtain ⟨order, horder, hplanned⟩ := (plan_eq_ok_iff hg).mp h
    refine ⟨⟨order, horder⟩, fun n hn hstep => ?_⟩
    have hmem := (mem_filter_isStep_iff hg horder).mpr ⟨hn, hstep⟩
    obtain ⟨step, -, hn⟩ := exists_mem_of_forall₂ hplanned.flip hmem
    exact ⟨step, hn⟩
  · rintro ⟨⟨order, horder⟩, hplanned⟩
    obtain ⟨steps, hsteps⟩ := exists_forall₂ fun n hn =>
      let ⟨hn, hstep⟩ := (mem_filter_isStep_iff hg horder).mp hn
      hplanned n hn hstep
    exact ⟨steps, (plan_eq_ok_iff hg).mpr ⟨order, horder, hsteps⟩⟩

/-- The steps of a plan are those that the graph tells of the nodes that become steps. -/
theorem mem_plan_iff (hg : g.Accepted) (h : g.plan policy = .ok steps) :
    step ∈ steps ↔ ∃ n ∈ g.nodes, isStep n = true ∧ g.PlannedAs policy n step := by
  obtain ⟨order, horder, hplanned⟩ := (plan_eq_ok_iff hg).mp h
  constructor
  · intro hstep
    obtain ⟨n, hn, hn'⟩ := exists_mem_of_forall₂ hplanned hstep
    obtain ⟨hn, hisStep⟩ := (mem_filter_isStep_iff hg horder).mp hn
    exact ⟨n, hn, hisStep, hn'⟩
  · rintro ⟨n, hn, hisStep, hn'⟩
    have hmem := (mem_filter_isStep_iff hg horder).mpr ⟨hn, hisStep⟩
    obtain ⟨step', hstep', hn''⟩ := exists_mem_of_forall₂ hplanned.flip hmem
    exact hn''.eq hn' ▸ hstep'

/-- No node has two steps in a plan. -/
theorem nodup_plan (hg : g.Accepted) (h : g.plan policy = .ok steps) :
    (steps.map PlannedStep.node).Nodup := by
  obtain ⟨order, horder, hplanned⟩ := (plan_eq_ok_iff hg).mp h
  have hids : (order.filter isStep).map Node.id = steps.map PlannedStep.node := by
    rw [← List.forall₂_eq_eq_eq, List.forall₂_map_left_iff, List.forall₂_map_right_iff]
    exact hplanned.imp fun n step hn => hn.node_eq.symm
  rw [← hids]
  exact (nodup_executionOrder hg horder).sublist (List.filter_sublist.map Node.id)

end Graph

end Pipewright
