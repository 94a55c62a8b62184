import Pipewright.Proofs.Plan.Sources
import Pipewright.Proofs.Step.Bindings

/-!
# The plan, by the graph alone

A plan is made step by step with a table of the steps so far, but what it says of a step depends on
the graph only: its inputs are bound to the steps that its data links lead to, all of which stand
earlier in the plan.  Once there is an execution order, a plan can fail only for want of a name or,
if the policy is strict, because of an input that several outputs could be.

* `Graph.PlannedAs`: what the graph says of the step of a node.
* `Graph.planSteps_ok`, `Graph.planSteps_error`: what the loop over the steps gives.
* `Graph.plan_of_graph`: the main statement.
-/

namespace Pipewright

namespace Graph

variable {g : Graph} {n : Node} {order done rest : List Node} {handled : Handled}
  {policy : BindingPolicy}

/-- The step of a node as the graph tells it: its inputs are bound to the steps that its data links
lead to, under their own names. -/
structure PlannedAs (g : Graph) (policy : BindingPolicy) (n : Node) (step : PlannedStep) :
    Prop where
  node_eq : step.node = n.id
  name_eq : StepName.of n = .ok step.name
  operator_eq : n.operator.map Operator.toText = some step.operator
  bindings_eq : ∃ suppliers, (g.stepSources n).mapM Supplier.named = .ok suppliers ∧
    bindInputs n step.name suppliers policy = .ok step.bindings

/-- The reasons for which no plan is made although there is an order. -/
inductive PlanFault (policy : BindingPolicy) : Error → Prop where
  | missingField (node field : String) : PlanFault policy (.missingField node field)
  | ambiguousBinding (node name filename : String) (candidates : List String)
      (hpolicy : policy = .strict) :
      PlanFault policy (.ambiguousBinding node name filename candidates)

/-! ## One step -/

/-- A node without a name lacks a field. -/
theorem planFault_of_name {e : Error} (h : StepName.of n = .error e) : PlanFault policy e := by
  rw [StepName.of] at h
  split at h
  · cases h
  · cases h
    exact .missingField _ _

/-- Inputs that cannot be bound are ambiguous, and the policy is strict. -/
theorem planFault_of_bindInputs {name : StepName} {suppliers : List Supplier} {e : Error}
    (h : bindInputs n name suppliers policy = .error e) : PlanFault policy e := by
  obtain ⟨hpolicy, before, filename, after, -, -, -, rfl⟩ := bindInputs_error h
  exact .ambiguousBinding _ _ _ _ hpolicy

/-- A step is planned as the graph tells it. -/
theorem planStep_ok (hg : g.Accepted) (horder : g.executionOrder = .ok order)
    (hsplit : order.filter isStep = done ++ n :: rest) (hdone : handled.Records done)
    {step : PlannedStep} (h : g.planStep policy handled n = .ok step) :
    g.PlannedAs policy n step := by
  obtain ⟨name, hname, h⟩ := bind_eq_ok_iff.mp h
  obtain ⟨bindings, hbind, h⟩ := bind_eq_ok_iff.mp h
  cases h
  obtain ⟨suppliers, hnamed, heq⟩ := bindStep_eq hg horder hsplit hdone policy name
  have hstep : isStep n = true := by
    have hmem : n ∈ order.filter isStep := by simp [hsplit]
    exact (List.mem_filter.mp hmem).2
  refine ⟨rfl, hname, ?_, suppliers, hnamed, heq ▸ hbind⟩
  obtain ⟨o, ho⟩ := Option.isSome_iff_exists.mp (Bool.and_eq_true_iff.mp hstep).2
  simp [ho]

/-- A step that cannot be planned lacks a name or has an ambiguous input. -/
theorem planStep_error (hg : g.Accepted) (horder : g.executionOrder = .ok order)
    (hsplit : order.filter isStep = done ++ n :: rest) (hdone : handled.Records done)
    {e : Error} (h : g.planStep policy handled n = .error e) : PlanFault policy e := by
  obtain hname | ⟨name, -, h⟩ := bind_eq_error_iff.mp h
  · exact planFault_of_name hname
  · obtain ⟨suppliers, -, heq⟩ := bindStep_eq hg horder hsplit hdone policy name
    obtain hbind | ⟨bindings, -, h⟩ := bind_eq_error_iff.mp h
    · exact planFault_of_bindInputs (heq ▸ hbind)
    · cases h

/-! ## All steps -/

/-- The node of a step has not been dealt with before. -/
theorem id_notMem_of_split (hg : g.Accepted) (horder : g.executionOrder = .ok order)
    (hsplit : order.filter isStep = done ++ n :: rest) : n.id ∉ done.map Node.id := by
  have hnodup : ((order.filter isStep).map Node.id).Nodup :=
    (nodup_executionOrder hg horder).sublist (List.filter_sublist.map Node.id)
  rw [hsplit, List.map_append, List.nodup_append] at hnodup
  exact fun hmem => hnodup.2.2 n.id hmem n.id List.mem_cons_self rfl

/-- The steps are planned as the graph tells them, one for each node. -/
theorem planSteps_ok (hg : g.Accepted) (horder : g.executionOrder = .ok order) {todo : List Node}
    (hsplit : order.filter isStep = done ++ todo) (hdone : handled.Records done)
    {steps : List PlannedStep} (h : planSteps g policy handled todo = .ok steps) :
    List.Forall₂ (g.PlannedAs policy) todo steps := by
  induction todo generalizing done handled steps with
  | nil =>
    cases h
    exact .nil
  | cons n rest ih =>
    obtain ⟨step, hstep, h⟩ := bind_eq_ok_iff.mp h
    obtain ⟨others, hothers, h⟩ := bind_eq_ok_iff.mp h
    cases h
    have hplanned := planStep_ok hg horder hsplit hdone hstep
    have hdone' := hdone.concat hplanned.name_eq (id_notMem_of_split hg horder hsplit)
    exact .cons hplanned (ih (by rw [hsplit, List.append_assoc]; rfl) hdone' hothers)

/-- Steps that cannot be planned lack a name or have an ambiguous input. -/
theorem planSteps_error (hg : g.Accepted) (horder : g.executionOrder = .ok order)
    {todo : List Node} (hsplit : order.filter isStep = done ++ todo) (hdone : handled.Records done)
    {e : Error} (h : planSteps g policy handled todo = .error e) : PlanFault policy e := by
  induction todo generalizing done handled with
  | nil => cases h
  | cons n rest ih =>
    obtain hstep | ⟨step, hstep, h⟩ := bind_eq_error_iff.mp h
    · exact planStep_error hg horder hsplit hdone hstep
    · obtain hothers | ⟨others, -, h⟩ := bind_eq_error_iff.mp h
      · have hplanned := planStep_ok hg horder hsplit hdone hstep
        have hdone' := hdone.concat hplanned.name_eq (id_notMem_of_split hg horder hsplit)
        exact ih (by rw [hsplit, List.append_assoc]; rfl) hdone' hothers
      · cases h

/-- A step that data flows from has a smaller position among the steps. -/
theorem exists_lt_of_mem_stepSources (hback : Search.LinksBack g order) {i : Nat}
    (hi : (order.filter isStep)[i]? = some n) {u : Node} (hu : u ∈ g.stepSources n) :
    ∃ j < i, (order.filter isStep)[j]? = some u := by
  obtain ⟨hlt, hn⟩ := List.getElem?_eq_some_iff.mp hi
  have hsplit : order.filter isStep =
      (order.filter isStep).take i ++ n :: (order.filter isStep).drop (i + 1) := by
    rw [← hn, ← List.drop_eq_getElem_cons hlt, List.take_append_drop]
  obtain ⟨j, hj, rfl⟩ := List.getElem_of_mem (mem_of_mem_stepSources hback hsplit hu)
  rw [List.length_take] at hj
  refine ⟨j, by omega, ?_⟩
  rw [List.getElem_take]
  exact List.getElem?_eq_getElem _

/-- A plan is told by the graph: its steps are those of the execution order, each one is bound to
the steps that its data links lead to, and these stand earlier in the plan.  Once there is an
order, a plan fails only for want of a name or, by the strict policy, for an ambiguous input. -/
theorem plan_of_graph (hg : g.Accepted) (policy : BindingPolicy) :
    (∀ steps, g.plan policy = .ok steps → ∃ order, g.executionOrder = .ok order ∧
      steps.map PlannedStep.node = (order.filter isStep).map Node.id ∧
      ∀ (i : Nat) step, steps[i]? = some step → ∃ n, (order.filter isStep)[i]? = some n ∧
        g.PlannedAs policy n step ∧
        ∀ u ∈ g.stepSources n, ∃ j earlier, j < i ∧ steps[j]? = some earlier ∧
          g.PlannedAs policy u earlier) ∧
    ∀ order e, g.executionOrder = .ok order → g.plan policy = .error e → PlanFault policy e := by
  have hstepNodes : ∀ order, g.executionOrder = .ok order →
      g.plan policy = planSteps g policy [] (order.filter isStep) := by
    intro order horder
    rw [plan, stepNodes, horder]
    rfl
  constructor
  · intro steps h
    cases horder : g.executionOrder with
    | error e =>
      rw [plan, stepNodes, horder] at h
      cases h
    | ok order =>
      have hback := linksBack_executionOrder hg horder
      rw [hstepNodes order horder] at h
      have hplanned := planSteps_ok hg horder (List.nil_append _).symm .nil h
      have hlen := hplanned.length_eq
      have hget : ∀ (i : Nat) n step, (order.filter isStep)[i]? = some n →
          steps[i]? = some step → g.PlannedAs policy n step := by
        intro i n step hn hstep
        obtain ⟨hi, rfl⟩ := List.getElem?_eq_some_iff.mp hn
        obtain ⟨hi', rfl⟩ := List.getElem?_eq_some_iff.mp hstep
        exact hplanned.get hi hi'
      refine ⟨order, rfl, ?_, fun i step hstep => ?_⟩
      · have hnodes := List.forall₂_map_right_iff.mpr (List.forall₂_map_left_iff.mpr
          (hplanned.imp fun n step hp => hp.node_eq.symm))
        exact (List.forall₂_eq_eq_eq ▸ hnodes).symm
      · obtain ⟨hi, -⟩ := List.getElem?_eq_some_iff.mp hstep
        have hn : (order.filter isStep)[i]? = some (order.filter isStep)[i] :=
          List.getElem?_eq_getElem (by omega)
        refine ⟨_, hn, hget i _ step hn hstep, fun u hu => ?_⟩
        obtain ⟨j, hj, hu'⟩ := exists_lt_of_mem_stepSources hback hn hu
        have hearlier : steps[j]? = some steps[j] := List.getElem?_eq_getElem (by omega)
        exact ⟨j, _, hj, hearlier, hget j u _ hu' hearlier⟩
  · intro order e horder h
    rw [hstepNodes order horder] at h
    exact planSteps_error hg horder (List.nil_append _).symm .nil h

/-- In the small document the input of the later step is wired to the output of the earlier one. -/
theorem plan_smallGraph :
    smallGraph.plan .strict = .ok [
      ⟨"b", ⟨"bB"⟩, "r-node", []⟩,
      ⟨"d", ⟨"dD"⟩, "r-node", [⟨1, "x", .wired ⟨"BB", 1⟩⟩]⟩] ∧
    (∀ steps, smallGraph.plan .strict = .ok steps → ∃ order,
      smallGraph.executionOrder = .ok order ∧
      steps.map PlannedStep.node = (order.filter isStep).map Node.id ∧
      ∀ (i : Nat) step, steps[i]? = some step → ∃ n, (order.filter isStep)[i]? = some n ∧
        smallGraph.PlannedAs .strict n step ∧
        ∀ u ∈ smallGraph.stepSources n, ∃ j earlier, j < i ∧ steps[j]? = some earlier ∧
          smallGraph.PlannedAs .strict u earlier) ∧
    ∀ order e, smallGraph.executionOrder = .ok order → smallGraph.plan .strict = .error e →
      PlanFault .strict e :=
  ⟨rfl, plan_of_graph accepted_smallGraph .strict⟩

end Graph

end Pipewright
