import Pipewright.Graph.Order
import Pipewright.Step.Binding

/-!
# The plan of a workflow

The steps of a workflow are the execution nodes with an operator, in execution order.  The inputs
of a step are bound to the outputs of steps before it.

* `isStep`: the nodes that become steps.
* `Handled`: the steps that have been dealt with, and what can be wired to them.
* `PlannedStep`, `Graph.plan`: the steps with their names and bindings.
-/

namespace Pipewright

/-- A node becomes a step when it is an execution node with an operator. -/
def isStep (node : Node) : Bool :=
  node.isExecution && node.operator.isSome

/-- The steps that have been dealt with: their names by node id. -/
abbrev Handled := List (String × StepName)

namespace Graph

/-- The steps among those dealt with that data flows from. -/
def suppliers (g : Graph) (handled : Handled) (node : Node) : Except Error (List Supplier) := do
  let nodes ← g.dataSources node
  return nodes.filterMap fun u => (handled.lookup u.id).map (Supplier.of u)

/-- The bindings of a step after the steps that have been dealt with. -/
def bindStep (g : Graph) (policy : BindingPolicy) (handled : Handled) (node : Node)
    (name : StepName) : Except Error (List Binding) := do
  bindInputs node name (← g.suppliers handled node) policy

end Graph

/-- A step with its name, the word of its operator and the bindings of its inputs. -/
structure PlannedStep where
  node : String
  name : StepName
  operator : String
  bindings : List Binding
deriving DecidableEq, Repr

namespace Graph

/-- Plans the step of a node. -/
def planStep (g : Graph) (policy : BindingPolicy) (handled : Handled) (node : Node) :
    Except Error PlannedStep := do
  let name ← StepName.of node
  let bindings ← g.bindStep policy handled node name
  return ⟨node.id, name, (node.operator.map Operator.toText).getD "", bindings⟩

/-- Plans the steps of nodes that follow the steps that have been dealt with. -/
def planSteps (g : Graph) (policy : BindingPolicy) :
    Handled → List Node → Except Error (List PlannedStep)
  | _, [] => .ok []
  | handled, node :: rest => do
    let step ← g.planStep policy handled node
    return step :: (← planSteps g policy ((node.id, step.name) :: handled) rest)

/-- The nodes that become steps, in execution order. -/
def stepNodes (g : Graph) : Except Error (List Node) := do
  return (← g.executionOrder).filter isStep

/-- The steps of the workflow of a graph. -/
def plan (g : Graph) (policy : BindingPolicy) : Except Error (List PlannedStep) := do
  planSteps g policy [] (← g.stepNodes)

end Graph

end Pipewright
