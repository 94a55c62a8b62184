import Pipewright.Plan
import Pipewright.Proofs.Graph.Topological
import Pipewright.Proofs.Results

/-!
# Where data flows from, by the graph alone

The plan looks the suppliers of a step up among the steps that have been dealt with, and passes
over those that are not there.  The graph says the same without a table: the suppliers are the
steps among the nodes that the data links lead to.  Since links lead back in the execution order,
a step that is looked up has been dealt with, so what the table passes over is no step at all.

* `Graph.dataTargets`, `Graph.stepSources`: where data flows from, read off the links.
* `Supplier.named`: the supplier that a node is under its own name.
* `Handled.Records`: the table holds the names of the steps that have been dealt with.
* `Graph.mem_of_mem_stepSources`: a step that data flows from stands earlier.
* `Graph.exists_suppliers`: the suppliers that are looked up are those that the graph tells.
-/

namespace Pipewright

/-- The supplier that a node is under its own name. -/
def Supplier.named (u : Node) : Except Error Supplier := do
  return Supplier.of u (← StepName.of u)

namespace Graph

variable {g : Graph} {n u : Node} {order : List Node}

/-- The nodes that the data links of a node lead to, each once, in the order of the links. -/
def dataTargets (g : Graph) (n : Node) : List Node :=
  distinct ((g.dataLinks n).filterMap fun l => g.node? l.target)

/-- The steps among the nodes that the data links of a node lead to. -/
def stepSources (g : Graph) (n : Node) : List Node :=
  (g.dataTargets n).filter isStep

/-- A link of the node leads to each node that data flows from. -/
theorem linksTo_of_mem_dataTargets (h : u ∈ g.dataTargets n) : g.LinksTo n u := by
  obtain ⟨link, hlink, hu⟩ := List.mem_filterMap.mp ((distinct_sublist _).subset h)
  exact ⟨link, (List.mem_filter.mp hlink).1, follow_eq_ok_iff.mpr hu⟩

/-- Following links that lead somewhere gives the nodes found under their targets. -/
theorem mapM_follow_eq_ok {links : List Link} (h : ∀ link ∈ links, ∃ m, g.follow n link = .ok m) :
    links.mapM (g.follow n) = .ok (links.filterMap fun l => g.node? l.target) := by
  induction links with
  | nil => rfl
  | cons link rest ih =>
    obtain ⟨m, hm⟩ := h link List.mem_cons_self
    have hrest := ih fun l hl => h l (List.mem_cons_of_mem _ hl)
    rw [List.mapM_cons, hm, hrest, List.filterMap_cons, follow_eq_ok_iff.mp hm]
    rfl

/-- Where all links lead somewhere, data flows from where the data links lead to. -/
theorem dataSources_eq_ok (h : ∀ link ∈ n.links, ∃ m, g.follow n link = .ok m) :
    g.dataSources n = .ok (g.dataTargets n) := by
  have hdata : ∀ link ∈ g.dataLinks n, ∃ m, g.follow n link = .ok m := fun link hlink =>
    h link (List.mem_filter.mp hlink).1
  rw [dataSources, mapM_follow_eq_ok hdata]
  rfl

/-! ## Steps stand after the steps they depend on -/

/-- The steps before a step in the order are those of the nodes before it. -/
theorem exists_split_of_filter {done rest : List Node}
    (hsplit : order.filter isStep = done ++ n :: rest) :
    ∃ before after, order = before ++ n :: after ∧ before.filter isStep = done := by
  obtain ⟨l₁, l₂, rfl, rfl, h₂⟩ := List.filter_eq_append_iff.mp hsplit
  obtain ⟨m₁, m₂, rfl, hm₁, -, -⟩ := List.filter_eq_cons_iff.mp h₂
  refine ⟨l₁ ++ m₁, m₂, by rw [List.append_assoc], ?_⟩
  rw [List.filter_append, List.filter_eq_nil_iff.mpr hm₁, List.append_nil]

/-- All links of a step in the order lead somewhere. -/
theorem exists_follow_of_split (hback : Search.LinksBack g order) {done rest : List Node}
    (hsplit : order.filter isStep = done ++ n :: rest) :
    ∀ link ∈ n.links, ∃ m, g.follow n link = .ok m := by
  intro link hlink
  obtain ⟨before, after, horder, -⟩ := exists_split_of_filter hsplit
  obtain ⟨m, -, hm⟩ := hback before n after horder link hlink
  exact ⟨m, hm⟩

/-- A step that data flows from stands earlier in the order. -/
theorem mem_of_mem_stepSources (hback : Search.LinksBack g order) {done rest : List Node}
    (hsplit : order.filter isStep = done ++ n :: rest) (hu : u ∈ g.stepSources n) : u ∈ done := by
  obtain ⟨before, after, horder, rfl⟩ := exists_split_of_filter hsplit
  obtain ⟨hmem, hstep⟩ := List.mem_filter.mp hu
  obtain ⟨link, hlink, hfollow⟩ := linksTo_of_mem_dataTargets hmem
  obtain ⟨m, hm, hm'⟩ := hback before n after horder link hlink
  obtain rfl := Except.ok.inj (hm'.symm.trans hfollow)
  exact List.mem_filter.mpr ⟨hm, hstep⟩

end Graph

/-! ## The table of steps -/

/-- The table holds the names of the nodes of a list and of no other node. -/
structure Handled.Records (handled : Handled) (done : List Node) : Prop where
  of_mem : ∀ u ∈ done, ∃ name, StepName.of u = .ok name ∧ handled.lookup u.id = some name
  of_notMem : ∀ id, id ∉ done.map Node.id → handled.lookup id = none

namespace Handled.Records

variable {g : Graph} {handled : Handled} {done : List Node} {n : Node}

theorem nil : Handled.Records [] [] where
  of_mem := by simp
  of_notMem := by simp

/-- The table grows with the list. -/
theorem concat (h : handled.Records done) {name : StepName} (hname : StepName.of n = .ok name)
    (hfresh : n.id ∉ done.map Node.id) :
    Handled.Records ((n.id, name) :: handled) (done ++ [n]) where
  of_mem u hu := by
    obtain hu | hu := List.mem_append.mp hu
    · obtain ⟨name', hname', hlookup⟩ := h.of_mem u hu
      have hne : u.id ≠ n.id := fun heq => hfresh (heq ▸ List.mem_map_of_mem hu)
      exact ⟨name', hname', by rw [lookup_cons_eq, if_neg hne, hlookup]⟩
    · obtain rfl := List.mem_singleton.mp hu
      exact ⟨name, hname, by rw [lookup_cons_eq, if_pos rfl]⟩
  of_notMem id hid := by
    rw [List.map_append, List.mem_append, not_or, List.map_singleton, List.mem_singleton] at hid
    rw [lookup_cons_eq, if_neg hid.2]
    exact h.of_notMem id hid.1

/-- Looking nodes up in the table finds the steps among them under their names, so long as these
have been dealt with. -/
theorem mapM_named (h : handled.Records done) {nodes : List Node}
    (hstep : ∀ u ∈ nodes, isStep u = true → u ∈ done)
    (hother : ∀ u ∈ nodes, ¬ isStep u = true → u.id ∉ done.map Node.id) :
    (nodes.filter isStep).mapM Supplier.named =
      .ok (nodes.filterMap fun u => (handled.lookup u.id).map (Supplier.of u)) := by
  induction nodes with
  | nil => rfl
  | cons u rest ih =>
    have hrest := ih (fun v hv => hstep v (List.mem_cons_of_mem _ hv))
      (fun v hv => hother v (List.mem_cons_of_mem _ hv))
    by_cases hu : isStep u = true
    · obtain ⟨name, hname, hlookup⟩ := h.of_mem u (hstep u List.mem_cons_self hu)
      have hnamed : Supplier.named u = .ok (Supplier.of u name) := by
        rw [Supplier.named, hname]
        rfl
      rw [List.filter_cons_of_pos hu, List.mapM_cons, hnamed, hrest,
        List.filterMap_cons_some (by rw [hlookup]; rfl)]
      rfl
    · have hlookup := h.of_notMem u.id (hother u List.mem_cons_self hu)
      rw [List.filter_cons_of_neg hu, hrest, List.filterMap_cons_none (by rw [hlookup]; rfl)]

end Handled.Records

namespace Graph

variable {g : Graph} {n u : Node} {order done rest : List Node} {handled : Handled}

/-- The suppliers that are looked up are the steps that the graph tells, under their own names. -/
theorem exists_suppliers (hg : g.Accepted) (horder : g.executionOrder = .ok order)
    (hsplit : order.filter isStep = done ++ n :: rest) (hdone : handled.Records done) :
    ∃ suppliers, g.suppliers handled n = .ok suppliers ∧
      (g.stepSources n).mapM Supplier.named = .ok suppliers := by
  have hback := linksBack_executionOrder hg horder
  have hstep : ∀ u ∈ g.dataTargets n, isStep u = true → u ∈ done := by
    intro u hu hstep
    exact mem_of_mem_stepSources hback hsplit (List.mem_filter.mpr ⟨hu, hstep⟩)
  have hother : ∀ u ∈ g.dataTargets n, ¬ isStep u = true → u.id ∉ done.map Node.id := by
    intro u hu hstep hid
    -- a step that has been dealt with under the same id would be the same node
    obtain ⟨m, hm, heq⟩ := List.mem_map.mp hid
    have hstepNode : m ∈ order.filter isStep := hsplit ▸ List.mem_append_left _ hm
    obtain ⟨hmorder, hmstep⟩ := List.mem_filter.mp hstepNode
    have hfound := ((mem_executionOrder_iff hg horder).mp hmorder).node?_id hg
    obtain ⟨link, -, hfollow⟩ := linksTo_of_mem_dataTargets hu
    rw [heq, node?_id_of_follow hfollow] at hfound
    exact hstep (Option.some.inj hfound ▸ hmstep)
  refine ⟨_, ?_, hdone.mapM_named hstep hother⟩
  rw [suppliers, dataSources_eq_ok (exists_follow_of_split hback hsplit)]
  rfl

/-- A step is bound to the suppliers that the graph tells. -/
theorem bindStep_eq (hg : g.Accepted) (horder : g.executionOrder = .ok order)
    (hsplit : order.filter isStep = done ++ n :: rest) (hdone : handled.Records done)
    (policy : BindingPolicy) (name : StepName) :
    ∃ suppliers, (g.stepSources n).mapM Supplier.named = .ok suppliers ∧
      g.bindStep policy handled n name = bindInputs n name suppliers policy := by
  obtain ⟨suppliers, hsuppliers, hnamed⟩ := exists_suppliers hg horder hsplit hdone
  refine ⟨suppliers, hnamed, ?_⟩
  rw [bindStep, hsuppliers]
  rfl

end Graph

end Pipewright
