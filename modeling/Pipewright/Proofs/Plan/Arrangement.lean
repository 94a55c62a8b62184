import Mathlib.Data.List.Perm.Basic
import Pipewright.Proofs.Plan.Existence
import Pipewright.Proofs.Step.Bindings

/-!
# The plan of a rearranged document

The nodes of a document may stand in any order and in any pipelines: there is a plan for one
arrangement when there is one for the other, and both have the same steps.  When the policy is
strict, the links of each node may change places too.  An input that is wired then has one output
that it could be, so nothing depends on which of several comes first.

* `Node.Rearranged`, `Graph.Alike`: the same nodes with their links in another order.
* `Graph.Alike.needed`, `Graph.Alike.exists_executionOrder`: what the graph leads to.
* `Graph.mem_stepSources_iff`, `Graph.Alike.exists_suppliers`: where data flows from.
* `bindInputs_strict_of_perm`: bindings to suppliers in another order.
* `Graph.plan_arrangement`: the main statement.
-/

namespace Pipewright

/-! ## Nodes with their links in another order -/

/-- The nodes are the same but for the groups that their links stand in, and the order of these. -/
structure Node.Rearranged (m n : Node) : Prop where
  id_eq : m.id = n.id
  kind_eq : m.kind = n.kind
  operator_eq : m.operator = n.operator
  attributes_eq : m.attributes = n.attributes
  links_perm : m.links.Perm n.links

namespace Node.Rearranged

variable {m n : Node}

theorem refl (n : Node) : n.Rearranged n := ⟨rfl, rfl, rfl, rfl, .refl _⟩

theorem symm (h : m.Rearranged n) : n.Rearranged m :=
  ⟨h.id_eq.symm, h.kind_eq.symm, h.operator_eq.symm, h.attributes_eq.symm, h.links_perm.symm⟩

theorem isExecution_eq (h : m.Rearranged n) : m.isExecution = n.isExecution := by
  rw [Node.isExecution, Node.isExecution, h.kind_eq]

theorem isStep_eq (h : m.Rearranged n) : isStep m = isStep n := by
  rw [isStep, isStep, h.isExecution_eq, h.operator_eq]

theorem name_eq (h : m.Rearranged n) : StepName.of m = StepName.of n := by
  rw [StepName.of, StepName.of, h.attributes_eq, h.id_eq]

theorem named_eq (h : m.Rearranged n) : Supplier.named m = Supplier.named n := by
  rw [Supplier.named, Supplier.named, h.name_eq]
  congr 1
  funext name
  rw [Supplier.of, Supplier.of, h.id_eq, h.attributes_eq]

end Node.Rearranged

/-! ## What the graph leads to -/

namespace Graph

variable {g h : Graph} {m n u v : Node}

/-- Each node of either graph is one of the other, but for the order of its links. -/
structure Alike (g h : Graph) : Prop where
  dataOutlet_eq : g.dataOutlet = h.dataOutlet
  forth : ∀ m ∈ g.nodes, ∃ n ∈ h.nodes, m.Rearranged n
  back : ∀ n ∈ h.nodes, ∃ m ∈ g.nodes, n.Rearranged m

namespace Alike

theorem symm (halike : g.Alike h) : h.Alike g :=
  ⟨halike.dataOutlet_eq.symm, halike.back, halike.forth⟩

theorem of_rearranged (houtlet : g.dataOutlet = h.dataOutlet) {nodes : List Node}
    (hperm : g.nodes.Perm nodes) (hall : List.Forall₂ Node.Rearranged nodes h.nodes) :
    g.Alike h where
  dataOutlet_eq := houtlet
  forth m hm := exists_mem_of_forall₂ (hall.flip.imp fun _ _ hr => hr) (hperm.subset hm)
  back n hn := by
    obtain ⟨m, hm, hr⟩ := exists_mem_of_forall₂ hall hn
    exact ⟨m, hperm.symm.subset hm, hr.symm⟩

/-- What one graph finds under an id the other one finds there too, but for the order of its
links. -/
theorem exists_node? (halike : g.Alike h) (hh : h.Accepted) {id : String}
    (hm : g.node? id = some m) : ∃ n, h.node? id = some n ∧ m.Rearranged n := by
  obtain ⟨n, hn, hr⟩ := halike.forth m (mem_of_node? hm)
  have hid : n.id = id := hr.id_eq.symm.trans (id_of_node? hm)
  exact ⟨n, hid ▸ hh.node?_id hn, hr⟩

theorem linksTo (halike : g.Alike h) (hh : h.Accepted) (hr : m.Rearranged n)
    (hlink : g.LinksTo m u) : ∃ v, u.Rearranged v ∧ h.LinksTo n v := by
  obtain ⟨link, hmem, hfollow⟩ := hlink
  obtain ⟨v, hv, hr'⟩ := halike.exists_node? hh (follow_eq_ok_iff.mp hfollow)
  exact ⟨v, hr', link, hr.links_perm.subset hmem, follow_eq_ok_iff.mpr hv⟩

theorem reaches (halike : g.Alike h) (hh : h.Accepted) (hr : m.Rearranged n)
    (hreach : g.Reaches m u) : ∃ v, u.Rearranged v ∧ h.Reaches n v := by
  induction hreach with
  | refl => exact ⟨n, hr, .refl⟩
  | tail _ hlink ih =>
    obtain ⟨v, hv, hreach'⟩ := ih
    obtain ⟨w, hw, hlink'⟩ := halike.linksTo hh hv hlink
    exact ⟨w, hw, hreach'.tail hlink'⟩

theorem needed (halike : g.Alike h) (hh : h.Accepted) (hm : g.Needed m) :
    ∃ n, m.Rearranged n ∧ h.Needed n := by
  obtain ⟨root, hroot, hreach⟩ := hm
  obtain ⟨hmem, hexecution⟩ := List.mem_filter.mp hroot
  obtain ⟨root', hmem', hr⟩ := halike.forth root hmem
  obtain ⟨n, hn, hreach'⟩ := halike.reaches hh hr hreach
  exact ⟨n, hn, root', List.mem_filter.mpr ⟨hmem', hr.isExecution_eq ▸ hexecution⟩, hreach'⟩

/-- A node that depends on itself does so in both graphs. -/
theorem dependsOn_self (halike : g.Alike h) (hh : h.Accepted) (hr : m.Rearranged n)
    (hn : h.Needed n) (hself : g.DependsOn m m) : h.DependsOn n n := by
  obtain ⟨u, hlink, hreach⟩ := hself
  obtain ⟨v, hv, hlink'⟩ := halike.linksTo hh hr hlink
  obtain ⟨w, hw, hreach'⟩ := halike.reaches hh hv hreach
  -- what the circle comes back to has the id of the node, so it is the node
  have hfound := node?_id_of_reaches (hn.node?_id hh) ((Reaches.refl.tail hlink').trans hreach')
  have hid : w.id = n.id := hw.id_eq.symm.trans hr.id_eq
  rw [hid, hn.node?_id hh] at hfound
  obtain rfl := Option.some.inj hfound
  exact ⟨v, hlink', hreach'⟩

/-- When one graph has an execution order, the other one has one too. -/
theorem exists_executionOrder (halike : g.Alike h) (hg : g.Accepted) (hh : h.Accepted)
    (horder : ∃ order, g.executionOrder = .ok order) : ∃ order, h.executionOrder = .ok order := by
  obtain ⟨hresolve, hacyclic⟩ := (exists_executionOrder_iff hg).mp horder
  refine (exists_executionOrder_iff hh).mpr ⟨fun n hn link hlink => ?_, fun n hn hself => ?_⟩
  · obtain ⟨m, hr, hm⟩ := halike.symm.needed hg hn
    obtain ⟨u, hu⟩ := hresolve m hm link (hr.links_perm.subset hlink)
    obtain ⟨v, hv, -⟩ := halike.exists_node? hh (follow_eq_ok_iff.mp hu)
    exact ⟨v, follow_eq_ok_iff.mpr hv⟩
  · obtain ⟨m, hr, hm⟩ := halike.symm.needed hg hn
    exact hacyclic m hm (halike.symm.dependsOn_self hg hr hm hself)

end Alike

/-! ## Where data flows from -/

/-- Data flows to a node from the steps that its data links lead to. -/
theorem mem_stepSources_iff :
    u ∈ g.stepSources n ↔
      isStep u = true ∧ ∃ link ∈ n.links, g.isDataLink link = true ∧
        g.node? link.target = some u := by
  have htargets : u ∈ g.dataTargets n ↔
      ∃ link ∈ g.dataLinks n, g.node? link.target = some u := by
    refine ⟨fun hu => List.mem_filterMap.mp ((distinct_sublist _).subset hu), fun hu => ?_⟩
    -- of the nodes with one id one is kept, and they are all the node found there
    obtain ⟨k, hk, hid⟩ := exists_mem_distinct (List.mem_filterMap.mpr hu)
    obtain ⟨link, -, hlink⟩ := hu
    obtain ⟨link', -, hlink'⟩ := List.mem_filterMap.mp ((distinct_sublist _).subset hk)
    rw [← id_of_node? hlink', hid, id_of_node? hlink, hlink] at hlink'
    obtain rfl := Option.some.inj hlink'
    exact hk
  rw [stepSources, List.mem_filter, htargets, and_comm]
  simp only [dataLinks, List.mem_filter, and_assoc]

/-- Data flows to a node from each step once. -/
theorem nodup_ids_stepSources (g : Graph) (n : Node) : ((g.stepSources n).map Node.id).Nodup := by
  have hall := (pairwise_distinct ((g.dataLinks n).filterMap fun l => g.node? l.target)).sublist
    (List.filter_sublist (p := isStep))
  exact List.pairwise_map.mpr hall

/-- The suppliers of a node are one for each step that data flows from. -/
theorem nodup_of_named {nodes : List Node} {suppliers : List Supplier}
    (hnamed : nodes.mapM Supplier.named = .ok suppliers) (hnodup : (nodes.map Node.id).Nodup) :
    suppliers.Nodup := by
  have hids : nodes.map Node.id = suppliers.map Supplier.node := by
    rw [← List.forall₂_eq_eq_eq, List.forall₂_map_left_iff, List.forall₂_map_right_iff]
    refine (mapM_eq_ok_iff.mp hnamed).imp fun u s hs => ?_
    obtain ⟨name, -, h⟩ := bind_eq_ok_iff.mp hs
    cases h
    rfl
  exact List.Nodup.of_map Supplier.node (hids ▸ hnodup)

namespace Alike

theorem mem_stepSources (halike : g.Alike h) (hh : h.Accepted) (hr : m.Rearranged n)
    (hu : u ∈ g.stepSources m) : ∃ v ∈ h.stepSources n, u.Rearranged v := by
  obtain ⟨hstep, link, hlink, hdata, hfound⟩ := mem_stepSources_iff.mp hu
  obtain ⟨v, hv, hr'⟩ := halike.exists_node? hh hfound
  rw [isDataLink, halike.dataOutlet_eq] at hdata
  exact ⟨v, mem_stepSources_iff.mpr
    ⟨hr'.isStep_eq ▸ hstep, link, hr.links_perm.subset hlink, hdata, hv⟩, hr'⟩

/-- The suppliers of a node are the same in both graphs, but for their order. -/
theorem exists_suppliers (halike : g.Alike h) (hg : g.Accepted) (hh : h.Accepted)
    (hr : m.Rearranged n) {suppliers : List Supplier}
    (hnamed : (g.stepSources m).mapM Supplier.named = .ok suppliers) :
    ∃ suppliers', (h.stepSources n).mapM Supplier.named = .ok suppliers' ∧
      suppliers.Perm suppliers' := by
  have heach : ∀ v ∈ h.stepSources n, ∃ s, Supplier.named v = .ok s := by
    intro v hv
    obtain ⟨u, hu, hr'⟩ := halike.symm.mem_stepSources hg hr.symm hv
    obtain ⟨s, -, hs⟩ := exists_mem_of_forall₂ (mapM_eq_ok_iff.mp hnamed).flip hu
    exact ⟨s, hr'.named_eq.trans hs⟩
  obtain ⟨suppliers', hsuppliers'⟩ := exists_forall₂ heach
  have hnamed' := mapM_eq_ok_iff.mpr hsuppliers'
  refine ⟨suppliers', hnamed', (List.perm_ext_iff_of_nodup
    (nodup_of_named hnamed (nodup_ids_stepSources g m))
    (nodup_of_named hnamed' (nodup_ids_stepSources h n))).mpr fun s => ?_⟩
  rw [mem_iff_of_mapM_eq_ok hnamed, mem_iff_of_mapM_eq_ok hnamed']
  constructor
  · rintro ⟨u, hu, hs⟩
    obtain ⟨v, hv, hr'⟩ := halike.mem_stepSources hh hr hu
    exact ⟨v, hv, hr'.named_eq.symm.trans hs⟩
  · rintro ⟨v, hv, hs⟩
    obtain ⟨u, hu, hr'⟩ := halike.symm.mem_stepSources hg hr.symm hv
    exact ⟨u, hu, hr'.named_eq.symm.trans hs⟩

end Alike

end Graph

/-! ## Bindings to suppliers in another order -/

/-- Of at most one entry there is one order. -/
theorem eq_of_perm_of_length_le_one {α : Type} {l l' : List α} (h : l.Perm l')
    (hlength : l.length ≤ 1) : l = l' := by
  match l, hlength with
  | [], _ => exact h.nil_eq
  | [a], _ => exact (List.perm_singleton.mp h.symm).symm

/-- By the strict policy the bindings do not depend on the order of the suppliers. -/
theorem bindInputs_strict_of_perm {m n : Node} (hattributes : m.attributes = n.attributes)
    {name : StepName} {suppliers suppliers' : List Supplier} (hperm : suppliers.Perm suppliers')
    {bindings : List Binding} (h : bindInputs m name suppliers .strict = .ok bindings) :
    bindInputs n name suppliers' .strict = .ok bindings := by
  rw [bindInputs, mapM_eq_ok_iff] at h ⊢
  rw [← hattributes]
  refine h.imp fun ⟨filename, i⟩ b hb => ?_
  simp only [bindInput] at hb ⊢
  have hproducers : (producersOf filename suppliers).Perm (producersOf filename suppliers') :=
    hperm.flatMap_right _
  split at hb
  · cases hb
  · next hone =>
    have hlength : (producersOf filename suppliers).length ≤ 1 := by simpa using hone
    rw [← eq_of_perm_of_length_le_one hproducers hlength, if_neg hone]
    exact hb

/-! ## Plans -/

/-- Either both are plans or neither is, and two plans have the same steps. -/
def SameSteps (a b : Except Error (List PlannedStep)) : Prop :=
  ((∃ steps, a = .ok steps) ↔ ∃ steps, b = .ok steps) ∧
    ∀ steps steps', a = .ok steps → b = .ok steps' → steps.Perm steps'

namespace Graph

variable {g h : Graph} {m n : Node} {policy : BindingPolicy} {step : PlannedStep}

/-- By the strict policy a step is planned alike in both graphs. -/
theorem PlannedAs.of_alike (hplanned : g.PlannedAs .strict m step) (halike : g.Alike h)
    (hg : g.Accepted) (hh : h.Accepted) (hr : m.Rearranged n) : h.PlannedAs .strict n step := by
  obtain ⟨suppliers, hnamed, hbindings⟩ := hplanned.bindings_eq
  obtain ⟨suppliers', hnamed', hperm⟩ := halike.exists_suppliers hg hh hr hnamed
  exact {
    node_eq := hplanned.node_eq.trans hr.id_eq
    name_eq := hr.name_eq ▸ hplanned.name_eq
    operator_eq := hr.operator_eq ▸ hplanned.operator_eq
    bindings_eq := ⟨suppliers', hnamed',
      bindInputs_strict_of_perm hr.attributes_eq hperm hbindings⟩ }

/-- Graphs with the same nodes find the same nodes. -/
theorem node?_eq_of_perm (hh : h.Accepted) (hperm : g.nodes.Perm h.nodes) (id : String) :
    g.node? id = h.node? id := by
  rcases hfound : g.node? id with _ | n
  · rw [node?_eq_none_iff] at hfound
    exact (node?_eq_none_iff.mpr fun n hn => hfound n (hperm.symm.subset hn)).symm
  · rw [← id_of_node? hfound]
    exact (hh.node?_id (hperm.subset (mem_of_node? hfound))).symm

/-- A step is planned alike in graphs with the same nodes. -/
theorem PlannedAs.of_perm (hplanned : g.PlannedAs policy n step)
    (hh : h.Accepted) (houtlet : g.dataOutlet = h.dataOutlet) (hperm : g.nodes.Perm h.nodes) :
    h.PlannedAs policy n step := by
  have hdata : g.isDataLink = h.isDataLink :=
    funext fun link => by rw [isDataLink, isDataLink, houtlet]
  have hfound : g.node? = h.node? := funext (node?_eq_of_perm hh hperm)
  have hsources : h.stepSources n = g.stepSources n := by
    simp only [stepSources, dataTargets, dataLinks, hdata, hfound]
  exact ⟨hplanned.node_eq, hplanned.name_eq, hplanned.operator_eq, hsources ▸ hplanned.bindings_eq⟩

/-- When there is a plan for one graph, there is one for the other, if it tells all the steps that
the first one tells. -/
theorem Alike.exists_plan (halike : g.Alike h) (hg : g.Accepted) (hh : h.Accepted)
    (htell : ∀ m ∈ g.nodes, ∀ n ∈ h.nodes, m.Rearranged n → ∀ step,
      g.PlannedAs policy m step → h.PlannedAs policy n step)
    (hplan : ∃ steps, g.plan policy = .ok steps) : ∃ steps, h.plan policy = .ok steps := by
  obtain ⟨horder, hplanned⟩ := (exists_plan_iff hg).mp hplan
  refine (exists_plan_iff hh).mpr ⟨halike.exists_executionOrder hg hh horder, fun n hn hstep => ?_⟩
  obtain ⟨m, hm, hr⟩ := halike.back n hn
  obtain ⟨step, htold⟩ := hplanned m hm (hr.isStep_eq ▸ hstep)
  exact ⟨step, htell m hm n hn hr.symm step htold⟩

/-- Alike graphs that tell the same steps have plans with the same steps. -/
theorem Alike.sameSteps (halike : g.Alike h) (hg : g.Accepted) (hh : h.Accepted)
    (htell : ∀ m ∈ g.nodes, ∀ n ∈ h.nodes, m.Rearranged n → ∀ step,
      g.PlannedAs policy m step ↔ h.PlannedAs policy n step) :
    SameSteps (g.plan policy) (h.plan policy) := by
  refine ⟨⟨halike.exists_plan hg hh fun m hm n hn hr step => (htell m hm n hn hr step).mp,
    halike.symm.exists_plan hh hg fun n hn m hm hr step => (htell m hm n hn hr.symm step).mpr⟩,
    fun steps steps' hsteps hsteps' => ?_⟩
  refine (List.perm_ext_iff_of_nodup (nodup_plan hg hsteps).of_map
    (nodup_plan hh hsteps').of_map).mpr fun step => ?_
  rw [mem_plan_iff hg hsteps, mem_plan_iff hh hsteps']
  constructor
  · rintro ⟨m, hm, hstep, htold⟩
    obtain ⟨n, hn, hr⟩ := halike.forth m hm
    exact ⟨n, hn, hr.isStep_eq ▸ hstep, (htell m hm n hn hr step).mp htold⟩
  · rintro ⟨n, hn, hstep, htold⟩
    obtain ⟨m, hm, hr⟩ := halike.back n hn
    exact ⟨m, hm, hr.isStep_eq ▸ hstep, (htell m hm n hn hr.symm step).mpr htold⟩

/-- Where a node stands in the document does not matter for the plan.  With the nodes in another
order, and in other pipelines, there is a plan by the same policy, and its steps have the same
nodes, names, operators and bindings.  By the strict policy this is so when the links of the nodes
change places too. -/
theorem plan_arrangement (hg : g.Accepted) (hh : h.Accepted)
    (houtlet : g.dataOutlet = h.dataOutlet) :
    (g.nodes.Perm h.nodes → ∀ policy, SameSteps (g.plan policy) (h.plan policy)) ∧
      ((∃ nodes, g.nodes.Perm nodes ∧ List.Forall₂ Node.Rearranged nodes h.nodes) →
        SameSteps (g.plan .strict) (h.plan .strict)) := by
  constructor
  · intro hperm policy
    have halike : g.Alike h := .of_rearranged houtlet hperm
      (List.forall₂_same.mpr fun n _ => .refl n)
    refine halike.sameSteps hg hh fun m hm n hn hr step => ?_
    -- both are the node of their common id
    have hfound := hh.node?_id (hperm.subset hm)
    rw [hr.id_eq, hh.node?_id hn] at hfound
    obtain rfl : n = m := Option.some.inj hfound
    exact ⟨fun htold => htold.of_perm hh houtlet hperm,
      fun htold => htold.of_perm hg houtlet.symm hperm.symm⟩
  · rintro ⟨nodes, hperm, hall⟩
    have halike : g.Alike h := .of_rearranged houtlet hperm hall
    exact halike.sameSteps hg hh fun m _ n _ hr step =>
      ⟨fun htold => htold.of_alike halike hg hh hr,
        fun htold => htold.of_alike halike.symm hh hg hr.symm⟩

/-! ### The small document, arranged otherwise -/

end Graph

/-- The nodes of the small document in two pipelines and another order, with these groups of links
at the step that reads. -/
def arrangedDocument (groups : List LinkGroup) : Document := ⟨[⟨"", [
  { id := "n" },
  { id := "d", kind := .execution, operator := some .r,
    attributes := { filename := some "d", memory := none, dependencies := ["x"] },
    inputs := groups }]⟩, ⟨"", [
  { id := "b", kind := .execution, operator := some .r,
    attributes := { filename := some "b", memory := none, outputs := ["x"] },
    inputs := [⟨none, [⟨"n", none⟩]⟩] }]⟩]⟩

/-- The links in one group, as in the small document. -/
def sameLinks : List LinkGroup := [⟨none, [⟨"b", some "outPort"⟩, ⟨"n", none⟩]⟩]

/-- The links in two groups and the other order. -/
def swappedLinks : List LinkGroup := [⟨none, [⟨"n", none⟩]⟩, ⟨none, [⟨"b", some "outPort"⟩]⟩]

/-- The graph of the arranged document. -/
def arrangedGraph (groups : List LinkGroup) : Graph :=
  .ofDocument (arrangedDocument groups) Graph.defaultOutlet

theorem accepted_arrangedGraph_sameLinks : (arrangedGraph sameLinks).Accepted :=
  Graph.accepted_ofDocument (by decide) (by decide) _

theorem accepted_arrangedGraph_swappedLinks : (arrangedGraph swappedLinks).Accepted :=
  Graph.accepted_ofDocument (by decide) (by decide) _

namespace Graph

/-- The small document has the same plan when its nodes stand elsewhere, and by the strict policy
also when the links stand elsewhere. -/
theorem plan_arrangedGraph :
    (∀ policy, SameSteps (smallGraph.plan policy) ((arrangedGraph sameLinks).plan policy)) ∧
      SameSteps (smallGraph.plan .strict) ((arrangedGraph swappedLinks).plan .strict) := by
  obtain ⟨hmoved, -⟩ := plan_arrangement accepted_smallGraph accepted_arrangedGraph_sameLinks rfl
  obtain ⟨-, hswapped⟩ :=
    plan_arrangement accepted_smallGraph accepted_arrangedGraph_swappedLinks rfl
  have hperm : smallGraph.nodes.Perm (arrangedGraph sameLinks).nodes := by decide
  refine ⟨hmoved hperm, hswapped ⟨(arrangedGraph sameLinks).nodes, hperm, ?_⟩⟩
  refine .cons (.refl _) (.cons ⟨rfl, rfl, rfl, rfl, ?_⟩ (.cons (.refl _) .nil))
  decide

end Graph

end Pipewright
