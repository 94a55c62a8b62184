import Pipewright.Proofs.Diagnostics.Clean
import Pipewright.Proofs.Step.Names

/-!
# Names that collide

A rule collects the execution nodes of each name and reports names that several of them have.
When it reports nothing, the steps of a plan have different names.  The labels of their processes
may still be equal: they are the names in upper case, and names that differ in the case of letters
only are different to the rule.

* `Graph.getD_lookup_collect`, `Graph.getD_lookup_nodesByName`: the nodes that are collected under a
  name.
* `Graph.eq_of_no_collision`: without a report, a name has one node.
* `Graph.plan_symbols`: the names and labels of a plan without such reports.
* `Graph.alikeGraph_collides`: two steps with one label that are not reported.
-/

namespace Pipewright

namespace Graph

variable {g : Graph} {m n : Node} {name : StepName} {policy : BindingPolicy}
  {steps : List PlannedStep}

/-- The nodes of a list that have a name. -/
def named (name : String) (nodes : List Node) : List Node :=
  nodes.filter fun n => (StepName.of n).toOption = some ⟨name⟩

theorem mem_named_iff {nodes : List Node} :
    n ∈ named name.text nodes ↔ n ∈ nodes ∧ StepName.of n = .ok name := by
  rw [named, List.mem_filter, decide_eq_true_iff]
  refine and_congr_right fun _ => ⟨eq_ok_of_toOption, fun h => ?_⟩
  rw [h]
  rfl

/-- The groups with one more node, behind those of the same name. -/
def collect (groups : List (String × List Node)) (n : Node) : List (String × List Node) :=
  match StepName.of n with
  | .error _ => groups
  | .ok name => putKey groups name.text ((groups.lookup name.text).getD [] ++ [n])

theorem nodesByName_eq (g : Graph) : g.nodesByName = g.executionNodes.foldl collect [] := rfl

/-- A node is collected under its name and nowhere else. -/
theorem getD_lookup_collect (groups : List (String × List Node)) (n : Node) (name : String) :
    ((collect groups n).lookup name).getD [] =
      (groups.lookup name).getD [] ++ named name [n] := by
  rw [collect, named, List.filter_singleton]
  rcases StepName.of n with e | k
  · simp [Except.toOption]
  · by_cases hk : k.text = name
    · simp [lookup_putKey, Except.toOption, ← hk]
    · have hne : k ≠ ⟨name⟩ := fun h => hk (congrArg StepName.text h)
      simp [lookup_putKey, Except.toOption, Ne.symm hk, hne]

/-- Under a name the execution nodes that have it are collected. -/
theorem getD_lookup_nodesByName (g : Graph) (name : String) :
    (g.nodesByName.lookup name).getD [] = named name g.executionNodes := by
  -- nodes that are collected stand behind those that were there before
  have hcollect : ∀ (nodes : List Node) (groups : List (String × List Node)),
      ((nodes.foldl collect groups).lookup name).getD [] =
        (groups.lookup name).getD [] ++ named name nodes := by
    intro nodes
    induction nodes with
    | nil => exact fun groups => (List.append_nil _).symm
    | cons n rest ih =>
      intro groups
      rw [List.foldl_cons, ih, getD_lookup_collect, List.append_assoc, named, named, named,
        ← List.filter_append, List.singleton_append]
  rw [nodesByName_eq]
  exact (hcollect g.executionNodes []).trans (List.nil_append _)

/-- When no name is reported, each name has one node. -/
theorem eq_of_no_collision (hnone : ∀ d ∈ g.diagnostics, d.rule ≠ .nameCollision)
    (hm : m ∈ g.executionNodes) (hn : n ∈ g.executionNodes) (hmname : StepName.of m = .ok name)
    (hnname : StepName.of n = .ok name) : m = n := by
  have hm' := mem_named_iff.mpr ⟨hm, hmname⟩
  have hn' := mem_named_iff.mpr ⟨hn, hnname⟩
  rw [← getD_lookup_nodesByName] at hm' hn'
  rcases hlookup : g.nodesByName.lookup name.text with _ | group
  · rw [hlookup] at hm'
    cases hm'
  · rw [hlookup, Option.getD_some] at hm' hn'
    match group, hlookup with
    | [k], _ =>
      rw [List.mem_singleton.mp hm', List.mem_singleton.mp hn']
    | first :: second :: rest, hlookup =>
      -- two nodes under one name are reported
      obtain ⟨before, after, hgroups, -⟩ := List.lookup_eq_some_iff.mp hlookup
      have hmem : (name.text, first :: second :: rest) ∈ g.nodesByName := by simp [hgroups]
      obtain ⟨d, hd, hrule⟩ : ∃ d ∈ g.nameCollisions, d.rule = .nameCollision :=
        ⟨_, List.mem_filterMap.mpr ⟨_, hmem, rfl⟩, rfl⟩
      exact absurd hrule (hnone d (mem_diagnostics (r := .nameCollision) hd))

/-- When no name is reported, the steps of a plan have different names.  Two of them have one label
exactly when their names differ in the case of letters only. -/
theorem plan_symbols (hg : g.Accepted) (hplan : g.plan policy = .ok steps)
    (hnone : ∀ d ∈ g.diagnostics, d.rule ≠ .nameCollision) :
    steps.Pairwise fun s t => s.name ≠ t.name ∧
      (s.name.label = t.name.label ↔ s.name.text.toLower = t.name.text.toLower) := by
  refine (List.pairwise_map.mp (nodup_plan hg hplan)).imp_of_mem fun {s t} hs ht hst => ?_
  obtain ⟨m, hm, hmstep, hs⟩ := (mem_plan_iff hg hplan).mp hs
  obtain ⟨n, hn, hnstep, ht⟩ := (mem_plan_iff hg hplan).mp ht
  refine ⟨fun heq => ?_, StepName.label_eq_label_iff⟩
  obtain rfl := eq_of_no_collision hnone (mem_executionNodes_of_isStep hm hmstep)
    (mem_executionNodes_of_isStep hn hnstep) hs.name_eq (heq ▸ ht.name_eq)
  exact hst (hs.node_eq.trans ht.node_eq.symm)

/-! ## Names that differ in case -/

end Graph

/-- Two steps whose labels are alike but for an underscore, and whose ids begin alike. -/
def alikeDocument : Document := ⟨[⟨"", [
  { id := "xyz1", kind := .execution, operator := some .r,
    attributes :=
      { label := some "load_data", filename := some "a.R", runtimeEnvironment := "r" } },
  { id := "xyz2", kind := .execution, operator := some .r,
    attributes :=
      { label := some "loaddata", filename := some "b.R", runtimeEnvironment := "r" } }]⟩]⟩

namespace Graph

/-- The graph of the two steps. -/
def alikeGraph : Graph := ofDocument alikeDocument defaultOutlet

theorem accepted_alikeGraph : alikeGraph.Accepted :=
  accepted_ofDocument (by decide) (by decide) _

/-- The steps of the two nodes. -/
def alikeSteps : List PlannedStep :=
  [⟨"xyz1", ⟨"loadDataXyz"⟩, "r-node", []⟩, ⟨"xyz2", ⟨"loaddataXyz"⟩, "r-node", []⟩]

theorem plan_alikeGraph (policy : BindingPolicy) : alikeGraph.plan policy = .ok alikeSteps :=
  eq_ok_of_toOption (by cases policy <;> decide +kernel)

theorem diagnostics_alikeGraph : alikeGraph.diagnostics = [] := by decide +kernel

/-- The two steps have different names, and one label if these are equal but for the case. -/
theorem plan_symbols_alikeGraph : alikeSteps.Pairwise fun s t => s.name ≠ t.name ∧
    (s.name.label = t.name.label ↔ s.name.text.toLower = t.name.text.toLower) :=
  plan_symbols accepted_alikeGraph (plan_alikeGraph .firstMatch)
    (by rw [diagnostics_alikeGraph]; exact fun _ h => absurd h List.not_mem_nil)

/-- The two steps have one label, and nothing is reported about their document. -/
theorem alikeGraph_collides : alikeGraph.Accepted ∧
    alikeGraph.plan .firstMatch = .ok alikeSteps ∧
    (∀ d ∈ alikeGraph.diagnostics, d.rule ≠ .nameCollision) ∧
    ¬ (alikeSteps.map fun s => s.name.label).Nodup := by
  refine ⟨accepted_alikeGraph, plan_alikeGraph .firstMatch, ?_, by decide⟩
  rw [diagnostics_alikeGraph]
  exact fun _ h => absurd h List.not_mem_nil

end Graph

end Pipewright
