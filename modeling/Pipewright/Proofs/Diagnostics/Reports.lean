import Pipewright.Proofs.Diagnostics.Clean

/-!
# Reports of one rule

Every report tells the rule that it comes from, so the reports of one rule can be found among all
reports.  In the graph of a document, where no two nodes have one id, a report about an execution
node is a report about that node alone.

* `Rule.rule_of_mem_apply`, `Graph.mem_diagnostics_iff`: the rule that a report comes from.
* `Graph.ReportedAs`: a rule reports a node.
* `Graph.reportedAs_runtimePresent_iff`: the nodes that are reported to have no environment.
-/

namespace Pipewright

variable {g : Graph} {n : Node} {d : Diagnostic} {r : Rule}

/-- A report tells the rule that it comes from. -/
theorem Rule.rule_of_mem_apply (hd : d ∈ r.apply g) : d.rule = r := by
  cases r with
  | danglingReference =>
    obtain ⟨node, -, hd⟩ := List.mem_flatMap.mp hd
    obtain ⟨link, -, rfl⟩ := List.mem_map.mp hd
    rfl
  | executionOrder =>
    rw [apply, Graph.orderFaults] at hd
    split at hd
    · obtain rfl := List.mem_singleton.mp hd
      rfl
    · cases hd
  | supportedOperator =>
    obtain ⟨node, -, hd⟩ := List.mem_filterMap.mp hd
    rw [Graph.operatorReport?] at hd
    split at hd <;> cases hd <;> rfl
  | filenamePresent =>
    obtain ⟨node, -, rfl⟩ := List.mem_map.mp hd
    rfl
  | nameCollision =>
    obtain ⟨group, -, hd⟩ := List.mem_filterMap.mp hd
    rw [Graph.collisionReport?.eq_def] at hd
    split at hd <;> cases hd
    rfl
  | ambiguousOutput =>
    obtain ⟨node, -, hd⟩ := List.mem_flatMap.mp hd
    rw [Graph.ambiguitiesOf] at hd
    split at hd
    · cases hd
    · obtain ⟨filename, -, hd⟩ := List.mem_filterMap.mp hd
      rw [Graph.ambiguityReport?] at hd
      split at hd <;> cases hd
      rfl
  | runtimePresent =>
    obtain ⟨node, -, rfl⟩ := List.mem_map.mp hd
    rfl

namespace Graph

/-- What is reported is what the rules report. -/
theorem mem_diagnostics_iff : d ∈ g.diagnostics ↔ d ∈ d.rule.apply g := by
  constructor
  · intro hd
    obtain ⟨r, -, hd⟩ := List.mem_flatMap.mp hd
    rwa [Rule.rule_of_mem_apply hd]
  · exact mem_diagnostics

/-- Something is reported about the node by the rule. -/
def ReportedAs (g : Graph) (r : Rule) (n : Node) : Prop :=
  ∃ d ∈ g.diagnostics, d.rule = r ∧ d.node = some n.id

/-- An execution node is reported to have no environment exactly when what it declares is blank and
it does not come with the description of one. -/
theorem reportedAs_runtimePresent_iff (hg : g.Accepted) (hn : n ∈ g.executionNodes) :
    g.ReportedAs .runtimePresent n ↔ Text.isBlank n.attributes.runtimeEnvironment = true ∧
      n.attributes.hasEnvironmentYaml = false := by
  constructor
  · rintro ⟨d, hd, hrule, hnode⟩
    have hd := mem_diagnostics_iff.mp hd
    rw [hrule] at hd
    obtain ⟨m, hm, rfl⟩ := List.mem_map.mp hd
    obtain ⟨hm, hblank⟩ := List.mem_filter.mp hm
    -- the node that the report is about has the id of the node, so it is the node
    obtain rfl := hg.eq_of_id_eq (List.mem_filter.mp hm).1 (List.mem_filter.mp hn).1
      (Option.some.inj hnode)
    simpa using hblank
  · rintro ⟨hblank, hyaml⟩
    have hreport : runtimeReport n ∈ g.missingRuntimes :=
      List.mem_map_of_mem (List.mem_filter.mpr ⟨hn, by rw [hblank, hyaml]; rfl⟩)
    exact ⟨runtimeReport n, mem_diagnostics (r := .runtimePresent) hreport, rfl, rfl⟩

end Graph

end Pipewright
