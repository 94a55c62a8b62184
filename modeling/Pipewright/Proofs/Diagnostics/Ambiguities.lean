import Pipewright.Proofs.Diagnostics.Reports
import Pipewright.Proofs.Lists
import Pipewright.Proofs.Step.Names

/-!
# Reports of ambiguous inputs

The rule about ambiguous inputs takes every node that data flows from for a supplier, if only it has
a name.  The plan takes the steps among them.  So what the plan could choose from is a part of what
the rule lists: an input that is ambiguous to the plan is always reported, and the report lists what
the plan sees exactly when no other node that has a name writes the file.

* `ambiguityMessage_inj`: the message tells the input and the list of producers.
* `Graph.ReportedInput`, `Graph.reportedInput_iff`: which inputs are reported, and with what list.
* `handledAfter`, `Graph.exists_planStep`: the table of steps with which a step has been planned.
* `Graph.AmbiguityTold`, `Graph.plan_ambiguities`: the main statement.
-/

namespace Pipewright

/-! ## Messages -/

/-- The producers as they are listed in a message. -/
def Producer.listing (producers : List Producer) : String :=
  String.intercalate ", " (producers.map Producer.text)

/-- The message about an input of the node with the id, with a list of producers. -/
def ambiguityMessage (filename id listing : String) : String :=
  "Input '" ++ filename ++ "' of node '" ++ id ++ "' is produced by " ++ listing ++
    "; the first is used"

/-- A list without apostrophes stands behind the last apostrophe of the message, so the message
tells it, and the name of the input too. -/
theorem ambiguityMessage_inj {filename filename' id listing listing' : String}
    (hl : '\'' ∉ listing.toList) (hl' : '\'' ∉ listing'.toList)
    (h : ambiguityMessage filename id listing = ambiguityMessage filename' id listing') :
    filename = filename' ∧ listing = listing' := by
  have hsplit (f l : String) : (ambiguityMessage f id l).toList.reverse =
      (" is produced by " ++ l ++ "; the first is used").toList.reverse ++
        '\'' :: ("Input '" ++ f ++ "' of node '" ++ id).toList.reverse := by
    simp [ambiguityMessage, String.toList_append, List.reverse_append]
  have hword (l : String) (hl : '\'' ∉ l.toList) :
      ∀ c ∈ (" is produced by " ++ l ++ "; the first is used").toList.reverse,
        (c != '\'') = true := by
    intro c hc
    rw [List.mem_reverse, String.toList_append, String.toList_append, List.mem_append,
      List.mem_append] at hc
    rw [bne_iff_ne]
    rintro rfl
    rcases hc with (hc | hc) | hc
    · exact absurd hc (by decide)
    · exact hl hc
    · exact absurd hc (by decide)
  have hreverse := congrArg (fun text : String => text.toList.reverse) h
  rw [hsplit, hsplit] at hreverse
  obtain ⟨hback, -, hfront⟩ := Text.eq_of_append_cons_eq (hword _ hl) (hword _ hl') rfl rfl hreverse
  rw [List.reverse_inj, String.toList_inj] at hback hfront
  simp only [String.append_left_inj, String.append_right_inj] at hback hfront
  exact ⟨hfront, hback⟩

/-- The producers of names that are made of letters and digits are listed without apostrophes. -/
theorem apostrophe_notMem_listing {filename : String} {suppliers : List Supplier}
    (h : ∀ u ∈ suppliers, u.name.Lettered) :
    '\'' ∉ (Producer.listing (producersOf filename suppliers)).toList := by
  intro hmem
  rw [Producer.listing, String.toList_intercalate] at hmem
  rcases Text.mem_of_mem_intercalate hmem with hmem | hmem
  · exact absurd hmem (by decide)
  · rw [List.map_map, List.mem_flatten] at hmem
    obtain ⟨cs, hcs, hmem⟩ := hmem
    obtain ⟨p, hp, rfl⟩ := List.mem_map.mp hcs
    obtain ⟨u, hu, hprocess, -⟩ := mem_producersOf_iff.mp hp
    rw [Function.comp_apply, Producer.text, String.toList_append, String.toList_append,
      List.mem_append, List.mem_append, hprocess] at hmem
    rcases hmem with (hmem | hmem) | hmem
    · exact absurd ((h u hu).isAlphanum_of_mem_label hmem) (by decide)
    · exact absurd hmem (by decide)
    · exact absurd (Text.isDigit_of_mem_decimal hmem) (by decide)

/-- The table of the steps that have been planned. -/
def handledAfter (steps : List PlannedStep) : Handled :=
  (steps.map fun s => (s.node, s.name)).reverse

namespace Graph

variable {g : Graph} {n : Node} {nodes order done todo : List Node} {filename text : String}
  {handled : Handled} {policy : BindingPolicy} {before after : List PlannedStep}
  {step : PlannedStep}

/-! ## What is reported -/

/-- The input of the node is reported to be ambiguous, with the text as the list of producers. -/
def ReportedInput (g : Graph) (n : Node) (filename text : String) : Prop :=
  '\'' ∉ text.toList ∧ ∃ d ∈ g.diagnostics, d.rule = .ambiguousOutput ∧ d.node = some n.id ∧
    d.message = ambiguityMessage filename n.id text

/-- The suppliers that the rule knows are the nodes with names. -/
theorem mem_namedSuppliers_iff {s : Supplier} :
    s ∈ namedSuppliers nodes ↔ ∃ u ∈ nodes, ∃ name, StepName.of u = .ok name ∧
      s = Supplier.of u name := by
  rw [namedSuppliers, List.mem_filterMap]
  refine exists_congr fun u => and_congr_right fun _ => ?_
  cases StepName.of u with
  | error e => simp [Except.toOption]
  | ok name => simp [Except.toOption, eq_comm]

theorem lettered_of_mem_namedSuppliers {s : Supplier} (h : s ∈ namedSuppliers nodes) :
    s.name.Lettered := by
  obtain ⟨u, -, name, hname, rfl⟩ := mem_namedSuppliers_iff.mp h
  exact StepName.lettered_of hname

theorem node_of_mem_ambiguitiesOf {d : Diagnostic} (hd : d ∈ g.ambiguitiesOf n) :
    d.node = some n.id := by
  rw [ambiguitiesOf] at hd
  split at hd
  · cases hd
  · obtain ⟨f, -, hreport⟩ := List.mem_filterMap.mp hd
    rw [ambiguityReport?] at hreport
    split at hreport <;> cases hreport
    rfl

/-- An input is reported when several outputs of nodes with names could be it, and these are
listed. -/
theorem reportedInput_iff (hg : g.Accepted) (hn : n ∈ g.executionNodes)
    (hsources : g.dataSources n = .ok nodes) (hfile : filename ∈ n.attributes.inputFiles) :
    g.ReportedInput n filename text ↔
      1 < (producersOf filename (namedSuppliers nodes)).length ∧
      text = Producer.listing (producersOf filename (namedSuppliers nodes)) := by
  have hplain' : ∀ f, '\'' ∉ (Producer.listing (producersOf f (namedSuppliers nodes))).toList :=
    fun f => apostrophe_notMem_listing fun u hu => lettered_of_mem_namedSuppliers hu
  constructor
  · rintro ⟨hplain, d, hd, hrule, hnode, hmessage⟩
    have hd := mem_diagnostics_iff.mp hd
    rw [hrule] at hd
    obtain ⟨m, hm, hd⟩ := List.mem_flatMap.mp hd
    obtain rfl := hg.eq_of_id_eq (List.mem_filter.mp hm).1 (List.mem_filter.mp hn).1
      (Option.some.inj ((node_of_mem_ambiguitiesOf hd).symm.trans hnode))
    rw [ambiguitiesOf, hsources] at hd
    obtain ⟨f, -, hreport⟩ := List.mem_filterMap.mp hd
    rw [ambiguityReport?] at hreport
    split at hreport
    · next hmany =>
      cases hreport
      obtain ⟨rfl, rfl⟩ := ambiguityMessage_inj (hplain' f) hplain hmessage
      exact ⟨hmany, rfl⟩
    · cases hreport
  · rintro ⟨hmany, rfl⟩
    obtain ⟨d, hd, hrule, hnode, hmessage⟩ : ∃ d ∈ g.ambiguitiesOf n, d.rule = .ambiguousOutput ∧
        d.node = some n.id ∧ d.message = ambiguityMessage filename n.id
          (Producer.listing (producersOf filename (namedSuppliers nodes))) := by
      rw [ambiguitiesOf, hsources]
      exact ⟨_, List.mem_filterMap.mpr ⟨filename, hfile, if_pos hmany⟩, rfl, rfl, rfl⟩
    have hreport : d ∈ g.ambiguousOutputs := List.mem_flatMap.mpr ⟨n, hn, hd⟩
    exact ⟨hplain' _, d, mem_diagnostics (r := .ambiguousOutput) hreport, hrule, hnode, hmessage⟩

/-! ## What the rule and the plan have in common -/

/-- The producers that the rule knows, node by node. -/
theorem producersOf_namedSuppliers (filename : String) (nodes : List Node) :
    producersOf filename (namedSuppliers nodes) =
      nodes.flatMap fun u => producersOf filename (namedSuppliers [u]) := by
  induction nodes with
  | nil => rfl
  | cons u rest ih =>
    have hcons : namedSuppliers (u :: rest) = namedSuppliers [u] ++ namedSuppliers rest :=
      List.filterMap_append (l := [u])
    rw [List.flatMap_cons, ← ih, hcons]
    exact List.flatMap_append

/-- A node is no producer of a file exactly when it has no name or does not write the file. -/
theorem producersOf_namedSuppliers_singleton_eq_nil_iff {u : Node} :
    producersOf filename (namedSuppliers [u]) = [] ↔
      ∀ name, StepName.of u = .ok name → filename ∉ u.attributes.outputFiles := by
  rw [List.eq_nil_iff_forall_not_mem]
  constructor
  · intro hnone name hname hfile
    obtain ⟨i, hi, heq⟩ := List.getElem_of_mem hfile
    have hmem : (filename, i + 1) ∈ u.attributes.outputFiles.zipIdx 1 := by
      rw [List.mk_mem_zipIdx_iff_le_and_getElem?_sub]
      exact ⟨by omega, by rw [Nat.add_sub_cancel, List.getElem?_eq_getElem hi, heq]⟩
    refine hnone ⟨name.label, i + 1⟩ (mem_producersOf_iff.mpr ⟨Supplier.of u name, ?_, rfl, hmem⟩)
    exact mem_namedSuppliers_iff.mpr ⟨u, List.mem_singleton_self u, name, hname, rfl⟩
  · intro hnone p hp
    obtain ⟨s, hs, -, hmem⟩ := mem_producersOf_iff.mp hp
    obtain ⟨v, hv, name, hname, rfl⟩ := mem_namedSuppliers_iff.mp hs
    obtain rfl := List.mem_singleton.mp hv
    exact hnone name hname (List.fst_mem_of_mem_zipIdx hmem)

/-- No node but steps, if it has a name, writes the file. -/
def WrittenBySteps (nodes : List Node) (filename : String) : Prop :=
  ∀ u ∈ nodes, ∀ name, StepName.of u = .ok name → filename ∈ u.attributes.outputFiles →
    isStep u = true

/-- The producers among the steps are all producers that the rule knows exactly when no other node
writes the file. -/
theorem producersOf_filter_isStep_eq_iff :
    producersOf filename (namedSuppliers (nodes.filter isStep)) =
        producersOf filename (namedSuppliers nodes) ↔ WrittenBySteps nodes filename := by
  rw [producersOf_namedSuppliers, producersOf_namedSuppliers filename nodes, flatMap_filter_eq_iff]
  refine forall₂_congr fun u _ => ?_
  rw [producersOf_namedSuppliers_singleton_eq_nil_iff]
  constructor
  · intro hnone name hname hfile
    by_contra hstep
    exact hnone (Bool.eq_false_iff.mpr hstep) name hname hfile
  · intro hsteps hstep name hname hfile
    rw [hsteps name hname hfile] at hstep
    cases hstep

/-! ## What the plan sees of it -/

/-- Each step has been planned with the table of the steps before it. -/
theorem exists_planStep (hg : g.Accepted) (horder : g.executionOrder = .ok order)
    (hsplit : order.filter isStep = done ++ todo) (hdone : handled.Records done)
    (h : planSteps g policy handled todo = .ok (before ++ step :: after)) :
    ∃ nodes n rest, todo = nodes ++ n :: rest ∧
      Handled.Records (handledAfter before ++ handled) (done ++ nodes) ∧
      g.planStep policy (handledAfter before ++ handled) n = .ok step := by
  induction todo generalizing done handled before with
  | nil =>
    rw [planSteps, Except.ok.injEq] at h
    exact absurd h.symm (List.append_ne_nil_of_right_ne_nil _ (List.cons_ne_nil _ _))
  | cons n rest ih =>
    obtain ⟨first, hfirst, h⟩ := bind_eq_ok_iff.mp h
    obtain ⟨others, hothers, h⟩ := bind_eq_ok_iff.mp h
    rcases before with _ | ⟨b, before⟩
    · obtain ⟨rfl, -⟩ := List.cons.inj (Except.ok.inj h)
      exact ⟨[], n, rest, rfl, by rwa [List.append_nil], hfirst⟩
    · obtain ⟨rfl, rfl⟩ := List.cons.inj (Except.ok.inj h)
      have hplanned := planStep_ok hg horder hsplit hdone hfirst
      have hdone' := hdone.concat hplanned.name_eq (id_notMem_of_split hg horder hsplit)
      obtain ⟨nodes, m, rest', rfl, hrecords, hstep⟩ :=
        ih (by rw [hsplit, List.append_assoc]; rfl) hdone' hothers
      have htable : handledAfter (first :: before) ++ handled =
          handledAfter before ++ (n.id, first.name) :: handled := by
        rw [handledAfter, List.map_cons, List.reverse_cons, List.append_assoc, hplanned.node_eq]
        rfl
      rw [List.append_assoc] at hrecords
      exact ⟨n :: nodes, m, rest', rfl, htable ▸ hrecords, htable ▸ hstep⟩

/-- What is reported about an input of a step, and what the plan sees of it.  `nodes` are those that
data flows from, and `suppliers` are the steps that the plan finds among them. -/
structure AmbiguityTold (g : Graph) (n : Node) (nodes : List Node) (suppliers : List Supplier)
    (step : PlannedStep) (filename : String) : Prop where
  /-- The rule lists the producers among all nodes with names, if there are several. -/
  reported_iff : ∀ text, g.ReportedInput n filename text ↔
    1 < (producersOf filename (namedSuppliers nodes)).length ∧
    text = Producer.listing (producersOf filename (namedSuppliers nodes))
  /-- The strict policy would stop at the input if the plan saw several producers. -/
  strict_iff : ∀ position e, bindInput n step.name suppliers .strict position filename = .error e ↔
    1 < (producersOf filename suppliers).length ∧ e = .ambiguousBinding n.id step.name.text filename
      ((producersOf filename suppliers).map Producer.text)
  /-- The input is wired to the first producer that the plan sees. -/
  wired : ∀ b ∈ step.bindings, b.filename = filename →
    b.source = .ofProducers (producersOf filename suppliers)
  /-- What the plan sees is a part of what the rule sees, -/
  sublist : (producersOf filename suppliers).Sublist (producersOf filename (namedSuppliers nodes))
  /-- and all of it exactly when no other nodes than steps write the file. -/
  eq_iff : producersOf filename suppliers = producersOf filename (namedSuppliers nodes) ↔
    WrittenBySteps nodes filename

namespace AmbiguityTold

variable {suppliers : List Supplier}

/-- An input that is ambiguous to the plan is reported. -/
theorem exists_reportedInput (h : g.AmbiguityTold n nodes suppliers step filename)
    (hmany : 1 < (producersOf filename suppliers).length) :
    ∃ text, g.ReportedInput n filename text :=
  ⟨_, (h.reported_iff _).mpr ⟨hmany.trans_le h.sublist.length_le, rfl⟩⟩

/-- When no other nodes than steps write the file, the report is about what the plan sees. -/
theorem reported_iff_of_writtenBySteps (h : g.AmbiguityTold n nodes suppliers step filename)
    (hsteps : WrittenBySteps nodes filename) (text : String) :
    g.ReportedInput n filename text ↔ 1 < (producersOf filename suppliers).length ∧
      text = Producer.listing (producersOf filename suppliers) := by
  rw [h.reported_iff, h.eq_iff.mpr hsteps]

end AmbiguityTold

/-- What the rule about ambiguous inputs reports of the inputs of a step, beside what the plan sees
when it plans the step.  Every input that is ambiguous to the plan is reported; and where no other
node than a step writes the file, it is reported only then, with the producers that the plan sees,
the first of which the input is wired to. -/
theorem plan_ambiguities (hg : g.Accepted)
    (h : g.plan .firstMatch = .ok (before ++ step :: after)) :
    ∃ n nodes suppliers, g.node? step.node = some n ∧ isStep n = true ∧
      g.dataSources n = .ok nodes ∧ g.suppliers (handledAfter before) n = .ok suppliers ∧
      ∀ filename ∈ n.attributes.inputFiles,
        g.AmbiguityTold n nodes suppliers step filename ∧
        (1 < (producersOf filename suppliers).length → ∃ text, g.ReportedInput n filename text) ∧
        (WrittenBySteps nodes filename → ∀ text, g.ReportedInput n filename text ↔
          1 < (producersOf filename suppliers).length ∧
          text = Producer.listing (producersOf filename suppliers)) := by
  obtain ⟨todo, htodo, hplan⟩ := bind_eq_ok_iff.mp h
  obtain ⟨order, horder, hfilter⟩ := bind_eq_ok_iff.mp htodo
  obtain rfl : order.filter isStep = todo := Except.ok.inj hfilter
  obtain ⟨done, n, rest, hsplit, hrecords, hstep⟩ :=
    exists_planStep hg horder (List.nil_append _).symm .nil hplan
  rw [List.append_nil] at hrecords hstep
  obtain ⟨suppliers, hsuppliers, hnamed⟩ := exists_suppliers hg horder hsplit hrecords
  have hplanned := planStep_ok hg horder hsplit hrecords hstep
  have hn : n ∈ g.nodes ∧ isStep n = true := by
    rw [← mem_filter_isStep_iff hg horder, hsplit]
    exact List.mem_append_right _ List.mem_cons_self
  have hsources : g.dataSources n = .ok (g.dataTargets n) :=
    dataSources_eq_ok (exists_follow_of_split (linksBack_executionOrder hg horder) hsplit)
  have hbind : bindInputs n step.name suppliers .firstMatch = .ok step.bindings := by
    obtain ⟨suppliers', hnamed', hbind⟩ := hplanned.bindings_eq
    rwa [Except.ok.inj (hnamed.symm.trans hnamed')]
  have hsteps : namedSuppliers ((g.dataTargets n).filter isStep) = suppliers :=
    namedSuppliers_eq hnamed
  refine ⟨n, g.dataTargets n, suppliers, ?_, hn.2, hsources, hsuppliers, fun filename hfile => ?_⟩
  · rw [hplanned.node_eq, hg.node?_id hn.1]
  have htold : g.AmbiguityTold n (g.dataTargets n) suppliers step filename := by
    constructor
    · intro text
      exact reportedInput_iff hg (mem_executionNodes_of_isStep hn.1 hn.2) hsources hfile
    · intro position e
      rw [bindInput_eq_error_iff, and_iff_right rfl]
    · rintro b hb rfl
      exact (binding_of_bindInputs hbind hb).2
    · rw [← hsteps]
      exact flatMap_sublist_flatMap (List.filter_sublist.filterMap _) _
    · rw [← hsteps]
      exact producersOf_filter_isStep_eq_iff
  exact ⟨htold, htold.exists_reportedInput, htold.reported_iff_of_writtenBySteps⟩

end Graph

/-! ### A node that is no step -/

/-- A node without operator and a step, both of which write files, and a step that reads them. -/
def idleDocument : Document := ⟨[⟨"", [
  { id := "a", kind := .execution,
    attributes := { filename := some "a", memory := none, outputs := ["x"] } },
  { id := "b", kind := .execution, operator := some .r,
    attributes := { filename := some "b", memory := none, outputs := ["x", "y", "y"] } },
  { id := "c", kind := .execution, operator := some .r,
    attributes := { filename := some "c", memory := none, dependencies := ["x", "y"] },
    inputs := [⟨none, [⟨"a", some "outPort"⟩, ⟨"b", some "outPort"⟩]⟩] }]⟩]⟩

/-- The graph of the document. -/
def idleGraph : Graph := .ofDocument idleDocument Graph.defaultOutlet

theorem accepted_idleGraph : idleGraph.Accepted :=
  Graph.accepted_ofDocument (by decide) (by decide) _

/-- The file that the node without operator writes too is reported, with that node in front, and the
plan wires it to the one step that it sees.  About the other file rule and plan agree. -/
theorem plan_idleGraph_ambiguities :
    idleGraph.plan .firstMatch = .ok [⟨"b", ⟨"bB"⟩, "r-node", []⟩, ⟨"c", ⟨"cC"⟩, "r-node",
      [⟨1, "x", .wired ⟨"BB", 1⟩⟩, ⟨2, "y", .wired ⟨"BB", 2⟩⟩]⟩] ∧
    ∃ n, idleGraph.node? "c" = some n ∧
      (∀ text, idleGraph.ReportedInput n "x" text ↔ text = "AA.output1, BB.output1") ∧
      (∀ text, idleGraph.ReportedInput n "y" text ↔ text = "BB.output2, BB.output3") := by
  have hplan : idleGraph.plan .firstMatch = .ok ([⟨"b", ⟨"bB"⟩, "r-node", []⟩] ++
      ⟨"c", ⟨"cC"⟩, "r-node",
        [⟨1, "x", .wired ⟨"BB", 1⟩⟩, ⟨2, "y", .wired ⟨"BB", 2⟩⟩]⟩ :: []) := rfl
  refine ⟨hplan, ?_⟩
  obtain ⟨n, nodes, suppliers, hn, -, hnodes, hsuppliers, htold⟩ :=
    Graph.plan_ambiguities accepted_idleGraph hplan
  obtain rfl := Option.some.inj hn
  obtain rfl := Except.ok.inj hnodes
  obtain rfl := Except.ok.inj hsuppliers
  obtain ⟨hx, -, -⟩ := htold "x" (by decide)
  obtain ⟨-, -, hy⟩ := htold "y" (by decide)
  refine ⟨_, rfl, fun text => ?_, fun text => ?_⟩
  · exact (hx.reported_iff text).trans (and_iff_right (by decide))
  · have hwriters : ∀ u ∈ idleDocument.nodes.take 2, "y" ∈ u.attributes.outputFiles →
        isStep u = true := by decide
    exact (hy (fun u hu _ _ => hwriters u hu) text).trans (and_iff_right (by decide))

end Pipewright
