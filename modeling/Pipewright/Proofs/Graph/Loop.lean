import Mathlib.Logic.Relation
import Pipewright.Proofs.Graph.SearchEnd

/-!
# The loop of the search

A run of the search is given a number of steps to take at most.  Here the loop is told without such
a bound: it takes steps while there is a node on the path, and stops at a step that fails.  It comes
to an end from every state, there is one way in which it does, and it is what a run with room for
the work that is left comes to.  So is the search from one root after the other.

* `Search.Loop`: the states in which the loop takes a step, and how it ends.
* `Search.exists_loop`, `Search.Loop.unique`: it ends, in one way.
* `Search.Loop.run_eq`: it is what runs come to.
* `Graph.searchFrom_eq_of_loop`, `Graph.searchFrom_eq_of_leads`: the search from a root is a loop.
* `Graph.Traversal`: the loops from some roots, one after the other.
* `Graph.Traversal.foldlM_eq`: they are the search from these roots.
* `Search.Loop.keeps`, `Graph.Traversal.keeps`: what every step keeps holds in all states.
-/

namespace Pipewright

namespace Search

variable {g : Graph} {s t : Search} {states states' : List Search}
  {r r' : Except Error Search} {n : Nat}

/-- The loop from a state on: the states in which it takes a step, the last of which may be one whose
step fails, and how it ends. -/
inductive Loop (g : Graph) : Search → List Search → Except Error Search → Prop where
  /-- There is no node on the path. -/
  | done {s : Search} (hpath : s.path = []) : Loop g s [] (.ok s)
  /-- The step fails. -/
  | fail {s : Search} {e : Error} (hstep : s.step g = some (.error e)) : Loop g s [s] (.error e)
  /-- The step leads to a state from which the loop goes on. -/
  | next {s t : Search} {states : List Search} {r : Except Error Search}
      (hstep : s.step g = some (.ok t)) (hrest : Loop g t states r) : Loop g s (s :: states) r

/-- A step is taken from a path with a node on it. -/
theorem path_ne_nil_of_step (h : s.step g = some r) : s.path ≠ [] := by
  intro hpath
  rw [step_eq_none_iff.mpr hpath] at h
  cases h

/-- The loop goes one way. -/
theorem Loop.unique (h : Loop g s states r) (h' : Loop g s states' r') :
    states = states' ∧ r = r' := by
  induction h generalizing states' with
  | done hpath =>
    cases h' with
    | done _ => exact ⟨rfl, rfl⟩
    | fail hstep => exact absurd hpath (path_ne_nil_of_step hstep)
    | next hstep _ => exact absurd hpath (path_ne_nil_of_step hstep)
  | fail hstep =>
    cases h' with
    | done hpath => exact absurd hpath (path_ne_nil_of_step hstep)
    | fail hstep' =>
      cases hstep.symm.trans hstep'
      exact ⟨rfl, rfl⟩
    | next hstep' _ => cases hstep.symm.trans hstep'
  | next hstep _ ih =>
    cases h' with
    | done hpath => exact absurd hpath (path_ne_nil_of_step hstep)
    | fail hstep' => cases hstep.symm.trans hstep'
    | next hstep' hrest' =>
      cases hstep.symm.trans hstep'
      obtain ⟨rfl, rfl⟩ := ih hrest'
      exact ⟨rfl, rfl⟩

/-- The loop ends, whatever the state from which it starts: the work that is left goes down with
every step. -/
theorem exists_loop (g : Graph) (s : Search) : ∃ states r, Loop g s states r := by
  induction hwork : s.remaining g using Nat.strong_induction_on generalizing s with
  | _ work ih =>
    rcases hstep : s.step g with _ | (e | t)
    · exact ⟨[], _, .done (step_eq_none_iff.mp hstep)⟩
    · exact ⟨[s], _, .fail hstep⟩
    · have hlt := remaining_lt_of_step (step_eq_some hstep)
      obtain ⟨states, r, hrest⟩ := ih _ (hwork ▸ hlt) t rfl
      exact ⟨s :: states, r, .next hstep hrest⟩

/-- The loop takes no more steps than there is work left. -/
theorem Loop.length_le (h : Loop g s states r) : states.length ≤ s.remaining g := by
  induction h with
  | done hpath => exact Nat.zero_le _
  | @fail s e hstep =>
    obtain ⟨frame, below, hpath⟩ := List.exists_cons_of_ne_nil (path_ne_nil_of_step hstep)
    rw [remaining, hpath, List.map_cons, List.sum_cons, frameWork, List.length_singleton]
    omega
  | next hstep _ ih =>
    have hlt := remaining_lt_of_step (step_eq_some hstep)
    rw [List.length_cons]
    omega

/-- With room for its steps, a run does what the loop does. -/
theorem Loop.run_eq (h : Loop g s states r) (hn : states.length ≤ n) : run g n s = r := by
  induction h generalizing n with
  | done hpath =>
    cases n with
    | zero => rfl
    | succ n => rw [run, step_eq_none_iff.mpr hpath]
  | fail hstep =>
    obtain ⟨m, rfl⟩ := Nat.exists_eq_succ_of_ne_zero (Nat.one_le_iff_ne_zero.mp hn)
    rw [run, hstep]
  | next hstep _ ih =>
    rw [List.length_cons] at hn
    obtain ⟨m, rfl⟩ := Nat.exists_eq_succ_of_ne_zero (Nat.ne_zero_of_lt hn)
    rw [run, hstep]
    exact ih (Nat.le_of_succ_le_succ hn)

/-- The loop ends with nothing on the path unless a step fails. -/
theorem Loop.path_eq_nil (h : Loop g s states (.ok t)) : t.path = [] := by
  generalize hr : (Except.ok t : Except Error Search) = r at h
  induction h with
  | done hpath =>
    cases hr
    exact hpath
  | fail _ => cases hr
  | next _ _ ih => exact ih hr

/-- A step is taken only while there is a node on the path. -/
theorem Loop.path_ne_nil (h : Loop g s states r) : ∀ u ∈ states, u.path ≠ [] := by
  induction h with
  | done _ => simp
  | fail hstep => simpa using path_ne_nil_of_step hstep
  | next hstep _ ih => exact List.forall_mem_cons.mpr ⟨path_ne_nil_of_step hstep, ih⟩

/-- What every step keeps holds in the states of the loop and at its end. -/
theorem Loop.keeps {P : Search → Prop} (hP : ∀ s t, P s → Step g s (.ok t) → P t) (hs : P s)
    (h : Loop g s states r) : (∀ u ∈ states, P u) ∧ ∀ t, r = .ok t → P t := by
  induction h with
  | done _ =>
    refine ⟨by simp, fun t ht => ?_⟩
    cases ht
    exact hs
  | fail _ => exact ⟨by simpa using hs, nofun⟩
  | next hstep _ ih =>
    obtain ⟨hstates, hend⟩ := ih (hP _ _ hs (step_eq_some hstep))
    exact ⟨List.forall_mem_cons.mpr ⟨hs, hstates⟩, hend⟩

/-! ## Any number of steps -/

/-- Steps that do not fail lead from one state to another. -/
def Leads (g : Graph) : Search → Search → Prop :=
  Relation.ReflTransGen fun s t => s.step g = some (.ok t)

/-- The loop from a state goes on as the one from a state that steps lead to. -/
theorem Loop.of_leads (hst : Leads g s t) (h : Loop g t states r) :
    ∃ states', Loop g s states' r := by
  induction hst using Relation.ReflTransGen.head_induction_on with
  | refl => exact ⟨states, h⟩
  | head hstep _ ih =>
    obtain ⟨states', hrest⟩ := ih
    exact ⟨_, .next hstep hrest⟩

/-- What every step keeps is kept by any number of them. -/
theorem Leads.keeps {P : Search → Prop} (hP : ∀ s t, P s → Step g s (.ok t) → P t)
    (hst : Leads g s t) (hs : P s) : P t := by
  induction hst with
  | refl => exact hs
  | tail _ hstep ih => exact hP _ _ ih (step_eq_some hstep)

end Search

namespace Graph

open Search (Loop Step)

variable {g : Graph} {s t : Search} {roots : List Node} {states states' : List Search}
  {r r' : Except Error Search}

/-- The loops from the roots that have not been met when their turn comes, one after the other: the
states in which a step is taken, and how it all ends. -/
inductive Traversal (g : Graph) : List Node → Search → List Search → Except Error Search → Prop where
  | nil (s : Search) : Traversal g [] s [] (.ok s)
  /-- The root has been met. -/
  | met {root : Node} {rest : List Node} {s : Search} {states : List Search}
      {r : Except Error Search} (hmark : s.mark? root.id ≠ none)
      (hrest : Traversal g rest s states r) : Traversal g (root :: rest) s states r
  /-- The loop from the root fails. -/
  | fail {root : Node} {rest : List Node} {s : Search} {states : List Search} {e : Error}
      (hmark : s.mark? root.id = none) (hloop : Loop g (s.enter root) states (.error e)) :
      Traversal g (root :: rest) s states (.error e)
  /-- The loop from the root ends, and the next root has its turn. -/
  | next {root : Node} {rest : List Node} {s t : Search} {states more : List Search}
      {r : Except Error Search} (hmark : s.mark? root.id = none)
      (hloop : Loop g (s.enter root) states (.ok t)) (hrest : Traversal g rest t more r) :
      Traversal g (root :: rest) s (states ++ more) r

/-- The loops go one way. -/
theorem Traversal.unique (h : g.Traversal roots s states r) (h' : g.Traversal roots s states' r') :
    states = states' ∧ r = r' := by
  induction h generalizing states' with
  | nil s =>
    cases h'
    exact ⟨rfl, rfl⟩
  | met hmark _ ih =>
    cases h' with
    | met _ hrest' => exact ih hrest'
    | fail hmark' _ => exact absurd hmark' hmark
    | next hmark' _ _ => exact absurd hmark' hmark
  | fail hmark hloop =>
    cases h' with
    | met hmark' _ => exact absurd hmark hmark'
    | fail _ hloop' => exact hloop.unique hloop'
    | next _ hloop' _ => exact absurd (hloop.unique hloop').2 nofun
  | next hmark hloop _ ih =>
    cases h' with
    | met hmark' _ => exact absurd hmark hmark'
    | fail _ hloop' => exact absurd (hloop.unique hloop').2 nofun
    | next _ hloop' hrest' =>
      obtain ⟨rfl, ht⟩ := hloop.unique hloop'
      obtain rfl := Except.ok.inj ht
      obtain ⟨rfl, rfl⟩ := ih hrest'
      exact ⟨rfl, rfl⟩

/-- The loops end, whatever the graph and the roots. -/
theorem exists_traversal (g : Graph) (roots : List Node) (s : Search) :
    ∃ states r, g.Traversal roots s states r := by
  induction roots generalizing s with
  | nil => exact ⟨[], _, .nil s⟩
  | cons root rest ih =>
    by_cases hmark : s.mark? root.id = none
    · obtain ⟨states, e | t, hloop⟩ := Search.exists_loop g (s.enter root)
      · exact ⟨states, _, .fail hmark hloop⟩
      · obtain ⟨more, r, hrest⟩ := ih t
        exact ⟨states ++ more, r, .next hmark hloop hrest⟩
    · obtain ⟨states, r, hrest⟩ := ih s
      exact ⟨states, r, .met hmark hrest⟩

/-- The loop from a root that has not been met does what the search from it does. -/
theorem searchFrom_eq_of_loop {root : Node} (hroot : root ∈ g.nodes) (hpath : s.path = [])
    (hmark : s.mark? root.id = none) (h : Loop g (s.enter root) states r) :
    g.searchFrom s root = r := by
  rw [searchFrom, hmark]
  exact h.run_eq (h.length_le.trans (Search.remaining_enter_le hroot hpath hmark))

/-- So does a loop from a state that steps lead to. -/
theorem searchFrom_eq_of_leads {root : Node} (hroot : root ∈ g.nodes) (hpath : s.path = [])
    (hmark : s.mark? root.id = none) (hst : Search.Leads g (s.enter root) t)
    (h : Loop g t states r) : g.searchFrom s root = r := by
  obtain ⟨_, hloop⟩ := h.of_leads hst
  exact searchFrom_eq_of_loop hroot hpath hmark hloop

/-- A root that has been met is passed over. -/
theorem searchFrom_of_met {root : Node} (hmark : s.mark? root.id ≠ none) :
    g.searchFrom s root = .ok s := by
  rw [searchFrom, if_pos (Option.isSome_iff_ne_none.mpr hmark)]

/-- The loops from some roots do what the search from these roots does. -/
theorem Traversal.foldlM_eq (h : g.Traversal roots s states r)
    (hroots : ∀ root ∈ roots, root ∈ g.nodes) (hpath : s.path = []) :
    roots.foldlM g.searchFrom s = r := by
  induction h with
  | nil s => rfl
  | met hmark _ ih =>
    rw [List.foldlM_cons, searchFrom_of_met hmark]
    exact ih (List.forall_mem_cons.mp hroots).2 hpath
  | fail hmark hloop =>
    rw [List.foldlM_cons,
      searchFrom_eq_of_loop (hroots _ List.mem_cons_self) hpath hmark hloop]
    rfl
  | next hmark hloop _ ih =>
    rw [List.foldlM_cons,
      searchFrom_eq_of_loop (hroots _ List.mem_cons_self) hpath hmark hloop]
    exact ih (List.forall_mem_cons.mp hroots).2 hloop.path_eq_nil

/-- The loops end with nothing on the path unless a step fails. -/
theorem Traversal.path_eq_nil (h : g.Traversal roots s states (.ok t)) (hpath : s.path = []) :
    t.path = [] := by
  generalize hr : (Except.ok t : Except Error Search) = r at h
  induction h with
  | nil s =>
    cases hr
    exact hpath
  | met _ _ ih => exact ih hpath hr
  | fail _ _ => cases hr
  | next _ hloop _ ih => exact ih hloop.path_eq_nil hr

theorem Traversal.path_ne_nil (h : g.Traversal roots s states r) : ∀ u ∈ states, u.path ≠ [] := by
  induction h with
  | nil s => simp
  | met _ _ ih => exact ih
  | fail _ hloop => exact hloop.path_ne_nil
  | next _ hloop _ ih => exact List.forall_mem_append.mpr ⟨hloop.path_ne_nil, ih⟩

/-- What every step keeps, and what is kept when a root is entered, holds in all states and at the
end. -/
theorem Traversal.keeps {P : Search → Prop} (hP : ∀ s t, P s → Step g s (.ok t) → P t)
    (henter : ∀ s, ∀ root ∈ g.executionNodes, P s → s.path = [] → s.mark? root.id = none →
      P (s.enter root)) (h : g.Traversal roots s states r)
    (hroots : ∀ root ∈ roots, root ∈ g.executionNodes) (hs : P s) (hpath : s.path = []) :
    (∀ u ∈ states, P u) ∧ ∀ t, r = .ok t → P t := by
  induction h with
  | nil s =>
    refine ⟨by simp, fun t ht => ?_⟩
    cases ht
    exact hs
  | met _ _ ih => exact ih (List.forall_mem_cons.mp hroots).2 hs hpath
  | fail hmark hloop =>
    have hentered := henter _ _ (hroots _ List.mem_cons_self) hs hpath hmark
    exact ⟨(hloop.keeps hP hentered).1, nofun⟩
  | next hmark hloop _ ih =>
    have hentered := henter _ _ (hroots _ List.mem_cons_self) hs hpath hmark
    obtain ⟨hstates, hend⟩ := hloop.keeps hP hentered
    obtain ⟨hmore, hlast⟩ := ih (List.forall_mem_cons.mp hroots).2 (hend _ rfl) hloop.path_eq_nil
    exact ⟨List.forall_mem_append.mpr ⟨hstates, hmore⟩, hlast⟩

/-- The execution order is what has been left when the search from all execution nodes ends. -/
theorem executionOrder_eq_map (g : Graph) :
    g.executionOrder = (g.executionNodes.foldlM g.searchFrom {}).map Search.order := by
  rw [executionOrder]
  cases g.executionNodes.foldlM g.searchFrom {} <;> rfl

/-- The loops from all execution nodes find the execution order. -/
theorem Traversal.executionOrder_eq (h : g.Traversal g.executionNodes {} states r) :
    g.executionOrder = r.map Search.order := by
  rw [executionOrder_eq_map, h.foldlM_eq (fun root hroot => (List.mem_filter.mp hroot).1) rfl]

end Graph

end Pipewright
