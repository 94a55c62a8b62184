import Mathlib.Data.List.Count
import Pipewright.Proofs.Disk.Directories
import Pipewright.Proofs.Run.Registry

/-!
# No run is entered twice

Whatever the registry holds, a run that has an entry gets no other one.  What is written is read back
entry for entry up to the doubles in it, or not at all, and an entry keeps its run either way.  When
a request could not be registered, the registry cannot be read afterwards, and has no entries.

The run that is looked for is the one with the id of the request.  A request that keeps the id of
another run is written as an entry of that one, and is not found the next time.  So a run can get an
entry more for each request that poses as it; no request that has been read does.

* `entriesOf`: how many entries a run has.
* `register_entriesOf_le`: one request more.
* `Registering.split`, `Registering.entriesOf_le`: requests registered one after the other.
* `Registering.entriesOf_maskedRequest`: a request that poses as another.
-/

namespace Pipewright

open Json

variable {home : Path} {r : RunRequest} {h h' : Host} {es : List Value} {d : Disk}

/-- How many entries the run has in the registry. -/
def entriesOf (home : Path) (d : Disk) (id : String) : Nat :=
  (registryEntries home d).countP (isEntryOf id)

theorem listed_iff_entriesOf {id : String} : Listed home d id ↔ 0 < entriesOf home d id :=
  List.countP_pos_iff.symm

/-! ## What is read back -/

/-- A value that is read for another one is an entry of the same runs. -/
theorem isEntryOf_of_alike {v w : Value} (h : v.Alike w) (id : String) :
    isEntryOf id w = isEntryOf id v := by
  rw [isEntryOf, isEntryOf, h.member]

theorem countP_isEntryOf_of_alike {vs ws : List Value} (h : List.Forall₂ Value.Alike vs ws)
    (id : String) : ws.countP (isEntryOf id) = vs.countP (isEntryOf id) := by
  induction h with
  | nil => rfl
  | cons halike _ ih => rw [List.countP_cons, List.countP_cons, ih, isEntryOf_of_alike halike]

/-- From what is written for entries, as many entries of a run are read, or none at all. -/
theorem countP_parseRegistry_pretty_le (hes : ∀ e ∈ es, e.Formed) (id : String) :
    (parseRegistry (Value.array es).pretty).countP (isEntryOf id) ≤ es.countP (isEntryOf id) := by
  rw [parseRegistry]
  split
  · next ws hparse =>
    exact (countP_isEntryOf_of_alike (Decoder.alike_of_parse_pretty hes hparse) id).le
  · exact Nat.zero_le _

/-! ## Registering one request -/

theorem registryPath_eq (home : Path) : registryPath home = (home.join ".ppdb").join "db.json" := by
  have hname : Path.Plain ".ppdb" := ⟨by decide, by decide, by decide, by decide⟩
  exact @Path.join_append_slash home ".ppdb" "db.json" hname (by decide)

theorem plain_registryName : Path.Plain "db.json" :=
  ⟨by decide, by decide, by decide, by decide⟩

/-- When the directory of the registry could not be made, the registry cannot be read. -/
theorem registryEntries_of_makeRegistryDirectory_error {e : Error}
    (hrun : makeRegistryDirectory home h = (.error e, h')) : registryEntries home h'.disk = [] := by
  rw [makeRegistryDirectory] at hrun
  rcases habove : (registryPath home).parent? with _ | above
  · rw [habove] at hrun
    cases hrun
  rw [habove] at hrun
  obtain ⟨fault, d, hmake, -, rfl⟩ := Host.files_eq_error_iff.mp hrun
  obtain ⟨hne, hnot⟩ := DiskAct.isDirectory_of_makeDirectories_error hmake
  refine registryEntries_eq_nil fun text hread => ?_
  rw [registryPath_eq] at hread habove
  rw [Disk.isDirectory_parent plain_registryName hread habove hne] at hnot
  cases hnot

/-- When a request could not be registered, the registry cannot be read. -/
theorem registryEntries_of_error {e : Error} (hrun : register home r h = (.error e, h')) :
    registryEntries home h'.disk = [] := by
  by_cases hlisted : Listed home h.disk r.id
  · rw [register_of_listed hlisted] at hrun
    cases hrun
  rw [register_of_not_listed hlisted] at hrun
  obtain hmake | ⟨_, h₁, -, hrest⟩ := Act.bind_eq_error_iff.mp hrun
  · exact registryEntries_of_makeRegistryDirectory_error hmake
  obtain hwrite | ⟨_, h₂, -, hdone⟩ := Act.bind_eq_error_iff.mp hrest
  · obtain ⟨fault, hfail, -, rfl⟩ := Host.change_eq_error_iff.mp hwrite
    refine registryEntries_eq_nil fun text hread => ?_
    obtain ⟨d', hd'⟩ := Disk.exists_writeText hread _
    rw [hd'] at hfail
    cases hfail
  · exact absurd hdone Act.pure_ne_error

/-- The request has been put in and poses as the run. -/
def EnrolledAs (id : String) (c : RunRequest × Except Error Bool) : Bool :=
  c.1.PosesAs id && Enrolled c

/-- However it goes with a request, a run has at most as many entries as before, or one, and one more
when the request is put in and poses as the run. -/
theorem register_entriesOf_le {answer : Except Error Bool} (hr : r.Formed)
    (hrun : register home r h = (answer, h')) (id : String) :
    entriesOf home h'.disk id ≤ max 1 (entriesOf home h.disk id) +
      if EnrolledAs id (r, answer) then 1 else 0 := by
  rcases answer with e | answer
  · rw [entriesOf, registryEntries_of_error hrun]
    exact Nat.zero_le _
  obtain ⟨-, -, rfl⟩ | ⟨rfl, hlisted, hread⟩ := register_eq_ok hrun
  · exact (le_max_right _ _).trans (Nat.le_add_right _ _)
  rw [listed_iff_entriesOf, Nat.pos_iff_ne_zero, not_not] at hlisted
  have hle : entriesOf home h'.disk id ≤
      entriesOf home h.disk id + if isEntryOf id r.toSortedValue then 1 else 0 := by
    rw [entriesOf, hread, entriesOf, ← List.countP_singleton, ← List.countP_append]
    exact countP_parseRegistry_pretty_le (fun e he => formed_of_mem_extended hr he) id
  -- The new entry is one of the run that has been looked for in vain, or else the request poses.
  by_cases hentry : isEntryOf id r.toSortedValue = true
  · rw [if_pos hentry] at hle
    obtain hposes | rfl := hr.posesAs_or_eq hentry
    · have hmasked : EnrolledAs id (r, .ok true) = true :=
        Bool.and_eq_true_iff.mpr ⟨hposes, rfl⟩
      rw [if_pos hmasked]
      omega
    · omega
  · rw [if_neg hentry] at hle
    omega

/-! ## Registering requests one after the other -/

namespace Registering

variable {calls before after : List (RunRequest × Except Error Bool)}

/-- Between two requests the host is in some state. -/
theorem split (hrun : Registering home h (before ++ after) h') :
    ∃ h₁, Registering home h before h₁ ∧ Registering home h₁ after h' := by
  induction before generalizing h with
  | nil => exact ⟨h, .nil h, hrun⟩
  | cons c before ih =>
    cases hrun with
    | cons hfirst hrest =>
      obtain ⟨h₁, hbefore, hafter⟩ := ih hrest
      exact ⟨h₁, .cons hfirst hbefore, hafter⟩

/-- A run gets no more entries than requests are put in that pose as it, apart from a first one. -/
theorem entriesOf_le_add (hrun : Registering home h calls h') (hformed : ∀ c ∈ calls, c.1.Formed)
    (id : String) : entriesOf home h'.disk id ≤
      max 1 (entriesOf home h.disk id) + calls.countP (EnrolledAs id) := by
  induction hrun with
  | nil h => exact le_max_right _ _
  | @cons h h₁ h' r answer calls hfirst hrest ih =>
    obtain ⟨hr, hformed⟩ : r.Formed ∧ ∀ c ∈ calls, c.1.Formed :=
      List.forall_mem_cons.mp hformed
    have hone := register_entriesOf_le hr hfirst id
    have hothers := ih hformed
    rw [List.countP_cons]
    omega

/-- However it goes with the requests, a run has at most as many entries as at the start, or one, and
one more for each request that has been put in and poses as the run.  A request that has been read is
in form and poses as no other one.  Where a request is answered with no, nothing has happened. -/
theorem entriesOf_le (hrun : Registering home h calls h') (hformed : ∀ c ∈ calls, c.1.Formed) :
    (∀ id, entriesOf home h'.disk id ≤ max 1 (entriesOf home h.disk id) +
        calls.countP (EnrolledAs id)) ∧
      (∀ p d r, RunRequest.load p d = .ok r → r.Formed ∧ ∀ id, r.PosesAs id = false) ∧
      ∀ before r after, calls = before ++ (r, .ok false) :: after →
        ∃ h₁, Registering home h before h₁ ∧ register home r h₁ = (.ok false, h₁) ∧
          Registering home h₁ after h' := by
  refine ⟨hrun.entriesOf_le_add hformed, fun p d r hload => ?_, ?_⟩
  · have hreceived := RunRequest.received_of_load hload
    exact ⟨hreceived.toFormed, hreceived.posesAs_eq_false⟩
  · rintro before r after rfl
    obtain ⟨h₁, hbefore, hrest⟩ := hrun.split
    cases hrest with
    | cons hcall hafter =>
      obtain ⟨-, -, rfl⟩ | ⟨htrue, -, -⟩ := register_eq_ok hcall
      · exact ⟨_, hbefore, hcall, hafter⟩
      · cases htrue

end Registering

/-- A request that is registered twice has one entry. -/
theorem Registering.entriesOf_shortHost : ∃ h', Registering "" shortHost
      [(shortRequest, .ok true), (shortRequest, .ok false)] h' ∧
    entriesOf "" h'.disk "a" = 1 := by
  obtain ⟨h', hcalls⟩ := registering_shortHost
  have hreceived : shortRequest.Received := RunRequest.received_of_load load_shortText
  obtain ⟨hle, -, hfalse⟩ := Registering.entriesOf_le hcalls (by
    rw [List.forall_mem_cons, List.forall_mem_singleton]
    exact ⟨hreceived.toFormed, hreceived.toFormed⟩)
  refine ⟨h', hcalls, Nat.le_antisymm ?_ ?_⟩
  · have hnone : entriesOf "" shortHost.disk "a" = 0 := by
      rw [entriesOf, registryEntries_shortHost]
      decide
    exact (hle "a").trans (by rw [hnone]; decide)
  · obtain ⟨h₁, -, hcall, hafter⟩ := hfalse [(shortRequest, .ok true)] shortRequest [] rfl
    obtain ⟨-, hlisted, -⟩ | ⟨htrue, -, -⟩ := register_eq_ok hcall
    · cases hafter
      exact listed_iff_entriesOf.mp hlisted
    · cases htrue

/-- A request that poses as another one. -/
def maskedRequest : RunRequest where
  id := "a"
  workingDirectory := ""
  pipelinePath := ""
  extra := [("run_id", .string "b")]

/-- In what is written for the request, the id of the other run stands in place of its own. -/
theorem maskedRequest_toSortedValue : maskedRequest.toSortedValue =
    .object [("pipeline_path", .string ""), ("run_id", .string "b"), ("working_dir", .string "")] :=
  rfl

/-- When the request is put in, it comes behind the entries. -/
theorem registryEntries_maskedRequest (hentries : ∀ e ∈ registryEntries home h.disk, e.Whole)
    (hrun : register home maskedRequest h = (.ok true, h')) :
    registryEntries home h'.disk =
        registryEntries home h.disk ++ [maskedRequest.toSortedValue] ∧
      ∀ e ∈ registryEntries home h'.disk, e.Whole := by
  have hformed : maskedRequest.Formed :=
    ⟨nofun, .object (List.pairwise_singleton _ _) (List.forall_mem_singleton.mpr (.string "b"))⟩
  have hwhole : maskedRequest.toSortedValue.Whole := by
    rw [maskedRequest_toSortedValue]
    exact .object (by simp [Value.Whole.string])
  have hwithin : maskedRequest.toSortedValue.Within entryDepth := by
    rw [maskedRequest_toSortedValue]
    exact .object (by simp [Value.Within.string])
  have hput := registryEntries_of_enrolled hformed hwhole hwithin hentries hrun
  rw [hput, List.forall_mem_append, List.forall_mem_singleton]
  exact ⟨rfl, hentries, hwhole⟩

/-- The request is put in each time, and the other run gets an entry more each time. -/
theorem Registering.entriesOf_maskedRequest : ∃ h', Registering "" shortHost
      [(maskedRequest, .ok true), (maskedRequest, .ok true)] h' ∧
    max 1 (entriesOf "" shortHost.disk "b") < entriesOf "" h'.disk "b" := by
  have hfirst : (register "" maskedRequest shortHost).1 = .ok true :=
    eq_ok_of_toOption (by decide +kernel)
  have hsecond : (register "" maskedRequest (register "" maskedRequest shortHost).2).1 = .ok true :=
    eq_ok_of_toOption (by decide +kernel)
  obtain ⟨hone, hafter⟩ := registryEntries_maskedRequest shortHost_whole (eq_of_fst hfirst)
  obtain ⟨htwo, -⟩ := registryEntries_maskedRequest hafter (eq_of_fst hsecond)
  refine ⟨_, .cons (eq_of_fst hfirst) (.cons (eq_of_fst hsecond) (.nil _)), ?_⟩
  rw [entriesOf, entriesOf, htwo, hone, registryEntries_shortHost]
  decide

end Pipewright
