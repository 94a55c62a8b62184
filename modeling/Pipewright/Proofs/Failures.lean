import Pipewright.Proofs.Runs

/-!
# Failures of actions

An action that fails has failed in one of its parts, after those before it have run through.  The
lemmas take such a run apart, one for each way in which actions are put together, and tell which
errors the parts end in.

* `Act.bind_eq_error_iff`, `Act.settle_eq_error_iff`: two actions in a row, and a result that is
  there already.
* `Act.Apart`: an action whose errors are about no node; `Journal.apart_files`: what is done on the
  disk is one.
* `Host.files_eq_error_iff`, `Host.change_eq_error_iff`, `Journal.change_eq_error_iff`: what goes
  wrong on the disk.
* `Provisioners.Gives`: the errors of the provisioners; `Journal.kernel_eq_error_iff` and
  `Journal.environment_eq_error_iff`: requests end in no other ones.
-/

namespace Pipewright

namespace Act

variable {σ α β : Type} {s s' : σ} {e : Error}

/-- Two actions in a row fail when one of them does. -/
theorem bind_eq_error_iff {x : Act σ α} {f : α → Act σ β} :
    (x >>= f) s = (.error e, s') ↔
      x s = (.error e, s') ∨ ∃ a t, x s = (.ok a, t) ∧ f a t = (.error e, s') := by
  rcases hx : x s with ⟨e' | a, t⟩
  · rw [bind_of_error hx]
    constructor
    · exact fun h => .inl (by cases h; rfl)
    · rintro (h | ⟨a, t', h, -⟩)
      · cases h
        rfl
      · cases h
  · rw [bind_of_ok hx]
    constructor
    · exact fun h => .inr ⟨a, t, rfl, h⟩
    · rintro (h | ⟨a', t', h, he⟩)
      · cases h
      · cases h
        exact he

theorem pure_ne_error {a : α} : (pure a : Act σ α) s ≠ (.error e, s') := fun h => by cases h

theorem settle_eq_error_iff {result : Except Error α} :
    settle result s = (.error e, s') ↔ result = .error e ∧ s' = s := by
  rw [settle, Prod.mk.injEq, eq_comm (a := s)]

/-- After a result that is there already the next action runs with it. -/
theorem settle_ok_bind (a : α) (f : α → Act σ β) (s : σ) : (settle (.ok a) >>= f) s = f a s :=
  bind_of_ok rfl f

end Act

/-- The errors of the action are about no node. -/
def Act.Apart {σ α : Type} (x : Act σ α) : Prop :=
  ∀ s e s', x s = (.error e, s') → e.node? = none

namespace Act.Apart

variable {σ α β : Type}

theorem pure (a : α) : Apart (Pure.pure a : Act σ α) :=
  fun _ _ _ h => absurd h pure_ne_error

theorem get : Apart (MonadState.get : Act σ σ) := fun _ _ _ h => by cases h

theorem throw {e : Error} (he : e.node? = none) : Apart (MonadExcept.throw e : Act σ α) := by
  intro s e' s' h
  cases h
  exact he

theorem bind {x : Act σ α} {f : α → Act σ β} (hx : x.Apart) (hf : ∀ a, (f a).Apart) :
    (x >>= f).Apart := by
  intro s e s' h
  obtain h | ⟨a, t, -, h⟩ := bind_eq_error_iff.mp h
  · exact hx s e s' h
  · exact hf a t e s' h

theorem settle {result : Except Error α} (h : ∀ e, result = .error e → e.node? = none) :
    (Act.settle result : Act σ α).Apart :=
  fun _ e _ hrun => h e (settle_eq_error_iff.mp hrun).1

/-- An action whose error is looked at does not fail. -/
theorem attempt (x : Act σ α) : x.attempt.Apart := fun _ _ _ h => by cases h

end Act.Apart

/-- A change that fails is not made. -/
theorem DiskAct.change_eq_error_iff {f : Disk → Except DiskFault Disk} {d d' : Disk}
    {fault : DiskFault} : change f d = (.error fault, d') ↔ f d = .error fault ∧ d' = d := by
  rw [change]
  rcases f d with fault' | e
  · constructor
    · intro h
      cases h
      exact ⟨rfl, rfl⟩
    · rintro ⟨h, rfl⟩
      cases h
      rfl
  · constructor
    · intro h
      cases h
    · rintro ⟨h, -⟩
      cases h

/-- What goes wrong on the disk is a fault of the disk, and changes nothing of the host but that. -/
theorem Host.files_eq_error_iff {α : Type} {action : DiskAct α} {h h' : Host} {e : Error} :
    files action h = (.error e, h') ↔
      ∃ fault d, action h.disk = (.error fault, d) ∧ e = .disk fault ∧
        h' = { h with disk := d } := by
  rw [files]
  rcases action h.disk with ⟨fault | a, d⟩
  · constructor
    · intro hrun
      cases hrun
      exact ⟨fault, d, rfl, rfl, rfl⟩
    · rintro ⟨fault', d', hrun, rfl, rfl⟩
      cases hrun
      rfl
  · constructor
    · intro hrun
      cases hrun
    · rintro ⟨fault, d', hrun, -⟩
      cases hrun

/-- A change that fails is one that has not been made. -/
theorem Host.change_eq_error_iff {f : Disk → Except DiskFault Disk} {h h' : Host} {e : Error} :
    change f h = (.error e, h') ↔ ∃ fault, f h.disk = .error fault ∧ e = .disk fault ∧ h' = h := by
  rw [change, files_eq_error_iff]
  constructor
  · rintro ⟨fault, d, hd, rfl, rfl⟩
    obtain ⟨hf, rfl⟩ := DiskAct.change_eq_error_iff.mp hd
    exact ⟨fault, hf, rfl, rfl⟩
  · rintro ⟨fault, hf, rfl, rfl⟩
    exact ⟨fault, _, DiskAct.change_eq_error_iff.mpr ⟨hf, rfl⟩, rfl, rfl⟩

/-- What goes wrong on the disk is about no node. -/
theorem Host.apart_files {α : Type} (action : DiskAct α) : (files action).Apart := by
  intro h e h' hrun
  obtain ⟨fault, d, -, rfl, -⟩ := files_eq_error_iff.mp hrun
  rfl

/-- The provisioners end in the error for some request on some host. -/
def Provisioners.Gives (p : Provisioners) (e : Error) : Prop :=
  (∃ runtime family h h', p.kernel runtime family h = (.error e, h')) ∨
    ∃ name description h h', p.environment name description h = (.error e, h')

namespace Journal

variable {α : Type} {j j' : Journal} {e : Error}

theorem onHost_eq_error_iff {action : Act Host α} :
    onHost action j = (.error e, j') ↔
      ∃ h, action j.host = (.error e, h) ∧ j' = { j with host := h } :=
  Act.within_eq_iff

theorem apart_files (action : DiskAct α) : (files action).Apart := by
  intro j e j' hrun
  obtain ⟨h, hrun, -⟩ := onHost_eq_error_iff.mp hrun
  exact Host.apart_files action _ e h hrun

theorem apart_change (f : Disk → Except DiskFault Disk) : (change f).Apart :=
  apart_files _

/-- A question without an answer is one, and nothing has happened. -/
theorem ask_eq_error_iff {question : Disk → Except Error α} :
    ask question j = (.error e, j') ↔ question j.host.disk = .error e ∧ j' = j := by
  rw [ask, Prod.mk.injEq, eq_comm (a := j)]

theorem apart_ask {question : Disk → Except Error α}
    (h : ∀ d e, question d = .error e → e.node? = none) : (ask question).Apart :=
  fun _ e _ hrun => h _ e (ask_eq_error_iff.mp hrun).1

theorem files_eq_error_iff {action : DiskAct α} :
    files action j = (.error e, j') ↔
      ∃ fault d, action j.host.disk = (.error fault, d) ∧ e = .disk fault ∧
        j' = { j with host := { j.host with disk := d } } := by
  rw [files, onHost_eq_error_iff]
  constructor
  · rintro ⟨h, hh, rfl⟩
    obtain ⟨fault, d, hd, rfl, rfl⟩ := Host.files_eq_error_iff.mp hh
    exact ⟨fault, d, hd, rfl, rfl⟩
  · rintro ⟨fault, d, hd, rfl, rfl⟩
    exact ⟨_, Host.files_eq_error_iff.mpr ⟨fault, d, hd, rfl, rfl⟩, rfl⟩

/-- A change that fails is one that has not been made. -/
theorem change_eq_error_iff {f : Disk → Except DiskFault Disk} :
    change f j = (.error e, j') ↔
      ∃ fault, f j.host.disk = .error fault ∧ e = .disk fault ∧ j' = j := by
  rw [change, files_eq_error_iff]
  constructor
  · rintro ⟨fault, d, hd, rfl, rfl⟩
    obtain ⟨hf, rfl⟩ := DiskAct.change_eq_error_iff.mp hd
    exact ⟨fault, hf, rfl, rfl⟩
  · rintro ⟨fault, hf, rfl, rfl⟩
    exact ⟨fault, _, DiskAct.change_eq_error_iff.mpr ⟨hf, rfl⟩, rfl, rfl⟩

/-- A request for a kernel that fails has been put down, and the error is that of the
provisioner. -/
theorem kernel_eq_error_iff {p : Provisioners} {runtime : Path} {family : KernelFamily} :
    kernel p runtime family j = (.error e, j') ↔
      ∃ h, p.kernel runtime family j.host = (.error e, h) ∧
        j' = ⟨h, j.requests ++ [.kernel runtime family]⟩ := by
  rw [kernel, Act.bind_eq_error_iff]
  constructor
  · rintro (hrequest | ⟨u, t, hrequest, hrun⟩)
    · cases hrequest
    · cases hrequest
      exact onHost_eq_error_iff.mp hrun
  · rintro ⟨h, hh, rfl⟩
    exact .inr ⟨(), _, rfl, onHost_eq_error_iff.mpr ⟨h, hh, rfl⟩⟩

/-- A request for an environment that fails has been put down, and the error is that of the
provisioner. -/
theorem environment_eq_error_iff {p : Provisioners} {name : String} {description : Path} :
    environment p name description j = (.error e, j') ↔
      ∃ h, p.environment name description j.host = (.error e, h) ∧
        j' = ⟨h, j.requests ++ [.environment name description]⟩ := by
  rw [environment, Act.bind_eq_error_iff]
  constructor
  · rintro (hrequest | ⟨u, t, hrequest, hrun⟩)
    · cases hrequest
    · cases hrequest
      exact onHost_eq_error_iff.mp hrun
  · rintro ⟨h, hh, rfl⟩
    exact .inr ⟨(), _, rfl, onHost_eq_error_iff.mpr ⟨h, hh, rfl⟩⟩

/-- A request for a kernel fails only when the provisioner does. -/
theorem kernel_eq_error {p : Provisioners} {runtime : Path} {family : KernelFamily}
    (hrun : kernel p runtime family j = (.error e, j')) : p.Gives e := by
  obtain ⟨h, hh, -⟩ := kernel_eq_error_iff.mp hrun
  exact .inl ⟨_, _, _, _, hh⟩

/-- A request for an environment fails only when the provisioner does. -/
theorem environment_eq_error {p : Provisioners} {name : String} {description : Path}
    (hrun : environment p name description j = (.error e, j')) : p.Gives e := by
  obtain ⟨h, hh, -⟩ := environment_eq_error_iff.mp hrun
  exact .inr ⟨_, _, _, _, hh⟩

end Journal

end Pipewright
