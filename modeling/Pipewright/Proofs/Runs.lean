import Pipewright.Emission

/-!
# Runs of actions

An action that gives a result has run through all of its parts, each one from the state in which
the part before it ended.  The lemmas take such a run apart, one for each way in which actions are
put together.  Those about two actions in a row hold whatever the errors are, so they are for
actions on a disk too.

* `Act.bind_of_ok`, `Act.bind_of_error`, `Act.bind_eq_ok_iff`: two actions in a row.
* `Act.settle_eq_ok_iff`: a result that is there already.
* `Act.within_eq_iff`: an action on a part of a state.
* `DiskAct.ask_eq_ok_iff`, `DiskAct.change_eq_ok_iff`: questions to the disk, and changes of it.
* `Host.files_eq_ok_iff`, `Host.change_eq_ok_iff`: an action on the disk as one on the host.
* `Journal.onHost_eq_ok_iff`, `Journal.ask_eq_ok_iff`, `Journal.change_eq_ok_iff`: actions of the
  host, questions and changes, with a journal kept.
* `Journal.kernel_eq_ok_iff`, `Journal.environment_eq_ok_iff`: what the provisioners are asked.
-/

namespace Pipewright

namespace Act

variable {ε σ α β : Type} {s s' : σ}

/-- The second of two actions starts with the result of the first, and in the state in which that
one has ended. -/
theorem bind_of_ok {x : ExceptT ε (StateM σ) α} {a : α} {t : σ} (h : x s = (.ok a, t))
    (f : α → ExceptT ε (StateM σ) β) : (x >>= f) s = f a t := by
  show (ExceptT.bindCont f (x s).1 : StateM σ _) (x s).2 = f a t
  rw [h]
  rfl

/-- An error of the first action is that of both. -/
theorem bind_of_error {x : ExceptT ε (StateM σ) α} {e : ε} {t : σ} (h : x s = (.error e, t))
    (f : α → ExceptT ε (StateM σ) β) : (x >>= f) s = (.error e, t) := by
  show (ExceptT.bindCont f (x s).1 : StateM σ _) (x s).2 = (.error e, t)
  rw [h]
  rfl

/-- Two actions in a row give a result when both do. -/
theorem bind_eq_ok_iff {x : ExceptT ε (StateM σ) α} {f : α → ExceptT ε (StateM σ) β} {b : β} :
    (x >>= f) s = (.ok b, s') ↔ ∃ a t, x s = (.ok a, t) ∧ f a t = (.ok b, s') := by
  rcases hx : x s with ⟨e | a, t⟩
  · rw [bind_of_error hx]
    constructor
    · intro h
      cases h
    · rintro ⟨a, t', h, -⟩
      cases h
  · rw [bind_of_ok hx]
    constructor
    · exact fun h => ⟨a, t, rfl, h⟩
    · rintro ⟨a', t', h, hb⟩
      cases h
      exact hb

theorem pure_eq_ok_iff {a b : α} :
    (pure a : ExceptT ε (StateM σ) α) s = (.ok b, s') ↔ b = a ∧ s' = s := by
  constructor
  · intro h
    cases h
    exact ⟨rfl, rfl⟩
  · rintro ⟨rfl, rfl⟩
    rfl

theorem get_eq_ok_iff {a : σ} : (get : Act σ σ) s = (.ok a, s') ↔ a = s ∧ s' = s := by
  constructor
  · intro h
    cases h
    exact ⟨rfl, rfl⟩
  · rintro ⟨rfl, rfl⟩
    rfl

/-- A result that has been worked out is there, and nothing has happened. -/
theorem settle_eq_ok_iff {result : Except Error α} {a : α} :
    settle result s = (.ok a, s') ↔ result = .ok a ∧ s' = s := by
  rw [settle, Prod.mk.injEq, eq_comm (a := s)]

/-- An action on a part of a state changes that part, however it ends. -/
theorem within_eq_iff {τ : Type} {get : σ → τ} {set : τ → σ → σ} {action : Act τ α}
    {result : Except Error α} :
    within get set action s = (result, s') ↔
      ∃ t, action (get s) = (result, t) ∧ s' = set t s := by
  rw [within]
  rcases action (get s) with ⟨r, t⟩
  constructor
  · intro hrun
    cases hrun
    exact ⟨t, rfl, rfl⟩
  · rintro ⟨t', hrun, rfl⟩
    cases hrun
    rfl

end Act

namespace DiskAct

variable {α : Type} {d d' : Disk}

theorem ask_eq_ok_iff {question : Disk → Except DiskFault α} {a : α} :
    ask question d = (.ok a, d') ↔ question d = .ok a ∧ d' = d := by
  rw [ask, Prod.mk.injEq, eq_comm (a := d)]

/-- A change that has been made gives the disk that it tells. -/
theorem change_eq_ok_iff {f : Disk → Except DiskFault Disk} {u : Unit} :
    change f d = (.ok u, d') ↔ f d = .ok d' := by
  rw [change]
  cases f d with
  | error fault => exact ⟨fun h => (by cases h), fun h => (by cases h)⟩
  | ok e => exact ⟨fun h => (by cases h; rfl), fun h => (by cases h; rfl)⟩

end DiskAct

namespace Host

variable {α : Type} {h h' : Host}

/-- An action on the disk changes nothing of the host but the disk. -/
theorem files_eq_ok_iff {action : DiskAct α} {a : α} :
    files action h = (.ok a, h') ↔
      ∃ d, action h.disk = (.ok a, d) ∧ h' = { h with disk := d } := by
  rw [files]
  rcases action h.disk with ⟨e | b, d⟩
  · constructor
    · intro hrun
      cases hrun
    · rintro ⟨d', hrun, -⟩
      cases hrun
  · constructor
    · intro hrun
      cases hrun
      exact ⟨d, rfl, rfl⟩
    · rintro ⟨d', hrun, rfl⟩
      cases hrun
      rfl

/-- A change that has been made has changed the disk and nothing else. -/
theorem change_eq_ok_iff {f : Disk → Except DiskFault Disk} {u : Unit} :
    change f h = (.ok u, h') ↔ ∃ d, f h.disk = .ok d ∧ h' = { h with disk := d } := by
  rw [change, files_eq_ok_iff]
  simp only [DiskAct.change_eq_ok_iff]

end Host

namespace Journal

variable {α : Type} {j j' : Journal}

theorem onHost_eq_ok_iff {action : Act Host α} {a : α} :
    onHost action j = (.ok a, j') ↔
      ∃ h, action j.host = (.ok a, h) ∧ j' = { j with host := h } :=
  Act.within_eq_iff

theorem files_eq_ok_iff {action : DiskAct α} {a : α} :
    files action j = (.ok a, j') ↔
      ∃ d, action j.host.disk = (.ok a, d) ∧
        j' = { j with host := { j.host with disk := d } } := by
  rw [files, onHost_eq_ok_iff]
  constructor
  · rintro ⟨h, hh, rfl⟩
    obtain ⟨d, hd, rfl⟩ := Host.files_eq_ok_iff.mp hh
    exact ⟨d, hd, rfl⟩
  · rintro ⟨d, hd, rfl⟩
    exact ⟨_, Host.files_eq_ok_iff.mpr ⟨d, hd, rfl⟩, rfl⟩

/-- A question is answered, and nothing has happened. -/
theorem ask_eq_ok_iff {question : Disk → Except Error α} {a : α} :
    ask question j = (.ok a, j') ↔ question j.host.disk = .ok a ∧ j' = j := by
  rw [ask, Prod.mk.injEq, eq_comm (a := j)]

/-- A change that has been made has changed the disk and nothing else. -/
theorem change_eq_ok_iff {f : Disk → Except DiskFault Disk} {u : Unit} :
    change f j = (.ok u, j') ↔
      ∃ d, f j.host.disk = .ok d ∧ j' = { j with host := { j.host with disk := d } } := by
  rw [change, files_eq_ok_iff]
  simp only [DiskAct.change_eq_ok_iff]

/-- An answer to a request for a kernel is that of the provisioner, and the request is put down. -/
theorem kernel_eq_ok_iff {p : Provisioners} {runtime : Path} {family : KernelFamily}
    {answer : String} :
    kernel p runtime family j = (.ok answer, j') ↔
      ∃ h, p.kernel runtime family j.host = (.ok answer, h) ∧
        j' = ⟨h, j.requests ++ [.kernel runtime family]⟩ := by
  rw [kernel, Act.bind_eq_ok_iff]
  constructor
  · rintro ⟨u, t, hrequest, hrun⟩
    cases hrequest
    exact onHost_eq_ok_iff.mp hrun
  · rintro ⟨h, hh, rfl⟩
    exact ⟨(), _, rfl, onHost_eq_ok_iff.mpr ⟨h, hh, rfl⟩⟩

/-- An answer to a request for an environment is that of the provisioner, and the request is put
down. -/
theorem environment_eq_ok_iff {p : Provisioners} {name : String} {description answer : Path} :
    environment p name description j = (.ok answer, j') ↔
      ∃ h, p.environment name description j.host = (.ok answer, h) ∧
        j' = ⟨h, j.requests ++ [.environment name description]⟩ := by
  rw [environment, Act.bind_eq_ok_iff]
  constructor
  · rintro ⟨u, t, hrequest, hrun⟩
    cases hrequest
    exact onHost_eq_ok_iff.mp hrun
  · rintro ⟨h, hh, rfl⟩
    exact ⟨(), _, rfl, onHost_eq_ok_iff.mpr ⟨h, hh, rfl⟩⟩

end Journal

end Pipewright
