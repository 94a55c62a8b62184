import Mathlib.Order.Defs.Unbundled
import Pipewright.Proofs.Runs

/-!
# What actions keep

An action keeps something when every run of it does, be its end a result or an error.  Then what is
kept is told by a preorder of states, and parts that keep it make a whole that does.

* `Act.Along`: each run ends in a state related to the one that it started from.
* `Act.Along.bind`, `Act.Along.bind_settle`: two actions in a row.
* `Provisioners.Along`, `Journal.OnDisk`: the same of provisioners, and of journals by their disks.
* `Journal.along_change`, `Journal.along_kernel`, `Journal.along_environment`: what is done on the
  disk and by the provisioners.
-/

namespace Pipewright

/-- However the action ends, it ends in a state that is related to the one it started from. -/
def Act.Along {σ α : Type} (R : σ → σ → Prop) (x : Act σ α) : Prop :=
  ∀ s, R s (x s).2

namespace Act.Along

variable {σ α β : Type} {R : σ → σ → Prop}

/-- A run of the action ends in a state that is related to the one it started from. -/
theorem of_run {x : Act σ α} {s t : σ} {result : Except Error α} (hx : x.Along R)
    (h : x s = (result, t)) : R s t := by
  have hrun := hx s
  rwa [h] at hrun

variable [IsPreorder σ R]

theorem pure (a : α) : Along R (Pure.pure a) := fun s => refl_of R s

theorem throw (e : Error) : Along R (MonadExcept.throw e : Act σ α) := fun s => refl_of R s

theorem get : Along R MonadState.get := fun s => refl_of R s

theorem bind {x : Act σ α} {f : α → Act σ β} (hx : x.Along R) (hf : ∀ a, (f a).Along R) :
    (x >>= f).Along R := by
  intro s
  have hfirst := hx s
  rcases hrun : x s with ⟨e | a, t⟩
  · rw [bind_of_error hrun]
    rwa [hrun] at hfirst
  · rw [bind_of_ok hrun]
    rw [hrun] at hfirst
    exact trans_of R hfirst (hf a t)

/-- After a result that has been worked out, what comes next may count on it. -/
theorem bind_settle {result : Except Error α} {f : α → Act σ β}
    (h : ∀ a, result = .ok a → (f a).Along R) : (settle result >>= f).Along R := by
  cases result with
  | error e => exact fun s => refl_of R s
  | ok a => exact fun s => h a rfl s

end Act.Along

/-- The provisioners keep to a relation of disks, whatever they are asked for. -/
structure Provisioners.Along (provisioners : Provisioners) (R : Disk → Disk → Prop) : Prop where
  kernel : ∀ runtime family h, R h.disk (provisioners.kernel runtime family h).2.disk
  environment : ∀ name description h, R h.disk (provisioners.environment name description h).2.disk

namespace Journal

variable {α : Type} {R : Disk → Disk → Prop}

/-- The disks of the journals are related. -/
def OnDisk (R : Disk → Disk → Prop) (j j' : Journal) : Prop :=
  R j.host.disk j'.host.disk

theorem along_files {action : DiskAct α} (h : ∀ d, R d (action d).2) :
    (files action).Along (OnDisk R) :=
  fun j => h j.host.disk

theorem along_kernel {p : Provisioners} (hp : p.Along R) (runtime : Path) (family : KernelFamily) :
    (kernel p runtime family).Along (OnDisk R) :=
  fun j => hp.kernel runtime family j.host

theorem along_environment {p : Provisioners} (hp : p.Along R) (name : String)
    (description : Path) : (environment p name description).Along (OnDisk R) :=
  fun j => hp.environment name description j.host

variable [IsPreorder Disk R]

instance : IsPreorder Journal (OnDisk R) where
  refl j := refl_of R j.host.disk
  trans _ _ _ h h' := trans_of R h h'

theorem along_ask (question : Disk → Except Error α) : (ask question).Along (OnDisk R) :=
  fun j => refl_of R j.host.disk

/-- A change that is not made keeps everything. -/
theorem along_change {f : Disk → Except DiskFault Disk} (h : ∀ d d', f d = .ok d' → R d d') :
    (change f).Along (OnDisk R) := by
  refine along_files fun d => ?_
  rw [DiskAct.change]
  rcases hf : f d with fault | d'
  · exact refl_of R d
  · exact h d d' hf

end Journal

end Pipewright
