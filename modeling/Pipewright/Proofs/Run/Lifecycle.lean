import Pipewright.Proofs.Frames
import Pipewright.Proofs.Run.Checkpoints

/-!
# The course of a run

From its first saved state on, a run takes one of a few courses: it is not prepared, or it is
prepared and stays so, or it is launched and ends well or badly.  Each state is saved, so unless one
could not be, what has been saved tells the course, and the last state that has been saved is the one
that can be read at the end.

* `Console.SameCheckpoints`: actions that save nothing.
* `Launched`, `Course`: what is saved of a run behind its first state.
* `launchRun_cases`, `Conversion.prepareAndLaunch_cases`: runs take their courses.
* `RunStatus.courses`, `Followed`: what a course tells.
-/

namespace Pipewright

/-! ## Actions that save nothing -/

namespace Console

variable {α : Type}

/-- No states have been saved. -/
def SameCheckpoints (c c' : Console) : Prop := c'.checkpoints = c.checkpoints

instance : IsPreorder Console SameCheckpoints where
  refl _ := rfl
  trans _ _ _ h h' := h'.trans h

theorem same_onHost (action : Act Host α) : (onHost action).Along SameCheckpoints :=
  fun _ => rfl

theorem same_onJournal (action : Act Journal α) : (onJournal action).Along SameCheckpoints :=
  fun _ => rfl

theorem same_ask (question : Disk → Except Error α) : (ask question).Along SameCheckpoints :=
  fun _ => rfl

theorem same_print (text : String) : (print text).Along SameCheckpoints :=
  fun _ => rfl

theorem same_printLine (text : String) : (printLine text).Along SameCheckpoints :=
  same_print _

theorem same_printOutput (e : Execution) : (printOutput e).Along SameCheckpoints :=
  fun _ => rfl

end Console

open Console

namespace Act

variable {σ α β : Type} {s s' : σ}

/-- Of two actions in a row the first one fails, or else the second one runs. -/
theorem bind_cases {x : Act σ α} {f : α → Act σ β} {result : Except Error β}
    (hrun : (x >>= f) s = (result, s')) :
    (∃ e, result = .error e ∧ x s = (.error e, s')) ∨
      ∃ a t, x s = (.ok a, t) ∧ f a t = (result, s') := by
  rcases hx : x s with ⟨e | a, t⟩
  · rw [bind_of_error hx] at hrun
    cases hrun
    exact .inl ⟨e, rfl, rfl⟩
  · rw [bind_of_ok hx] at hrun
    exact .inr ⟨a, t, rfl, hrun⟩

/-- Behind an action whose error is looked at, what comes next runs with its end. -/
theorem attempt_bind {x : Act σ α} {f : Except Error α → Act σ β} {r : Except Error α} {t : σ}
    (h : x s = (r, t)) : (x.attempt >>= f) s = f r t := by
  have hattempt : x.attempt s = (.ok r, t) := by
    rw [attempt, h]
  exact bind_of_ok hattempt f

end Act

theorem same_changePlainly (change : Disk → Except DiskFault Disk) :
    (changePlainly change).Along SameCheckpoints := by
  intro c
  rw [changePlainly]
  split <;> rfl

theorem same_executeEngine (f : Facilities) (output : Path) (log : Option Path) :
    (executeEngine f output log).Along SameCheckpoints := by
  intro c
  rw [executeEngine]
  split <;> rfl

theorem same_launch (f : Facilities) (output : Path) (log : Option Path) :
    (launch f output log).Along SameCheckpoints := by
  have hengine : ∀ log, (do
      let e ← executeEngine f output log
      Console.printOutput e
      return e.status : Act Console ExitStatus).Along SameCheckpoints := fun log =>
    (same_executeEngine f output log).bind fun e => (same_printOutput e).bind fun _ => .pure _
  cases log with
  | none => exact hengine none
  | some p =>
    exact (same_changePlainly _).bind fun _ => (same_printLine _).bind fun _ => hengine (some p)

theorem Conversion.same_perform (f : Facilities) (c : Conversion) :
    (c.perform f).Along SameCheckpoints :=
  (same_onHost _).bind fun _ => (same_onJournal _).bind fun _ => same_printLine _

/-! ## Courses -/

/-- What is saved of a run that is launched, and how the run ends. -/
inductive Launched (m : RunMetadata) : List RunMetadata → Except Error Unit → Prop where
  | succeeded (time time' : String) :
      Launched m [m.transition .running time, m.transition .runSuccess time'] (.ok ())
  | failed (e : Error) (time time' : String) :
      Launched m [m.transition .running time, m.fail .runError e.message time'] (.error e)

/-- What is saved of a run behind its first state, and how the run ends.  It is launched when that is
wanted. -/
inductive Course (m : RunMetadata) : Bool → List RunMetadata → Except Error Unit → Prop where
  | notPrepared (wanted : Bool) (e : Error) (time : String) :
      Course m wanted [m.fail .prepareFailure e.message time] (.error e)
  | prepared (time : String) : Course m false [m.transition .prepareSuccess time] (.ok ())
  | launched {ms : List RunMetadata} {result : Except Error Unit} (time : String)
      (h : Launched (m.transition .prepareSuccess time) ms result) :
      Course m true (m.transition .prepareSuccess time :: ms) result

theorem Course.ne_nil {m : RunMetadata} {wanted : Bool} {ms : List RunMetadata}
    {result : Except Error Unit} (h : Course m wanted ms result) : ms ≠ [] := by
  cases h <;> exact List.cons_ne_nil _ _

section

variable {f : Facilities} {output : Path} {m : RunMetadata} {status : RunStatus} {e : Error}
  {c c' : Console} {log : Option Path}

/-- A state with the time of the clock is saved before what comes next, or could not be saved. -/
theorem saveNow_cases {α : Type} {state : String → RunMetadata} {next : String → Act Console α}
    {result : Except Error α}
    (hrun : (Console.now f >>= fun time => Console.save (state time) output >>= fun _ =>
      next time) c = (result, c')) :
    (∃ time c₁, Saved output [state time] c c₁ ∧ next time c₁ = (result, c')) ∨
      ∃ e, result = .error e ∧ Unsaved output e c' := by
  obtain ⟨e, -, hnow⟩ | ⟨time, c₁, hnow, hrest⟩ := Act.bind_cases hrun
  · cases hnow
  obtain rfl : c₁ = { c with readings := c.readings + 1 } := by cases hnow; rfl
  obtain ⟨e, rfl, hsave⟩ | ⟨_, c₂, hsave, hnext⟩ := Act.bind_cases hrest
  · exact .inr ⟨e, rfl, _, _, hsave⟩
  · obtain ⟨-, hsaved⟩ | ⟨e, herror, -, -⟩ := save_cases hsave
    · exact .inl ⟨time, c₂, ⟨hsaved.checkpoints, hsaved.readText⟩, hnext⟩
    · cases herror

/-- The run is saved in another state before what comes next, or could not be saved. -/
theorem saveTransition_cases {α : Type} {next : RunMetadata → Act Console α}
    {result : Except Error α}
    (hrun : (saveTransition f output m status >>= next) c = (result, c')) :
    (∃ time c₁, Saved output [m.transition status time] c c₁ ∧
        next (m.transition status time) c₁ = (result, c')) ∨
      ∃ e, result = .error e ∧ Unsaved output e c' := by
  obtain ⟨e, rfl, hfirst⟩ | ⟨changed, c₁, hfirst, hnext⟩ := Act.bind_cases hrun
  · obtain ⟨_, _, -, hdone⟩ | ⟨e', herror, hunsaved⟩ := saveNow_cases hfirst
    · cases hdone
    · cases herror
      exact .inr ⟨e, rfl, hunsaved⟩
  · obtain ⟨time, c₂, hsaved, hdone⟩ | ⟨e', herror, -⟩ := saveNow_cases hfirst
    · cases hdone
      exact .inl ⟨time, c₁, hsaved, hnext⟩
    · cases herror

/-- The run is saved as failed, or could not be saved. -/
theorem saveFailure_cases {result : Except Error Unit}
    (hrun : saveFailure f output m status e c = (result, c')) :
    (∃ time, result = .error e ∧ Saved output [m.fail status e.message time] c c') ∨
      ∃ e, result = .error e ∧ Unsaved output e c' := by
  obtain ⟨time, c₁, hsaved, hdone⟩ | hunsaved := saveNow_cases hrun
  · cases hdone
    exact .inl ⟨time, rfl, hsaved⟩
  · exact .inr hunsaved

/-- A run that is launched takes its course, unless a state of it could not be saved. -/
theorem launchRun_cases {result : Except Error Unit}
    (hrun : launchRun f output m log c = (result, c')) :
    (∃ ms, Launched m ms result ∧ Saved output ms c c') ∨
      ∃ e, result = .error e ∧ Unsaved output e c' := by
  obtain ⟨time, c₁, hrunning, hrest⟩ | hunsaved := saveTransition_cases hrun
  swap
  · exact .inr hunsaved
  rcases hlaunch : launch f output log c₁ with ⟨ended, c₂⟩
  rw [Act.attempt_bind hlaunch] at hrest
  -- launching saves nothing, so what is saved next comes behind
  have hsame : c₂.checkpoints = c₁.checkpoints := (same_launch f output log).of_run hlaunch
  have hbehind : ∀ {n}, Saved output [n] c₂ c' →
      Saved output [m.transition .running time, n] c c' := fun hn =>
    hrunning.append ⟨hn.checkpoints.trans (by rw [hsame]), hn.readText⟩ (List.cons_ne_nil _ _)
  have hfail : ∀ e, saveFailure f output (m.transition .running time) .runError e c₂ =
      (result, c') → (∃ ms, Launched m ms result ∧ Saved output ms c c') ∨
        ∃ e, result = .error e ∧ Unsaved output e c' := by
    intro e he
    obtain ⟨time', rfl, hfailed⟩ | hunsaved := saveFailure_cases he
    · exact .inl ⟨_, .failed e time time', hbehind hfailed⟩
    · exact .inr hunsaved
  rcases ended with e | status
  · exact hfail e hrest
  · dsimp only at hrest
    split at hrest
    · obtain ⟨time', c₃, hended, hprint⟩ | hunsaved := saveTransition_cases hrest
      · cases hprint
        exact .inl ⟨_, .succeeded time time', hbehind ⟨hended.checkpoints, hended.readText⟩⟩
      · exact .inr hunsaved
    · exact hfail _ hrest

end

/-- A run takes its course, unless a state of it could not be saved. -/
theorem Conversion.prepareAndLaunch_cases {f : Facilities} {conversion : Conversion}
    {wanted : Bool} {m : RunMetadata} {log : Option Path} {c c' : Console}
    {result : Except Error Unit}
    (hrun : conversion.prepareAndLaunch f wanted m log c = (result, c')) :
    (∃ ms, Course m wanted ms result ∧ Saved conversion.output ms c c') ∨
      ∃ e, result = .error e ∧ Unsaved conversion.output e c' := by
  rcases hperform : conversion.perform f c with ⟨ended, c₁⟩
  rw [prepareAndLaunch, Act.attempt_bind hperform] at hrun
  -- converting saves nothing
  have hsame : c₁.checkpoints = c.checkpoints := (conversion.same_perform f).of_run hperform
  have hsaved : ∀ {ms d}, Saved conversion.output ms c₁ d → Saved conversion.output ms c d :=
    fun h => ⟨h.checkpoints.trans (by rw [hsame]), h.readText⟩
  rcases ended with e | _
  · obtain ⟨time, rfl, hfailed⟩ | hunsaved := saveFailure_cases hrun
    · exact .inl ⟨_, .notPrepared wanted e time, hsaved hfailed⟩
    · exact .inr hunsaved
  · obtain ⟨time, c₂, hprepared, hrest⟩ | hunsaved := saveTransition_cases hrun
    swap
    · exact .inr hunsaved
    cases wanted with
    | false =>
      cases hrest
      exact .inl ⟨_, .prepared time, hsaved hprepared⟩
    | true =>
      obtain ⟨ms, hlaunched, hms⟩ | hunsaved := launchRun_cases hrest
      · refine .inl ⟨_, .launched time hlaunched, hsaved (hprepared.append hms ?_)⟩
        rintro rfl
        cases hlaunched
      · exact .inr hunsaved

/-! ## What a course tells -/

namespace RunMetadata

variable (m : RunMetadata) (status : RunStatus) (id message time : String)

@[simp] theorem status_start : (start id time).status = .prepare := rfl

@[simp] theorem status_transition : (m.transition status time).status = status := rfl

@[simp] theorem status_fail : (m.fail status message time).status = status := rfl

end RunMetadata

/-- The states that a run may go through, by whether it is to be launched. -/
def RunStatus.courses (wanted : Bool) : List (List RunStatus) :=
  [prepare, prepareFailure] ::
    if wanted then
      [[prepare, prepareSuccess, running, runSuccess], [prepare, prepareSuccess, running, runError]]
    else [[prepare, prepareSuccess]]

/-- The state is one of the run with an id that started at a time.  It has a message when it is that
of a failure, and then the message is that of the error in which the run ends. -/
structure RunMetadata.Of {α : Type} (id time : String) (result : Except Error α)
    (m : RunMetadata) : Prop where
  id : m.id = id
  startTime : m.startTime = time
  noMessage : m.status ≠ .prepareFailure → m.status ≠ .runError → m.errorMessage = ""
  message : m.status = .prepareFailure ∨ m.status = .runError →
    ∃ e, result = .error e ∧ m.errorMessage = e.message

/-- These states are those of the run with an id, which takes one of its courses up to the result. -/
structure Followed {α : Type} (id : String) (wanted : Bool) (ms : List RunMetadata)
    (result : Except Error α) : Prop where
  statuses : ms.map RunMetadata.status ∈ RunStatus.courses wanted
  states : ∃ time, ∀ m ∈ ms, m.Of id time result
  ended : result.isOk = true ↔
    ∃ m ∈ ms.getLast?, m.status = .prepareSuccess ∨ m.status = .runSuccess

section

variable {id time : String} {wanted : Bool} {ms : List RunMetadata} {result : Except Error Unit}

theorem of_start {α : Type} (id time : String) (result : Except Error α) :
    (RunMetadata.start id time).Of id time result where
  id := rfl
  startTime := rfl
  noMessage _ _ := rfl
  message := nofun

theorem of_transition {status : RunStatus} (hprepare : status ≠ .prepareFailure)
    (hrun : status ≠ .runError) (time' : String) :
    ((RunMetadata.start id time).transition status time').Of id time result where
  id := rfl
  startTime := rfl
  noMessage _ _ := rfl
  message h := (h.elim hprepare hrun).elim

theorem of_fail {status : RunStatus} (hstatus : status = .prepareFailure ∨ status = .runError)
    (e : Error) (time' : String) :
    ((RunMetadata.start id time).fail status e.message time').Of id time
      (.error e : Except Error Unit) where
  id := rfl
  startTime := rfl
  noMessage hprepare hrun := (hstatus.elim hprepare hrun).elim
  message _ := ⟨e, rfl, rfl⟩

/-- All states along the course of a run are states of the run. -/
theorem Course.of_mem (h : Course (.start id time) wanted ms result) :
    ∀ m ∈ ms, m.Of id time result := by
  cases h with
  | notPrepared wanted e time' =>
    exact List.forall_mem_singleton.mpr (of_fail (.inl rfl) e time')
  | prepared time' =>
    exact List.forall_mem_singleton.mpr (of_transition (by decide) (by decide) time')
  | launched time' h =>
    refine List.forall_mem_cons.mpr ⟨of_transition (by decide) (by decide) time', ?_⟩
    cases h with
    | succeeded time₁ time₂ =>
      refine List.forall_mem_cons.mpr ⟨of_transition (by decide) (by decide) time₁, ?_⟩
      exact List.forall_mem_singleton.mpr (of_transition (by decide) (by decide) time₂)
    | failed e time₁ time₂ =>
      refine List.forall_mem_cons.mpr ⟨of_transition (by decide) (by decide) time₁, ?_⟩
      exact List.forall_mem_singleton.mpr (of_fail (.inr rfl) e time₂)

/-- The course tells which states are saved, and the last of them tells how the run ends. -/
theorem Course.statuses (h : Course (.start id time) wanted ms result) :
    (RunMetadata.start id time :: ms).map RunMetadata.status ∈ RunStatus.courses wanted ∧
      (result.isOk = true ↔ ∃ m ∈ (RunMetadata.start id time :: ms).getLast?,
        m.status = .prepareSuccess ∨ m.status = .runSuccess) := by
  cases h with
  | notPrepared wanted e time' => simp [RunStatus.courses, Except.isOk, Except.toBool]
  | prepared time' => simp [RunStatus.courses, Except.isOk, Except.toBool]
  | launched time' h =>
    cases h with
    | succeeded time₁ time₂ => simp [RunStatus.courses, Except.isOk, Except.toBool]
    | failed e time₁ time₂ => simp [RunStatus.courses, Except.isOk, Except.toBool]

/-- What is made of a result does not matter for what has been saved. -/
theorem Followed.map {α β : Type} {result : Except Error α} (h : Followed id wanted ms result)
    (g : α → β) : Followed id wanted ms (result.map g) := by
  obtain ⟨hstatuses, ⟨time, hstates⟩, hended⟩ := h
  have herror : ∀ e, result = .error e → result.map g = .error e := by
    rintro e rfl
    rfl
  refine ⟨hstatuses, ⟨time, fun m hm => ?_⟩, ?_⟩
  · obtain ⟨hid, hstart, hnone, hmessage⟩ := hstates m hm
    refine ⟨hid, hstart, hnone, fun hfailed => ?_⟩
    obtain ⟨e, he, htext⟩ := hmessage hfailed
    exact ⟨e, herror e he, htext⟩
  · cases result <;> exact hended

/-- What is saved along a course follows the run. -/
theorem Course.followed (h : Course (.start id time) wanted ms result) :
    Followed id wanted (.start id time :: ms) result where
  statuses := h.statuses.1
  states := ⟨time, List.forall_mem_cons.mpr
    ⟨of_start id time result, h.of_mem⟩⟩
  ended := h.statuses.2

end

end Pipewright
