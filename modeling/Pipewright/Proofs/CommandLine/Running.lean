import Pipewright.Proofs.CommandLine.Looking
import Pipewright.Proofs.Run.Lifecycle

/-!
# Running pipelines

An invocation that starts a run saves its first state once the output directory may be written and the
run has been registered.  From then on the run is followed by what is saved, whatever the document
and the disk are and however the workflow engine ends, and the exit code tells the same as the last
state, which can be loaded at the end.  This is so even where other files of the run have the name of
the file of its state, for a state is saved last.

* `Invocation.Starts`: the run that an invocation starts.
* `Invocation.perform_cases`: what becomes of it.
* `runProgram_followed`: the main statement.
-/

namespace Pipewright

open Console

/-- The run that an invocation starts on a disk: the directory that keeps its states, its id, and
whether it is to be launched.  A document that is converted without a request starts a run when it
is to be launched. -/
inductive Invocation.Starts (f : Facilities) (d : Disk) :
    Invocation → Path → String → Bool → Prop where
  | convert {input output : Path} {o : ConvertOptions} (h : o.launch = true) :
      Starts f d (.convert input output o) output f.freshId true
  | run {request log : Path} {o : ConvertOptions} {r : RunRequest}
      (h : RunRequest.load request d = .ok r) :
      Starts f d (.run request log o) (r.outputDirectory (homeOf f o)) r.id o.launch

section

variable {f : Facilities} {d : Disk} {output : Path} {id : String} {wanted : Bool}
  {c c' : Console}

/-- What becomes of a run: nothing has been saved of it, or a state could not be saved, or it is
followed by what has been saved, of which the last state can be read. -/
def Outcomes {α : Type} (output : Path) (id : String) (wanted : Bool) (result : Except Error α)
    (c : Console) : Prop :=
  c.checkpoints = [] ∨ (∃ e, result = .error e ∧ Unsaved output e c) ∨
    Followed id wanted c.checkpoints result ∧ ∃ last ∈ c.checkpoints.getLast?,
      c.host.disk.readText (output.join checkpointFile) = .ok last.toValue.pretty

theorem refuseExisting_of_exists {force : Bool}
    (hexists : (c.host.disk.exists output && !force) = true) :
    Invocation.refuseExisting output force c = (.error (Invocation.existingError output), c) := by
  rw [Invocation.refuseExisting, Act.bind_of_ok (Act.get_eq_ok_iff.mpr ⟨rfl, rfl⟩),
    if_pos hexists]
  rfl

/-- A directory that is there is refused, unless it may be written over. -/
theorem refuseExisting_cases {α : Type} {force : Bool} {next : Unit → Act Console α}
    {result : Except Error α}
    (hrun : (Invocation.refuseExisting output force >>= next) c = (result, c')) :
    (∃ e, result = .error e ∧ c' = c) ∨ next () c = (result, c') := by
  by_cases hrefused : (c.host.disk.exists output && !force) = true
  · rw [Act.bind_of_error (refuseExisting_of_exists hrefused)] at hrun
    cases hrun
    exact .inl ⟨_, rfl, rfl⟩
  · have hpass : Invocation.refuseExisting output force c = (.ok (), c) := by
      rw [Invocation.refuseExisting, Act.bind_of_ok (Act.get_eq_ok_iff.mpr ⟨rfl, rfl⟩),
        if_neg hrefused]
      rfl
    rw [Act.bind_of_ok hpass] at hrun
    exact .inr hrun

/-- A run whose first state is saved next. -/
theorem outcomes_of_start (conversion : Conversion) {log : Option Path}
    {result : Except Error Unit} (hc : c.checkpoints = [])
    (hrun : (Console.now f >>= fun time => Console.save (.start id time) conversion.output >>=
      fun _ => conversion.prepareAndLaunch f wanted (.start id time) log) c = (result, c')) :
    Outcomes conversion.output id wanted result c' := by
  obtain ⟨time, c₁, hfirst, hrest⟩ | hunsaved := saveNow_cases hrun
  swap
  · exact .inr (.inl hunsaved)
  obtain ⟨ms, hcourse, hms⟩ | hunsaved := Conversion.prepareAndLaunch_cases hrest
  swap
  · exact .inr (.inl hunsaved)
  have hsaved := hfirst.append hms hcourse.ne_nil
  have hcheckpoints : c'.checkpoints = .start id time :: ms := by
    rw [hsaved.checkpoints, hc]
    rfl
  refine .inr (.inr ⟨hcheckpoints ▸ hcourse.followed, ?_⟩)
  rw [hcheckpoints]
  exact ⟨_, List.getLast?_eq_some_getLast (List.cons_ne_nil _ _),
    hsaved.readText _ (List.getLast?_eq_some_getLast (List.cons_ne_nil _ _))⟩

theorem outcomes_performConvert {input : Path} {o : ConvertOptions} {result : Except Error Unit}
    (hlaunch : o.launch = true)
    (hrun : Invocation.performConvert f input output o (.before d) = (result, c)) :
    Outcomes output f.freshId true result c := by
  obtain ⟨e, -, rfl⟩ | hnext := refuseExisting_cases hrun
  · exact .inl rfl
  · rw [if_pos hlaunch] at hnext
    exact outcomes_of_start (Invocation.conversion f input output o) rfl hnext

theorem outcomes_performRun {request log : Path} {o : ConvertOptions} {r : RunRequest}
    {result : Except Error Unit} (hload : RunRequest.load request d = .ok r)
    (hrun : Invocation.performRun f request log o (.before d) = (result, c)) :
    Outcomes (r.outputDirectory (Invocation.homeOf f o)) r.id o.launch result c := by
  have hasked := Console.ask_eq_ok_iff (c := .before d).mpr ⟨hload, rfl⟩
  rw [Invocation.performRun, Act.bind_of_ok hasked] at hrun
  obtain ⟨e, -, rfl⟩ | hnext := refuseExisting_cases hrun
  · exact .inl rfl
  obtain ⟨e, -, hregister⟩ | ⟨_, c₁, hregister, hstart⟩ := Act.bind_cases hnext
  · exact .inl ((same_onHost _).of_run hregister)
  · obtain ⟨e, -, hprint⟩ | ⟨_, c₂, hprint, hstart'⟩ := Act.bind_cases hstart
    · cases hprint
    · have hnone : c₂.checkpoints = [] := by
        rw [(same_print _).of_run hprint]
        exact (same_onHost _).of_run hregister
      exact outcomes_of_start
        (Invocation.conversion f (r.pipelineFile (Invocation.homeOf f o))
          (r.outputDirectory (Invocation.homeOf f o)) o) hnone hstart'

/-- An action that ends in zero ends in an error otherwise. -/
theorem return_zero_cases {x : Act Console Unit} {result : Except Error Nat}
    (hrun : (x >>= fun _ => return 0) c = (result, c')) :
    ∃ r, x c = (r, c') ∧ result = r.map fun _ => 0 := by
  obtain ⟨e, rfl, herror⟩ | ⟨_, t, hok, hdone⟩ := Act.bind_cases hrun
  · exact ⟨_, herror, rfl⟩
  · cases hdone
    exact ⟨_, hok, rfl⟩

theorem Outcomes.map {result : Except Error Unit} (h : Outcomes output id wanted result c) :
    Outcomes output id wanted (result.map fun _ => 0) c := by
  obtain hnone | ⟨e, rfl, hunsaved⟩ | ⟨hfollowed, hlast⟩ := h
  · exact .inl hnone
  · exact .inr (.inl ⟨e, rfl, hunsaved⟩)
  · exact .inr (.inr ⟨hfollowed.map _, hlast⟩)

/-- What becomes of the run that an invocation starts, and the code that it ends in, if it does. -/
theorem Invocation.Starts.perform_cases {invocation : Invocation} {result : Except Error Nat}
    (hstarts : invocation.Starts f d output id wanted)
    (hrun : invocation.perform f (.before d) = (result, c)) :
    Outcomes output id wanted result c ∧ ∀ code, result = .ok code → code = 0 := by
  have hzero : ∀ (r : Except Error Unit) (code : Nat), r.map (fun _ => 0) = .ok code → code = 0 := by
    rintro (e | _) code hcode
    · cases hcode
    · exact (Except.ok.inj hcode).symm
  cases hstarts with
  | convert hlaunch =>
    obtain ⟨r, hr, rfl⟩ := return_zero_cases hrun
    exact ⟨(outcomes_performConvert hlaunch hr).map, hzero r⟩
  | run hload =>
    obtain ⟨r, hr, rfl⟩ := return_zero_cases hrun
    exact ⟨(outcomes_performRun hload hr).map, hzero r⟩

/-- An invocation that saves a state starts a run. -/
theorem Invocation.exists_starts {invocation : Invocation} {result : Except Error Nat}
    (hrun : invocation.perform f (.before d) = (result, c)) (hsaved : c.checkpoints ≠ []) :
    ∃ output id wanted, invocation.Starts f d output id wanted := by
  have hsame : ∀ {x : Act Console Nat}, x.Along SameCheckpoints →
      x (.before d) ≠ (result, c) := fun hx h => hsaved (hx.of_run h)
  cases invocation with
  | convert input output o =>
    by_cases hlaunch : o.launch = true
    · exact ⟨_, _, _, .convert hlaunch⟩
    obtain ⟨r, hr, rfl⟩ := return_zero_cases hrun
    obtain ⟨e, -, rfl⟩ | hnext := refuseExisting_cases hr
    · exact absurd rfl hsaved
    rw [if_neg hlaunch] at hnext
    exact absurd ((Conversion.same_perform f _).of_run hnext) hsaved
  | run request log o =>
    rcases hload : RunRequest.load request d with e | r
    · have hfail : performRun f request log o (.before d) = (.error e, .before d) := by
        refine Act.bind_of_error ?_ _
        rw [Console.ask]
        exact Prod.ext hload rfl
      have hnone : (Invocation.run request log o).perform f (.before d) = (.error e, .before d) :=
        Act.bind_of_error hfail _
      rw [hnone] at hrun
      cases hrun
      exact absurd rfl hsaved
    · exact ⟨_, _, _, .run hload⟩
  | validate document =>
    exact absurd hrun (hsame ((same_ask _).bind fun g => (same_print _).bind fun _ => .pure _))
  | info document =>
    refine absurd hrun (hsame ((same_ask _).bind fun g => ?_))
    exact .bind_settle fun steps _ => (same_print _).bind fun _ => .pure _

end

/-! ## The program -/

section

variable {f : Facilities} {d : Disk} {arguments : List String} {invocation : Invocation}

@[simp] theorem Outcome.disk_ofEnd (result : Except Error Nat) (c : Console) :
    (ofEnd (result, c)).disk = c.host.disk := by
  cases result <;> rfl

/-- When the output directory of a request is there and may not be written over, nothing happens. -/
theorem Invocation.perform_run_of_exists {request log : Path} {o : ConvertOptions}
    {r : RunRequest} (hload : RunRequest.load request d = .ok r)
    (hexists : d.exists (r.outputDirectory (homeOf f o)) = true) (hforce : o.force = false) :
    (Invocation.run request log o).perform f (.before d) =
      (.error (existingError (r.outputDirectory (homeOf f o))), .before d) := by
  have hasked := Console.ask_eq_ok_iff (c := .before d).mpr ⟨hload, rfl⟩
  have hrefused : (d.exists (r.outputDirectory (homeOf f o)) && !o.force) = true := by
    rw [hexists, hforce]
    rfl
  refine Act.bind_of_error ?_ _
  rw [performRun, Act.bind_of_ok hasked]
  exact Act.bind_of_error (refuseExisting_of_exists (c := .before d) hrefused) _

/-- An invocation that saves a state starts a run, which is followed by what is saved just when no
state could not be saved.  Then it takes one of its courses, the last state can be loaded from the
output directory when the program has ended, and the program ends well exactly when this is the state
of a run that has been prepared or has succeeded.  A run whose output directory is there and may not
be written over is refused, and nothing happens. -/
theorem runProgram_followed (hparse : Invocation.parse? arguments = some invocation) :
    (∀ result c, invocation.perform f (.before d) = (result, c) → c.checkpoints ≠ [] →
      ∃ output id wanted, invocation.Starts f d output id wanted ∧
        ((∀ e, result = .error e → ¬ Unsaved output e c) ↔
          Followed id wanted c.checkpoints result ∧
          ∃ last, c.checkpoints.getLast? = some last ∧
            loadCheckpoint output (runProgram f arguments d).disk = .ok (some last) ∧
            ((runProgram f arguments d).exitCode = 0 ↔
              last.status = .prepareSuccess ∨ last.status = .runSuccess))) ∧
    ∀ request log o r, invocation = .run request log o → RunRequest.load request d = .ok r →
      d.exists (r.outputDirectory (Invocation.homeOf f o)) = true → o.force = false →
        (runProgram f arguments d).exitCode = 1 ∧ (runProgram f arguments d).disk = d := by
  refine ⟨fun result c hrun hstarted => ?_, ?_⟩
  · obtain ⟨output, id, wanted, hstarts⟩ := Invocation.exists_starts hrun hstarted
    refine ⟨output, id, wanted, hstarts, ?_⟩
    rw [runProgram_exitCode_eq_zero_iff hparse, runProgram_eq hparse, hrun, Outcome.disk_ofEnd]
    constructor
    · intro hsaved
      obtain ⟨houtcome, hzero⟩ := hstarts.perform_cases hrun
      obtain hnone | ⟨e, herror, hunsaved⟩ | ⟨hfollowed, last, hlast, hread⟩ := houtcome
      · exact absurd hnone hstarted
      · exact absurd hunsaved (hsaved e herror)
      refine ⟨hfollowed, last, hlast, loadCheckpoint_of_readText hread, ?_⟩
      have hended : result.isOk = true ↔
          last.status = .prepareSuccess ∨ last.status = .runSuccess := by
        rw [hfollowed.ended, Option.mem_def.mp hlast]
        simp
      rw [← hended]
      rcases result with e | code
      · exact ⟨fun ⟨_, h⟩ => (by cases h), fun h => (by cases h)⟩
      · obtain rfl := hzero code rfl
        exact ⟨fun _ => rfl, fun _ => ⟨c, rfl⟩⟩
    · rintro ⟨-, last, -, hload, -⟩ e -
      obtain ⟨text, hread⟩ := exists_readText_of_loadCheckpoint hload
      exact Console.not_unsaved hread e
  · rintro request log o r rfl hload hexists hforce
    have hrun : (Invocation.run request log o).perform f (.before d) = _ :=
      Invocation.perform_run_of_exists hload hexists hforce
    rw [runProgram_eq hparse, hrun]
    exact ⟨rfl, rfl⟩

end

/-! ### A run whose document and log have the name of its state -/

/-- Facilities with a workflow engine that ends well. -/
def readyFacilities : Facilities where
  home := none
  provisioners := GenerationSettings.idleProvisioners
  execute _ _ _ d := .ok (⟨[], .code 0⟩, d)
  clock _ := ""
  freshId := ""

/-- A request for a document with the name of the state of a run. -/
def namesakeText : String :=
  "\x7b\"run_id\":\"a\",\"working_dir\":\"o\",\"pipeline_path\":\"run.json\"\x7d"

/-- The request of the text. -/
def namesakeRequest : RunRequest where
  id := "a"
  workingDirectory := "o"
  pipelinePath := "run.json"

/-- A disk with the request, with a document without nodes, with a skeleton of three lines in a
template, and with something old. -/
def namesakeDisk (old : List (String × Entry)) : Disk where
  children := [
    ("r", .file namesakeText.toUTF8 false),
    ("run.json", .file "[[[\"\",[]]]]".toUTF8 false),
    ("t", .directory [("template.nf",
      .file (Text.unlines (Slot.all.map Slot.marker)).toUTF8 false)])] ++ old
  workingDirectory := []

/-- The arguments for a run with a log of that name too. -/
def namesakeArguments : List String :=
  ["run", "--run-config", "r", "--append-log", "run.json", "--template-dir", "t", "-r"]

/-- The run that the arguments ask for. -/
def namesakeRun : Invocation :=
  .run "r" "run.json" { launch := true, templateDirectory := some "t" }

theorem load_namesakeText (old : List (String × Entry)) :
    RunRequest.load "r" (namesakeDisk old) = .ok namesakeRequest := by
  have hread : (namesakeDisk old).readText "r" = .ok namesakeText :=
    Disk.readText_eq_ok_iff.mpr ⟨["r"], false, rfl, rfl, rfl⟩
  have hparse : RunRequest.decoder.parse namesakeText = .ok namesakeRequest := by cbv
  exact bind_eq_ok_iff.mpr ⟨namesakeText, mapError_eq_ok_iff.mpr hread,
    mapError_eq_ok_iff.mpr hparse⟩

/-- The run ends well, and four states of it have been saved. -/
theorem perform_namesakeRun : ∃ c : Console,
    namesakeRun.perform readyFacilities (.before (namesakeDisk [])) = (.ok 0, c) ∧
      c.checkpoints.map RunMetadata.status =
        [.prepare, .prepareSuccess, .running, .runSuccess] := by
  have hrun : (fun r : Except Error Nat × Console =>
      (r.1.toOption, r.2.checkpoints.map RunMetadata.status))
      (namesakeRun.perform readyFacilities (.before (namesakeDisk []))) =
        (some 0, [.prepare, .prepareSuccess, .running, .runSuccess]) := by decide +kernel
  obtain ⟨hresult, hstatuses⟩ := Prod.mk.inj hrun
  exact ⟨_, eq_of_fst (eq_ok_of_toOption hresult), hstatuses⟩

/-- The run is followed to its end, and refused where its output directory is there already. -/
theorem runProgram_followed_namesakeRun :
    (∃ (output : Path) (id : String) (c : Console) (last : RunMetadata),
      namesakeRun.Starts readyFacilities (namesakeDisk []) output id true ∧
      Followed id true c.checkpoints (.ok 0 : Except Error Nat) ∧ last.status = .runSuccess ∧
      loadCheckpoint output (runProgram readyFacilities namesakeArguments (namesakeDisk [])).disk =
        .ok (some last) ∧
      (runProgram readyFacilities namesakeArguments (namesakeDisk [])).exitCode = 0) ∧
    (runProgram readyFacilities namesakeArguments (namesakeDisk [("o", .directory [])])).exitCode =
      1 := by
  have hparse : Invocation.parse? namesakeArguments = some namesakeRun := by decide +kernel
  constructor
  · obtain ⟨c, hrun, hstatuses⟩ := perform_namesakeRun
    have hsaved : c.checkpoints ≠ [] := by
      intro hnil
      rw [hnil] at hstatuses
      cases hstatuses
    obtain ⟨output, id, wanted, hstarts, hiff⟩ :=
      (runProgram_followed hparse).1 (.ok 0) c hrun hsaved
    obtain ⟨hfollowed, last, hlast, hload, hcode⟩ := hiff.mp nofun
    obtain rfl : wanted = true := by cases hstarts; rfl
    have hstatus : last.status = .runSuccess := by
      have hend := congrArg List.getLast? hstatuses
      rw [List.getLast?_map, hlast] at hend
      exact Option.some.inj hend
    exact ⟨output, id, c, last, hstarts, hfollowed, hstatus, hload, hcode.mpr (.inr hstatus)⟩
  · exact ((runProgram_followed hparse).2 "r" "run.json" _ namesakeRequest rfl
      (load_namesakeText _) (by decide +kernel) rfl).1

end Pipewright
