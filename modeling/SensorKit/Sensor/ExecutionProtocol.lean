import SensorKit.Sensor.ExecutionCleanup
import SensorKit.Sensor.Lowering

/-!
# The cleanup protocol

What `WorkflowExecutor.execute` promises of every run of a workflow, whatever its operations do and
whenever cancellations arrive, with any answers to them.
-/

namespace SensorKit.Sensor

open Lib Common
open Execution (After endsAs)

variable {workflow : ExecutableWorkflow} {answers : List Bool} {w w' : WorkflowExecution}
  {cleanup : Cleanup} {index : ℕ} {rest done : List (Cleanup × ℕ)} {b : Bounded}

/-- The answers to the cancellations of a run, as they arrived. -/
def answered (labels : List WorkflowLabel) : List Bool :=
  labels.filterMap WorkflowLabel.answer

theorem answered_cons (label : WorkflowLabel) (labels : List WorkflowLabel) :
    answered (label :: labels) = label.answer.toList ++ answered labels := by
  unfold answered
  rw [List.filterMap_cons]
  cases label.answer <;> rfl

/-! ## Whole runs -/

theorem Executes.exec (valid : workflow.graph.Valid) (valids : ∀ cleanup ∈ workflow.cleanup, cleanup.graph.Valid)
    (labels : List WorkflowLabel) : ∀ {answers : List Bool} {w : WorkflowExecution}, Executes workflow answers w →
      Lib.exec WorkflowExecution.step w labels = some w' → Executes workflow (answers ++ answered labels) w' := by
  induction labels with
  | nil =>
    intro answers w h run
    cases run
    rwa [show answers ++ answered [] = answers from List.append_nil answers]
  | cons label labels ih =>
    intro answers w h run
    obtain ⟨m, stepped, run⟩ := exec_cons_eq_some.1 run
    rw [answered_cons, ← List.append_assoc]
    exact ih (h.step valid valids stepped) run

/-! ## No cleanup starts after a cancellation -/

/-- A cancellation has arrived since the main graph drained, or one was declined. -/
def Stopped (answers : List Bool) (w : WorkflowExecution) : Prop :=
  w.main.cancellations < answers.length ∨ false ∈ answers

theorem Stopped.more (h : Stopped answers w) (main : w'.main = w.main) (more : List Bool) :
    Stopped (answers ++ more) w' := by
  unfold Stopped at h ⊢
  rw [main, List.length_append, List.mem_append]
  rcases h with late | declined
  · left
    omega
  · exact .inr (.inl declined)

theorem started_settle (last : b.cancelled = true ∨ b.declined ≠ none) (hs : w.settle cleanup rest b = some w') :
    w'.started = w.started ∧ w'.main = w.main := by
  unfold WorkflowExecution.settle at hs
  split at hs
  · cases hs
  · cases hs
    exact ⟨rfl, rfl⟩
  · dsimp only at hs
    split at hs
    · cases hs
      exact ⟨rfl, rfl⟩
    · rename_i undeclined
      have cancelled : b.cancelled = true := last.resolve_right fun declined => declined undeclined
      rw [if_pos cancelled] at hs
      cases hs
      exact ⟨rfl, rfl⟩

/-- **A step after such a cancellation** starts no cleanup. -/
theorem Executes.started_step {label : WorkflowLabel} (valid : workflow.graph.Valid) (h : Executes workflow answers w)
    (stopped : Stopped answers w) (hs : w.step label = some w') :
    w'.started = w.started ∧ Stopped (answers ++ label.answer.toList) w' := by
  obtain ⟨same, counted, main, stage⟩ := h
  cases stage with
  | main phase unfinished all started reports =>
    have declined : false ∈ answers := stopped.resolve_left fun late => absurd all late.ne
    have stopped' (w : WorkflowExecution) : Stopped (answers ++ label.answer.toList) w :=
      .inr (List.mem_append_left _ declined)
    refine ⟨?_, stopped' w'⟩
    rw [all, List.take_length] at main
    cases label with
    | graph label =>
      simp only [WorkflowExecution.step, phase] at hs
      obtain ⟨⟨next, attempts⟩, stepped, rfl⟩ := Option.map_eq_some_iff.1 hs
      obtain ⟨after, -, -⟩ := graphStep_after valid main stepped
      unfold WorkflowExecution.afterMain
      dsimp only
      split
      · rename_i aborted returned
        exact absurd declined (endsAs_returned (after.ended returned).1.symm).1
      · rfl
      · rfl
      · rfl
    | cancel absorbed =>
      simp only [WorkflowExecution.step, phase] at hs
      obtain ⟨next, stepped, rfl⟩ := Option.map_eq_some_iff.1 hs
      rfl
    | _ => simp [WorkflowExecution.step, phase] at hs
  | cleaning cleanup index rest done b phase cleaning =>
    suffices frame : w'.started = w.started ∧ w'.main = w.main from ⟨frame.1, stopped.more frame.2 _⟩
    cases label with
    | graph label =>
      simp only [WorkflowExecution.step, phase] at hs
      split at hs
      · split_ifs at hs
        obtain ⟨⟨next, attempts⟩, stepped, rfl⟩ := Option.map_eq_some_iff.1 hs
        exact ⟨rfl, rfl⟩
      · cases hs
    | begins =>
      simp only [WorkflowExecution.step, phase] at hs
      split at hs
      · cases hs
        exact ⟨rfl, rfl⟩
      · cases hs
    | deliver =>
      simp only [WorkflowExecution.step, phase] at hs
      split at hs
      · split_ifs at hs
        obtain ⟨next, stepped, rfl⟩ := Option.map_eq_some_iff.1 hs
        exact ⟨rfl, rfl⟩
      · cases hs
    | expire =>
      simp only [WorkflowExecution.step, phase] at hs
      split_ifs at hs
      cases hs
      exact ⟨rfl, rfl⟩
    | resume =>
      simp only [WorkflowExecution.step, phase] at hs
      refine started_settle ?_ hs
      rcases stopped with late | declined
      · left
        rw [cleaning.cancelled]
        exact decide_eq_true late
      · right
        rw [cleaning.declined, Ne, Execution.undeclined_iff]
        exact not_not_intro declined
    | cancel absorbed =>
      simp only [WorkflowExecution.step, phase] at hs
      by_cases past : (b.task.result cleanup).isSome
      · rw [if_pos past] at hs
        obtain ⟨started, main⟩ := started_settle (.inl rfl) hs
        exact ⟨started, main⟩
      · rw [if_neg past] at hs
        cases hs
        exact ⟨rfl, rfl⟩
  | concluded ending phase => cases label <;> simp [WorkflowExecution.step, phase] at hs
  | raised ending phase => cases label <;> simp [WorkflowExecution.step, phase] at hs

theorem Executes.started_exec (valid : workflow.graph.Valid)
    (valids : ∀ cleanup ∈ workflow.cleanup, cleanup.graph.Valid) (labels : List WorkflowLabel) :
    ∀ {answers : List Bool} {w : WorkflowExecution}, Executes workflow answers w → Stopped answers w →
      Lib.exec WorkflowExecution.step w labels = some w' → w'.started = w.started := by
  induction labels with
  | nil =>
    intro answers w _ _ run
    cases run
    rfl
  | cons label labels ih =>
    intro answers w h stopped run
    obtain ⟨m, stepped, run⟩ := exec_cons_eq_some.1 run
    obtain ⟨started, stopped'⟩ := h.started_step valid stopped stepped
    exact (ih (h.step valid valids stepped) stopped' run).trans started

/-! ## No run is stuck -/

/-- A graph's run is not stuck before its end, and can be cancelled until then. -/
theorem goes_on_running {run : Execution (Option Operation)} {g : Graph (Option Operation)} {seen : List Bool}
    (after : After g seen run) (unfinished : ∀ ending, run.phase ≠ .finished ending) :
    ∃ label : GraphLabel, ∀ owner, (graphStep owner run label).isSome := by
  obtain ⟨label, uncancelled, enabled⟩ := after.goes_on unfinished
  exact ⟨.step label, fun owner => graphStep_isSome uncancelled enabled⟩

theorem Executes.goes_on (h : Executes workflow answers w) (unfinished : ∀ ending, w.phase ≠ .finished ending) :
    ∃ label, label.answer = none ∧ (w.step label).isSome := by
  obtain ⟨same, counted, main, stage⟩ := h
  cases stage with
  | main phase going =>
    obtain ⟨label, enabled⟩ := goes_on_running main going
    exact ⟨.graph label, rfl, by simpa [WorkflowExecution.step, phase] using enabled none⟩
  | cleaning cleanup index rest done b phase cleaning =>
    cases result : b.task.result cleanup with
    | some result =>
      obtain ⟨report, rfl⟩ := cleaning.runs.result ‹_›
      refine ⟨.resume, rfl, ?_⟩
      simp only [WorkflowExecution.step, phase, WorkflowExecution.settle, result]
      split <;> rfl
    | none =>
      cases task : b.task with
      | created => exact ⟨.begins, rfl, by simp [WorkflowExecution.step, phase, task]⟩
      | unstarted => simp [task, CleanupTask.result] at result
      | running run =>
        have runs := cleaning.runs
        rw [task] at runs
        obtain ⟨seen, absorbed, after⟩ := runs
        have going : ∀ ending, run.phase ≠ .finished ending := by
          intro ending finished
          rw [task] at result
          cases ending <;> simp [CleanupTask.result, finished] at result
        by_cases requested : b.requested
        · refine ⟨.deliver, rfl, ?_⟩
          have enabled := after.cancellable going true
          simpa [WorkflowExecution.step, phase, task, requested] using enabled
        · obtain ⟨label, enabled⟩ := goes_on_running after going
          refine ⟨.graph label, rfl, ?_⟩
          simpa [WorkflowExecution.step, phase, task, requested] using enabled (some index)
  | concluded ending phase => exact absurd phase (unfinished ending)
  | raised ending phase => exact absurd phase (unfinished ending)

/-! ## The protocol -/

/-- What the executor promises of a run after the answers to its cancellations. -/
structure CleanupProtocol (workflow : ExecutableWorkflow) (answers : List Bool) (w : WorkflowExecution) : Prop where
  /-- A cleanup starts only after every operation of the main graph has ended. -/
  drained : w.started ≠ [] → (∃ aborted, w.main.phase = .finished (.returned aborted)) ∧
    ∀ n, ¬ w.main.state.InFlight n ∧ ((w.main.state.results n).isSome ↔ n ∈ workflow.graph.nodes.map Node.id)
  /-- Each runs at most once, in authored order. -/
  ordered : w.started.Sublist workflow.cleanup.zipIdx
  /-- Those that the drained outcome selects and an attempt arms run, up to where the executor is. -/
  selected : w.started <+: workflow.cleanup.zipIdx.filter (w.eligible ·.1)
  /-- All of them have run at the end, failed or expired as they may, if nothing was cancelled meanwhile. -/
  complete : ∀ ending, w.phase = .finished ending → false ∉ answers → w.main.cancellations = answers.length →
    w.started = workflow.cleanup.zipIdx.filter (w.eligible ·.1)
  /-- The executor is not stuck before its end. -/
  goes_on : (∀ ending, w.phase ≠ .finished ending) → ∃ label, label.answer = none ∧ (w.step label).isSome
  /-- None starts after a cancellation that arrives during cleanup, nor after a declined one. -/
  stopped : Stopped answers w → ∀ labels w', exec WorkflowExecution.step w labels = some w' → w'.started = w.started
  /-- The first declined cancellation propagates. -/
  propagates : ∀ ending cancellation, w.phase = .finished ending → answers.findIdx? (!·) = some cancellation →
    ending = .raised cancellation
  /-- Without one, the executor returns or raises a workflow error, aborted if a cancellation arrived. -/
  ends : ∀ ending, w.phase = .finished ending → false ∉ answers →
    ending = .returned (!answers.isEmpty) ∨ ending = .failed (!answers.isEmpty)
  /-- It raises one for a required failure of the main run, or of a cleanup of a run that was not aborted. -/
  fails : ∀ ending, w.phase = .finished ending → false ∉ answers →
    (ending = .failed (!answers.isEmpty) ↔
      w.run.failures ≠ [] ∨ answers = [] ∧ ∃ report ∈ w.reports, report.failed = true)
  /-- Each cleanup that ran has its report. -/
  reported : ∀ ending, w.phase = .finished ending → w.reports.map CleanupReport.cleanup = w.started.map Prod.fst

section

variable (h : Executes workflow answers w)
include h

theorem Executes.selected : w.started <+: workflow.cleanup.zipIdx.filter (w.eligible ·.1) := by
  cases h.stage with
  | main _ _ _ started =>
    rw [started]
    exact List.nil_prefix
  | cleaning cleanup index rest done b _ cleaning =>
    rw [cleaning.split, List.append_cons, List.filter_append, List.filter_append, cleaning.started]
    simp [cleaning.eligible]
  | concluded _ _ concluded => exact concluded.leading
  | raised _ _ raised => exact raised.leading

theorem Executes.returned (started : w.started ≠ []) : ∃ aborted, w.main.phase = .finished (.returned aborted) := by
  cases h.stage with
  | main _ _ _ unstarted => exact absurd unstarted started
  | cleaning _ _ _ _ _ _ cleaning => exact cleaning.returned
  | concluded _ _ concluded => exact concluded.returned
  | raised _ _ raised => exact raised.main.resolve_left started

theorem Executes.ending {ending : WorkflowEnding} (finished : w.phase = .finished ending) :
    Concluded workflow answers w ending ∨ RaisedOut workflow answers w ending := by
  cases h.stage with
  | main phase =>
    rw [finished] at phase
    cases phase
  | cleaning _ _ _ _ _ phase =>
    rw [finished] at phase
    cases phase
  | concluded ending' phase concluded =>
    obtain rfl : ending = ending' := WorkflowPhase.finished.inj (finished.symm.trans phase)
    exact .inl concluded
  | raised ending' phase raised =>
    obtain rfl : ending = ending' := WorkflowPhase.finished.inj (finished.symm.trans phase)
    exact .inr raised

/-- With no declined answer the run concludes. -/
theorem Executes.concluded {ending : WorkflowEnding} (finished : w.phase = .finished ending)
    (absorbed : false ∉ answers) : Concluded workflow answers w ending := by
  rcases h.ending finished with concluded | raised
  · exact concluded
  · obtain ⟨cancellation, declined, -⟩ := raised.declined
    rw [Execution.undeclined_iff.2 absorbed] at declined
    cases declined

end

/-- **The cleanup protocol**, of every run of a lowered workflow. -/
theorem cleanupProtocol {name : String} {steps : List PlannedStep} {facts : BoundSensor} {cleanup : List CleanupPlan}
    {deadlines : List DeadlineRule} {rules : List OperatorRule} {labels : List WorkflowLabel}
    (lowers : lower name steps facts cleanup deadlines rules = .ok workflow)
    (run : exec WorkflowExecution.step (.start workflow) labels = some w) : CleanupProtocol workflow (answered labels) w := by
  obtain ⟨main, cleanups, -⟩ := lower_projects lowers
  have valid := main.valid
  have valids : ∀ cleanup ∈ workflow.cleanup, cleanup.graph.Valid := by
    intro cleanup mem
    obtain ⟨plan, -, projects⟩ := exists_left_of_forall₂ cleanups mem
    exact projects.valid
  have executes : Executes workflow (answered labels) w := (start_executes valid).exec valid valids labels run
  have selected := executes.selected
  refine
    { drained := ?_
      ordered := selected.sublist.trans List.filter_sublist
      selected
      complete := fun ending finished absorbed quiet => (executes.concluded finished absorbed).complete quiet
      goes_on := executes.goes_on
      stopped := fun stopped more w' => executes.started_exec valid valids more stopped
      propagates := ?_
      ends := ?_
      fails := ?_
      reported := ?_ }
  · intro started
    obtain ⟨aborted, returned⟩ := executes.returned started
    obtain ⟨-, idle, resolved⟩ := executes.main.ended returned
    exact ⟨⟨aborted, returned⟩, fun n => ⟨idle n, resolved n⟩⟩
  · intro ending cancellation finished declined
    rcases executes.ending finished with concluded | raised
    · rw [Execution.undeclined_iff.2 concluded.absorbed] at declined
      cases declined
    · obtain ⟨first, declined', rfl⟩ := raised.declined
      rw [Option.some.inj (declined.symm.trans declined')]
  · intro ending finished absorbed
    rw [(executes.concluded finished absorbed).outcome]
    split_ifs
    · exact .inr rfl
    · exact .inl rfl
  · intro ending finished absorbed
    rw [(executes.concluded finished absorbed).outcome]
    split_ifs with failed
    · simpa using failed
    · simpa using failed
  · intro ending finished
    rcases executes.ending finished with concluded | raised
    · exact concluded.reported
    · exact raised.reported

/-- Stops of the mount: after an attempted stop, after a failure, and in any case. -/
def teardown : List CleanupPlan :=
  let stop : PlannedStep :=
    { name := "stop", origin := ⟨"end", [], ""⟩, group := "end", target := some ⟨"mount", []⟩,
      command := some ⟨⟨"Stop", none⟩, []⟩ }
  [{ steps := [stop], origin := ⟨"end", [.number 0], ""⟩, armedBy := some ["stop"] },
    { steps := [stop], origin := ⟨"end", [.number 1], ""⟩, «when» := .failure },
    { steps := [stop], origin := ⟨"end", [.number 2], ""⟩ }]

/-- The main graph runs, the first cleanup expires, and the last is cancelled before it starts. -/
def expiring : List WorkflowLabel :=
  [.graph (.step (.dispatch 1)), .graph (.step (.ends 1 .ok)), .graph (.step .wake), .graph (.step (.dispatch 0)),
    .graph (.step (.ends 0 .ok)), .graph (.step .wake), .begins, .graph (.step (.dispatch 0)), .expire, .deliver,
    .graph (.step (.ends 0 .cancelled)), .graph (.step .drained), .resume, .cancel true, .begins, .resume]

theorem cleanupProtocol_example : ∃ workflow w, lower "run" tracking stopOnly teardown [] [] = .ok workflow ∧
    exec WorkflowExecution.step (.start workflow) expiring = some w ∧
    (w.started.map Prod.snd = [0, 2] ∧ w.reports.map CleanupReport.expired = [true, false] ∧
      answered expiring = [true]) ∧
    CleanupProtocol workflow (answered expiring) w := by
  have runs : ((lower "run" tracking stopOnly teardown [] []).toOption.bind fun workflow =>
      (exec WorkflowExecution.step (.start workflow) expiring).map fun w =>
        (w.started.map Prod.snd, w.reports.map CleanupReport.expired)) = some ([0, 2], [true, false]) := by
    decide +kernel
  obtain ⟨workflow, lowers, runs⟩ := Option.bind_eq_some_iff.1 runs
  obtain ⟨w, run, ended⟩ := Option.map_eq_some_iff.1 runs
  have lowers := toOption_eq_some.1 lowers
  rw [Prod.mk.injEq] at ended
  exact ⟨workflow, w, lowers, run, ⟨ended.1, ended.2, by decide⟩, cleanupProtocol lowers run⟩

end SensorKit.Sensor
