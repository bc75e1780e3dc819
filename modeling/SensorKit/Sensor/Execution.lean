import SensorKit.Sensor.Workflow

/-!
# Executing a workflow

`WorkflowExecutor.execute` runs the main graph. When that has drained, the cleanups that its outcome
selects and an attempted operation arms run one after the other. Each runs as a task of its own, which its
timeout and any further cancellation cancel and which is then waited for. The caller is asked about each
cancellation as it arrives, until it declines one.
-/

namespace SensorKit.Sensor

open Lib Common

/-- An operation for which dispatch began. It is identified by its graph, that of a cleanup or the main one. -/
structure Attempt where
  cleanup : Option ℕ := none
  operation : Operation
deriving DecidableEq, Repr

namespace Cleanup

variable (cleanup : Cleanup)

/-- Whether the run outcome satisfies `when`. -/
def selected (failed aborted : Bool) : Bool :=
  match cleanup.when with
  | .always => true
  | .failure => failed
  | .cancelled => aborted
  | .failureOrCancelled => failed || aborted

/-- Whether the cleanup is unconditional or one of its triggers was attempted. -/
def armed (attempted : List Attempt) : Bool :=
  match cleanup.armedBy with
  | none => true
  | some operations => operations.any fun operation => { operation } ∈ attempted

end Cleanup

/-- One cleanup graph's results and whether its total timeout expired. -/
structure CleanupReport where
  cleanup : Cleanup
  run : RunReport (Option Operation)
  expired : Bool := false

/-- Total timeout expiry or required node failures. -/
def CleanupReport.failed (report : CleanupReport) : Bool :=
  report.expired || !report.run.failures.isEmpty

/-- The task of a cleanup graph: it has yet to start, it runs or has run the graph, or it was cancelled
before it started. -/
inductive CleanupTask where
  | created
  | running (run : Execution (Option Operation))
  | unstarted

/-- The result of the task, if it is done: a report, or the error of a deadlock. -/
def CleanupTask.result (cleanup : Cleanup) : CleanupTask → Option (Except String (RunReport (Option Operation)))
  | .created => none
  | .running run =>
    match run.phase with
    | .finished (.returned aborted) => some (.ok { graph := cleanup.graph, results := run.state.results, aborted })
    | .finished (.raised _) => some (.ok { graph := cleanup.graph, results := run.state.results, aborted := true })
    | .finished .deadlock => some (.error (cleanup.origin.shown ++ ": dependency deadlock"))
    | _ => none
  | .unstarted => some (.ok { graph := cleanup.graph, results := fun _ => none, aborted := true })

/-- The state of `_bounded`. -/
structure Bounded where
  task : CleanupTask := .created
  /-- The task was cancelled and has yet to go on. -/
  requested : Bool := false
  expired : Bool := false
  cancelled : Bool := false
  /-- The first cancellation that was declined, counted as they arrived. -/
  declined : Option ℕ := none

/-- How `execute` ends: it returns a report, raises a workflow error with one, raises a cancellation, or
a deadlock. -/
inductive WorkflowEnding where
  | returned (aborted : Bool)
  | failed (aborted : Bool)
  | raised (cancellation : ℕ)
  | deadlock
deriving DecidableEq, Repr

/-- Where `execute` is: at the main graph; at a cleanup, with the rest of them ahead; or at its end. -/
inductive WorkflowPhase where
  | main
  | cleaning (cleanup : Cleanup) (index : ℕ) (rest : List (Cleanup × ℕ)) (state : Bounded)
  | finished (ending : WorkflowEnding)

/-- One run of `WorkflowExecutor.execute`. -/
structure WorkflowExecution where
  workflow : ExecutableWorkflow
  main : Execution (Option Operation)
  phase : WorkflowPhase := .main
  attempted : List Attempt := []
  /-- The cleanups whose tasks were created, with their places in the workflow. -/
  started : List (Cleanup × ℕ) := []
  reports : List CleanupReport := []
  /-- How many cancellations have arrived. -/
  cancellations : ℕ := 0
  /-- The cancellations that the caller recognized. -/
  reasons : List ℕ := []

/-- A step of the run of a graph: one of the runner, or a dispatch that is refused before an attempt. -/
inductive GraphLabel where
  | step (label : RunLabel)
  | refuse (nid : ℕ) (message : String)
deriving DecidableEq, Repr

/-- The runner goes on after a wait. -/
def GraphLabel.resumes : GraphLabel → Bool
  | .step .wake | .step .drained => true
  | _ => false

/-- What happens next. -/
inductive WorkflowLabel where
  /-- The run of the graph at hand takes a step. -/
  | graph (label : GraphLabel)
  /-- The task of the cleanup starts, if it has not been cancelled. -/
  | begins
  /-- The cancellation of the cleanup's task reaches its runner. -/
  | deliver
  /-- The timeout of the cleanup expires. -/
  | expire
  /-- The executor goes on, as the cleanup's task is done. -/
  | resume
  /-- A cancellation reaches the executor, which the caller absorbs or declines. -/
  | cancel (absorbed : Bool)
deriving DecidableEq, Repr

/-- The operation of a node. -/
def operationAt (g : Graph (Option Operation)) (nid : ℕ) : Option Operation :=
  (g.node nid).bind Node.payload

/-- A step of a graph's run, with what it attempts. An ordering node attempts nothing. -/
def graphStep (cleanup : Option ℕ) (run : Execution (Option Operation)) :
    GraphLabel → Option (Execution (Option Operation) × List Attempt)
  | .step (.cancel _) => none
  | .step (.dispatch nid) => (run.step (.dispatch nid)).map fun next =>
      (next, ((operationAt run.state.graph nid).map fun operation => { cleanup, operation }).toList)
  | .step label => (run.step label).map fun next => (next, [])
  | .refuse nid message =>
    if (operationAt run.state.graph nid).isSome then
      (run.step (.dispatch nid)).bind fun sent => (sent.step (.ends nid (.failed message))).map fun next => (next, [])
    else none

namespace WorkflowExecution

variable (w : WorkflowExecution)

/-- The report of the main graph's run. -/
def run : RunReport (Option Operation) where
  graph := w.workflow.graph
  results := w.main.state.results
  aborted := w.main.phase = .finished (.returned true)

/-- Whether the cleanup is selected by the main run's outcome and armed. -/
def eligible (cleanup : Cleanup) : Bool :=
  cleanup.selected (!w.run.failures.isEmpty) w.run.aborted && cleanup.armed w.attempted

/-- The end of `execute`, after the cleanups. -/
def conclude (ended : Bool) : WorkflowExecution :=
  let aborted := w.run.aborted || ended
  let failed := !w.run.failures.isEmpty || !aborted && w.reports.any CleanupReport.failed
  { w with phase := .finished (if failed then .failed aborted else .returned aborted) }

/-- The loop of `_cleaned_up`, over the cleanups ahead. -/
def nextCleanup : List (Cleanup × ℕ) → WorkflowExecution
  | [] => w.conclude false
  | (cleanup, index) :: rest =>
    if w.eligible cleanup then
      { w with phase := .cleaning cleanup index rest {}, started := w.started ++ [(cleanup, index)] }
    else nextCleanup rest

/-- Go on to the cleanups when the main graph's run has ended. -/
def afterMain : WorkflowExecution :=
  match w.main.phase with
  | .finished (.returned _) => w.nextCleanup w.workflow.cleanup.zipIdx
  | .finished (.raised cancellation) => { w with phase := .finished (.raised cancellation) }
  | .finished .deadlock => { w with phase := .finished .deadlock }
  | _ => w

/-- The run of a workflow, up to its first wait. -/
def start (workflow : ExecutableWorkflow) : WorkflowExecution :=
  afterMain { workflow, main := .start workflow.graph }

/-- The end of `_bounded` and of a turn of the loop, when the cleanup's task is done. -/
def settle (cleanup : Cleanup) (rest : List (Cleanup × ℕ)) (b : Bounded) : Option WorkflowExecution :=
  match b.task.result cleanup with
  | none => none
  | some (.error _) => some { w with phase := .finished .deadlock }
  | some (.ok run) =>
    let w : WorkflowExecution := { w with reports := w.reports ++ [{ cleanup, run, expired := b.expired }] }
    match b.declined with
    | some cancellation => some { w with phase := .finished (.raised cancellation) }
    | none => some (if b.cancelled then w.conclude true else w.nextCleanup rest)

/-- Whether the caller is asked about a cancellation that reaches the main graph's run. -/
def asksMain : Bool :=
  match w.main.phase with
  | .waiting => true
  | .draining hard declined => !hard && declined.isNone
  | .finished _ => false

/-- Count a cancellation, and note whether the caller recognized it. -/
def noted (asked absorbed : Bool) : WorkflowExecution :=
  { w with
    cancellations := w.cancellations + 1
    reasons := if asked && absorbed then w.reasons ++ [w.cancellations] else w.reasons }

/-- Wait for the task of the cleanup. -/
def bounding (cleanup : Cleanup) (index : ℕ) (rest : List (Cleanup × ℕ)) (b : Bounded) : WorkflowExecution :=
  { w with phase := .cleaning cleanup index rest b }

/-- One step of the run. -/
def step (w : WorkflowExecution) : WorkflowLabel → Option WorkflowExecution
  | .graph label =>
    match w.phase with
    | .main => (graphStep none w.main label).map fun (main, attempts) =>
        afterMain { w with main, attempted := w.attempted ++ attempts }
    | .cleaning cleanup index rest b =>
      match b.task with
      | .running run =>
        -- The cancelled task finds its cancellation when it goes on.
        if b.requested && label.resumes then none
        else (graphStep (some index) run label).map fun (run, attempts) =>
          { w.bounding cleanup index rest { b with task := .running run } with attempted := w.attempted ++ attempts }
      | _ => none
    | .finished _ => none
  | .begins =>
    match w.phase with
    | .cleaning cleanup index rest b =>
      match b.task with
      | .created => some (w.bounding cleanup index rest
          (if b.requested then { b with task := .unstarted, requested := false }
            else { b with task := .running (.start cleanup.graph) }))
      | _ => none
    | _ => none
  | .deliver =>
    match w.phase with
    | .cleaning cleanup index rest b =>
      match b.task with
      | .running run =>
        if b.requested then
          -- The cleanup's runner absorbs every cancellation.
          (run.step (.cancel true)).map fun run =>
            w.bounding cleanup index rest { b with task := .running run, requested := false }
        else none
      | _ => none
    | _ => none
  | .expire =>
    match w.phase with
    | .cleaning cleanup index rest b =>
      if !b.expired && !b.cancelled && (b.task.result cleanup).isNone then
        some (w.bounding cleanup index rest { b with expired := true, requested := true })
      else none
    | _ => none
  | .resume =>
    match w.phase with
    | .cleaning cleanup _ rest b => w.settle cleanup rest b
    | _ => none
  | .cancel absorbed =>
    match w.phase with
    | .main => (w.main.step (.cancel absorbed)).map fun main => { w.noted w.asksMain absorbed with main }
    | .cleaning cleanup index rest b =>
      let b' := { b with
        cancelled := true
        declined := b.declined.or (if absorbed then none else some w.cancellations) }
      let w := w.noted b.declined.isNone absorbed
      if (b.task.result cleanup).isSome then w.settle cleanup rest b'
      else some (w.bounding cleanup index rest { b' with requested := true })
    | .finished _ => none

end WorkflowExecution

end SensorKit.Sensor
