import SensorKit.Common.DagAnswers
import SensorKit.Sensor.Execution

/-!
# What a step of a workflow does

The answers to the cancellations of a run say where it stands: at the main graph, at a cleanup with those
before it decided, or at its end. Which cleanups are eligible is settled when the main graph has drained,
as nothing attempted later belongs to it.
-/

namespace SensorKit.Sensor

open Lib Common
open Execution (After endsAs)

variable {workflow : ExecutableWorkflow} {answers : List Bool} {w w' : WorkflowExecution}
  {cleanup : Cleanup} {index : ℕ} {rest done : List (Cleanup × ℕ)} {b : Bounded}

/-- The answer to the cancellation that the step is. -/
def WorkflowLabel.answer : WorkflowLabel → Option Bool
  | .cancel absorbed => some absorbed
  | _ => none

/-! ## The run of a graph -/

/-- A step of a graph's run is none of a cancellation, and what it attempts is the graph's. -/
theorem graphStep_after {g : Graph (Option Operation)} {seen : List Bool} {owner : Option ℕ} {label : GraphLabel}
    {e f : Execution (Option Operation)} {attempts : List Attempt} (valid : g.Valid) (h : After g seen e)
    (hs : graphStep owner e label = some (f, attempts)) :
    After g seen f ∧ f.cancellations = e.cancellations ∧ ∀ attempt ∈ attempts, attempt.cleanup = owner := by
  have plain {label : RunLabel} {m : Execution (Option Operation)} {e : Execution (Option Operation)}
      (unasked : label.answer = none) (h : After g seen e) (hs : e.step label = some m) :
      After g seen m ∧ m.cancellations = e.cancellations := by
    have next := h.step valid hs
    rw [unasked, Option.toList_none, List.append_nil] at next
    exact ⟨next, next.counted.trans h.counted.symm⟩
  unfold graphStep at hs
  split at hs
  · simp at hs
  · obtain ⟨next, stepped, eq⟩ := Option.map_eq_some_iff.1 hs
    cases eq
    obtain ⟨after, counted⟩ := plain rfl h stepped
    refine ⟨after, counted, ?_⟩
    intro attempt mem
    rw [Option.mem_toList, Option.map_eq_some_iff] at mem
    obtain ⟨operation, -, rfl⟩ := mem
    rfl
  · rename_i label uncancelled _
    obtain ⟨next, stepped, eq⟩ := Option.map_eq_some_iff.1 hs
    cases eq
    have unasked : label.answer = none := by
      cases label with
      | cancel absorbed => exact absurd rfl (uncancelled absorbed)
      | _ => rfl
    obtain ⟨after, counted⟩ := plain unasked h stepped
    exact ⟨after, counted, by simp⟩
  · split_ifs at hs
    obtain ⟨sent, dispatched, rejected⟩ := Option.bind_eq_some_iff.1 hs
    obtain ⟨next, ended, eq⟩ := Option.map_eq_some_iff.1 rejected
    cases eq
    obtain ⟨middle, counted⟩ := plain rfl h dispatched
    obtain ⟨after, counted'⟩ := plain rfl middle ended
    exact ⟨after, counted'.trans counted, by simp⟩

/-- What a runner can do the run of a graph can. -/
theorem graphStep_isSome {owner : Option ℕ} {label : RunLabel} {e : Execution (Option Operation)}
    (uncancelled : ∀ absorbed, label ≠ .cancel absorbed) (enabled : (e.step label).isSome) :
    (graphStep owner e (.step label)).isSome := by
  cases label with
  | cancel absorbed => exact absurd rfl (uncancelled absorbed)
  | _ => simpa [graphStep] using enabled

/-! ## Answers -/

theorem endsAs_returned {seen : List Bool} {aborted : Bool} (returned : endsAs seen = .returned aborted) :
    false ∉ seen ∧ aborted = !seen.isEmpty := by
  have absorbed : false ∉ seen := by
    apply Execution.undeclined_iff.1
    cases declined : seen.findIdx? (!·) with
    | none => rfl
    | some cancellation =>
      rw [Execution.endsAs_declined declined] at returned
      cases returned
  rw [Execution.endsAs_absorbed absorbed] at returned
  exact ⟨absorbed, (Ending.returned.inj returned).symm⟩

/-- The first declined answer, with one more. -/
theorem declined_more (answers : List Bool) (absorbed : Bool) : (answers ++ [absorbed]).findIdx? (!·) =
    (answers.findIdx? (!·)).or (if absorbed then none else some answers.length) := by
  rw [List.findIdx?_append]
  cases absorbed <;> simp

/-! ## Eligible cleanups -/

/-- What a cleanup attempts arms none. -/
theorem eligible_congr (workflows : w'.workflow = w.workflow) (mains : w'.main = w.main)
    (attempts : ∀ operation, ({ operation } : Attempt) ∈ w'.attempted ↔ { operation } ∈ w.attempted) :
    w'.eligible = w.eligible := by
  have runs : w'.run = w.run := by
    unfold WorkflowExecution.run
    rw [workflows, mains]
  funext cleanup
  unfold WorkflowExecution.eligible
  rw [runs]
  congr 1
  unfold Cleanup.armed
  split
  · rfl
  · simp only [attempts]

/-! ## Where a run stands -/

/-- The task of the cleanup has run its graph as far as the cancellations let it, all absorbed. -/
def CleanupTask.Runs (cleanup : Cleanup) : CleanupTask → Prop
  | .running run => ∃ seen, false ∉ seen ∧ After cleanup.graph seen run
  | _ => True

/-- The executor is at a cleanup: it has decided on those before, in order. -/
structure Cleaning (workflow : ExecutableWorkflow) (answers : List Bool) (w : WorkflowExecution) (cleanup : Cleanup)
    (index : ℕ) (rest done : List (Cleanup × ℕ)) (b : Bounded) : Prop where
  returned : ∃ aborted, w.main.phase = .finished (.returned aborted)
  split : workflow.cleanup.zipIdx = done ++ (cleanup, index) :: rest
  eligible : w.eligible cleanup = true
  started : w.started = done.filter (w.eligible ·.1) ++ [(cleanup, index)]
  reported : w.reports.map CleanupReport.cleanup = (done.filter (w.eligible ·.1)).map Prod.fst
  cancelled : b.cancelled = decide (w.main.cancellations < answers.length)
  declined : b.declined = answers.findIdx? (!·)
  runs : b.task.Runs cleanup

/-- The end of a run that no cancellation raised out of. -/
structure Concluded (workflow : ExecutableWorkflow) (answers : List Bool) (w : WorkflowExecution)
    (ending : WorkflowEnding) : Prop where
  returned : ∃ aborted, w.main.phase = .finished (.returned aborted)
  absorbed : false ∉ answers
  reported : w.reports.map CleanupReport.cleanup = w.started.map Prod.fst
  complete : w.main.cancellations = answers.length →
    w.started = workflow.cleanup.zipIdx.filter (w.eligible ·.1)
  leading : w.started <+: workflow.cleanup.zipIdx.filter (w.eligible ·.1)
  outcome : ending = if !w.run.failures.isEmpty || answers.isEmpty && w.reports.any CleanupReport.failed then
    .failed (!answers.isEmpty) else .returned (!answers.isEmpty)

/-- The end of a run that a declined cancellation raised out of. -/
structure RaisedOut (workflow : ExecutableWorkflow) (answers : List Bool) (w : WorkflowExecution)
    (ending : WorkflowEnding) : Prop where
  main : w.started = [] ∨ ∃ aborted, w.main.phase = .finished (.returned aborted)
  interrupted : (∃ aborted, w.main.phase = .finished (.returned aborted)) → w.main.cancellations < answers.length
  reported : w.reports.map CleanupReport.cleanup = w.started.map Prod.fst
  leading : w.started <+: workflow.cleanup.zipIdx.filter (w.eligible ·.1)
  declined : ∃ cancellation, answers.findIdx? (!·) = some cancellation ∧ ending = .raised cancellation

/-- Where the executor is, after the answers. -/
inductive Stage (workflow : ExecutableWorkflow) (answers : List Bool) (w : WorkflowExecution) : Prop where
  | main (phase : w.phase = .main) (unfinished : ∀ ending, w.main.phase ≠ .finished ending)
      (all : w.main.cancellations = answers.length) (started : w.started = []) (reports : w.reports = [])
  | cleaning (cleanup : Cleanup) (index : ℕ) (rest done : List (Cleanup × ℕ)) (b : Bounded)
      (phase : w.phase = .cleaning cleanup index rest b) (cleaning : Cleaning workflow answers w cleanup index rest done b)
  | concluded (ending : WorkflowEnding) (phase : w.phase = .finished ending)
      (concluded : Concluded workflow answers w ending)
  | raised (ending : WorkflowEnding) (phase : w.phase = .finished ending) (raised : RaisedOut workflow answers w ending)

/-- The run of a workflow after the answers. -/
structure Executes (workflow : ExecutableWorkflow) (answers : List Bool) (w : WorkflowExecution) : Prop where
  same : w.workflow = workflow
  counted : w.cancellations = answers.length
  main : After workflow.graph (answers.take w.main.cancellations) w.main
  stage : Stage workflow answers w

end SensorKit.Sensor
