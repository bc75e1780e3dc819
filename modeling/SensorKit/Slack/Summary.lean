import Mathlib.Algebra.Order.Ring.Rat
import Mathlib.Data.List.Perm.Subperm
import SensorKit.Core.ControllerEvents
import SensorKit.Lib.Dict

/-!
# The daily summary of executions

`SummaryAccumulator` counts the executions of a night from the events that the controllers emit. It tells an event's
kind by its flags, and the start of an execution, an update of its context and its abort carry the same ones.
-/

namespace SensorKit.Core.ExecutionEvent

def isStart : ExecutionEvent → Bool
  | started _ => true
  | _ => false

/-- An update of the context, or the event of an abort: what comes between the start and the finish. -/
def accompanies : ExecutionEvent → Bool
  | aborting _ | context _ _ => true
  | _ => false

/-- The finish, without an error or an abort or else with one. -/
def isFinish (clean : Bool) : ExecutionEvent → Bool
  | finished _ info => decide (info = {}) == clean
  | _ => false

def about : ExecutionEvent → ℕ
  | started n | aborting n | context n _ | finished n _ => n

end SensorKit.Core.ExecutionEvent

namespace SensorKit.Slack

open Lib Core

/-! ## The accumulator -/

/-- `finished` of an event: the record, or another value that counts as true. -/
inductive FinishedData where
  | info (info : TaskFinishInfo)
  | other
deriving DecidableEq, Repr

/-- What `_watch_task_execution` reads of a message. -/
structure EventData where
  /-- The message is on the subject of an entity's events. -/
  onEvents : Bool
  eventModel : String
  executing : Bool
  finished : Option FinishedData
deriving DecidableEq, Repr

structure ObservationCounts where
  attempted : ℕ := 0
  completed : ℕ := 0
  failed : ℕ := 0
deriving DecidableEq, Repr

structure SummaryAccumulator where
  stateDurations : Dict String ℚ := .empty
  observationCounts : ObservationCounts := {}
  currentState : Option String := none
  stateEnteredAt : Option ℚ := none

namespace SummaryAccumulator

/-- `_reset`: clear the accumulated data for a new day. -/
def reset : SummaryAccumulator :=
  {}

variable (a : SummaryAccumulator)

/-- `_finalize_current_state`: add the duration of the state that is in progress. -/
def finalizeCurrentState (now : ℚ) : SummaryAccumulator :=
  match a.currentState, a.stateEnteredAt with
  | some state, some entered =>
    -- A state without a name and a time of zero count as none.
    if state = "" ∨ entered = 0 then a else
      { a with
        stateDurations := a.stateDurations.insert state ((a.stateDurations.get? state).getD 0 + (now - entered))
        stateEnteredAt := some now }
  | _, _ => a

/-- `_transition_state`: record a state transition. -/
def transitionState (newState : String) (now : ℚ) : SummaryAccumulator :=
  { a.finalizeCurrentState now with currentState := some newState, stateEnteredAt := some now }

/-- The counts after an event that says it has finished. -/
def countFinished : FinishedData → ObservationCounts
  | .info info =>
    let errored := info.error.any (· ≠ "")
    if ¬ errored ∧ ¬ info.aborted then { a.observationCounts with completed := a.observationCounts.completed + 1 }
    else { a.observationCounts with failed := a.observationCounts.failed + 1 }
  | .other => { a.observationCounts with completed := a.observationCounts.completed + 1 }

/-- `_watch_task_execution`, for one message. -/
def watchTaskExecution (now : ℚ) (data : EventData) : SummaryAccumulator :=
  if ¬ data.onEvents ∨ data.eventModel ≠ "TaskExecutionState" then a
  else if data.executing then
    { a with observationCounts := { a.observationCounts with attempted := a.observationCounts.attempted + 1 } }.transitionState
      "executing" now
  else match data.finished with
    | some finished => { a with observationCounts := a.countFinished finished }.transitionState "idle" now
    | none => a

@[simp] theorem finalizeCurrentState_counts {now : ℚ} :
    (a.finalizeCurrentState now).observationCounts = a.observationCounts := by
  unfold finalizeCurrentState
  split
  · split_ifs <;> rfl
  · rfl

@[simp] theorem transitionState_counts {newState : String} {now : ℚ} :
    (a.transitionState newState now).observationCounts = a.observationCounts :=
  a.finalizeCurrentState_counts

end SummaryAccumulator

/-! ## The events of the controllers -/

/-- An event of an execution, with the controller that emits it. -/
structure Emission where
  controller : String
  event : ExecutionEvent
deriving DecidableEq, Repr

/-- The message of an event. -/
def Emission.data (e : Emission) : EventData where
  onEvents := true
  eventModel := "TaskExecutionState"
  executing := e.event.state.executing
  finished := e.event.state.finished.map .info

/-- The execution an event is about. -/
def Emission.key (e : Emission) : String × ℕ :=
  (e.controller, e.event.about)

/-- What controllers emit: for each execution its start, then updates and aborts, then at most one finish, whose error has
a text. -/
structure Emitted (stream : List Emission) : Prop where
  follows : ∀ k, stream.filter (·.key = k) = [] ∨ ∃ first between ending,
    stream.filter (·.key = k) = first :: (between ++ ending) ∧ first.event.isStart ∧
      (∀ e ∈ between, e.event.accompanies) ∧ ending.length ≤ 1 ∧ ∀ e ∈ ending, ∃ clean, e.event.isFinish clean
  texts : ∀ e ∈ stream, ∀ n info, e.event = .finished n info → info.error ≠ some ""

/-- The messages of a period, each with the time at which it is handled. -/
def SummaryAccumulator.watchAll (a : SummaryAccumulator) (period : List (ℚ × Emission)) : SummaryAccumulator :=
  period.foldl (fun a m => a.watchTaskExecution m.1 m.2.data) a

/-- The executions started in a period. -/
def startedIn (period : List Emission) : List (String × ℕ) :=
  (period.filter (·.event.isStart)).map Emission.key

/-- The executions finished in a period. -/
def finishedIn (period : List Emission) : List (String × ℕ) :=
  (period.filter fun e => e.event.isFinish true || e.event.isFinish false).map Emission.key

/-- The counts are the period's executions. -/
structure Exact (counts : ObservationCounts) (period : List Emission) : Prop where
  attempted : counts.attempted = (startedIn period).length
  completed : counts.completed = period.countP (·.event.isFinish true)
  failed : counts.failed = period.countP (·.event.isFinish false)
  covered : ((finishedIn period).filter (· ∈ startedIn period)).length ≤ counts.attempted

/-- **One message** counts as an attempt unless it is a finish. -/
theorem counts_watch {a : SummaryAccumulator} {now : ℚ} {e : Emission}
    (texts : ∀ n info, e.event = .finished n info → info.error ≠ some "") :
    (a.watchTaskExecution now e.data).observationCounts =
      { attempted := a.observationCounts.attempted + [e].countP fun e => e.event.isStart || e.event.accompanies
        completed := a.observationCounts.completed + [e].countP (·.event.isFinish true)
        failed := a.observationCounts.failed + [e].countP (·.event.isFinish false) } := by
  obtain ⟨controller, event⟩ := e
  cases event with
  | started n | aborting n | context n aborts =>
    simp [SummaryAccumulator.watchTaskExecution, Emission.data, ExecutionEvent.state, ExecutionEvent.isStart,
      ExecutionEvent.accompanies, ExecutionEvent.isFinish]
  | finished n info =>
    obtain ⟨aborted, error⟩ := info
    have text : error ≠ some "" := texts n _ rfl
    cases error with
    | none =>
      cases aborted <;> simp [SummaryAccumulator.watchTaskExecution, Emission.data, ExecutionEvent.state,
        SummaryAccumulator.countFinished, ExecutionEvent.isStart, ExecutionEvent.accompanies, ExecutionEvent.isFinish]
    | some message =>
      have text : message ≠ "" := fun none => text (congrArg some none)
      simp [SummaryAccumulator.watchTaskExecution, Emission.data, ExecutionEvent.state, SummaryAccumulator.countFinished,
        ExecutionEvent.isStart, ExecutionEvent.accompanies, ExecutionEvent.isFinish, text]

/-- **A period** counts as many attempts as it has messages that are no finish. -/
theorem counts_watchAll {period : List (ℚ × Emission)}
    (texts : ∀ m ∈ period, ∀ n info, m.2.event = .finished n info → info.error ≠ some "") :
    ∀ {a : SummaryAccumulator}, (a.watchAll period).observationCounts =
      { attempted := a.observationCounts.attempted +
          (period.map Prod.snd).countP fun e => e.event.isStart || e.event.accompanies
        completed := a.observationCounts.completed + (period.map Prod.snd).countP (·.event.isFinish true)
        failed := a.observationCounts.failed + (period.map Prod.snd).countP (·.event.isFinish false) } := by
  induction period with
  | nil => intro a; rfl
  | cons m period ih =>
    intro a
    have rest := ih (fun m mem => texts m (List.mem_cons_of_mem _ mem)) (a := a.watchTaskExecution m.1 m.2.data)
    rw [counts_watch (texts m List.mem_cons_self)] at rest
    simp only [SummaryAccumulator.watchAll, List.foldl_cons, List.map_cons] at rest ⊢
    rw [rest]
    simp only [List.countP_cons, List.countP_nil, Nat.zero_add, Nat.add_assoc, Nat.add_comm]

/-- An execution finishes once. -/
theorem Emitted.nodup_finishedIn {stream : List Emission} (h : Emitted stream) : (finishedIn stream).Nodup := by
  refine List.nodup_iff_count_le_one.2 fun k => ?_
  rw [finishedIn, List.count, List.countP_map, List.countP_filter]
  have one : (stream.filter (·.key = k)).countP (fun e => e.event.isFinish true || e.event.isFinish false) ≤ 1 := by
    rcases h.follows k with none | ⟨first, between, ending, eq, start, inside, short, -⟩
    · simp [none]
    · have not_first : (first.event.isFinish true || first.event.isFinish false) = false := by
        cases event : first.event <;> simp_all [ExecutionEvent.isStart, ExecutionEvent.isFinish]
      have not_between : between.countP (fun e => e.event.isFinish true || e.event.isFinish false) = 0 := by
        refine List.countP_eq_zero.2 fun e mem => ?_
        have inside := inside e mem
        cases event : e.event <;> simp_all [ExecutionEvent.accompanies, ExecutionEvent.isFinish]
      rw [eq, List.countP_cons_of_neg (by simp [not_first]), List.countP_append, not_between]
      have := List.countP_le_length (p := fun e : Emission => e.event.isFinish true || e.event.isFinish false) (l := ending)
      omega
  rw [List.countP_filter] at one
  refine le_trans (Nat.le_of_eq (List.countP_congr fun e _ => ?_)) one
  simp [Bool.and_comm]

theorem Emitted.of_append {before period : List Emission} (h : Emitted (before ++ period)) : (finishedIn period).Nodup := by
  have nodup := h.nodup_finishedIn
  rw [finishedIn, List.filter_append, List.map_append] at nodup
  exact (List.nodup_append.1 nodup).2.1

/-- **The counts of a night** are its executions just if no context was updated and nothing was aborted in it. -/
theorem counts_exact_iff {before : List Emission} {period : List (ℚ × Emission)}
    (emitted : Emitted (before ++ period.map Prod.snd)) :
    Exact (SummaryAccumulator.reset.watchAll period).observationCounts (period.map Prod.snd) ↔
      ∀ m ∈ period, m.2.event.accompanies = false := by
  have texts (m : ℚ × Emission) (mem : m ∈ period) : ∀ n info, m.2.event = .finished n info → info.error ≠ some "" :=
    emitted.texts m.2 (List.mem_append_right _ (List.mem_map_of_mem mem))
  have split : (period.map Prod.snd).countP (fun e => e.event.isStart || e.event.accompanies) =
      (startedIn (period.map Prod.snd)).length + (period.map Prod.snd).countP (·.event.accompanies) := by
    rw [startedIn, List.length_map, ← List.countP_eq_length_filter]
    induction period.map Prod.snd with
    | nil => rfl
    | cons e rest ih =>
      have apart : e.event.isStart = true → e.event.accompanies = false := by
        cases e.event <;> simp [ExecutionEvent.isStart, ExecutionEvent.accompanies]
      rw [List.countP_cons, List.countP_cons, List.countP_cons, ih]
      cases start : e.event.isStart with
      | true =>
        rw [apart start]
        simp
        omega
      | false =>
        simp
        omega
  have none : (period.map Prod.snd).countP (·.event.accompanies) = 0 ↔ ∀ m ∈ period, m.2.event.accompanies = false := by
    rw [List.countP_eq_zero, List.forall_mem_map]
    simp
  rw [counts_watchAll texts, ← none, split]
  simp only [SummaryAccumulator.reset, Nat.zero_add]
  constructor
  · intro exact
    have := exact.attempted
    dsimp only at this
    omega
  · intro zero
    refine ⟨by dsimp only; omega, rfl, rfl, ?_⟩
    have distinct := emitted.of_append.filter (· ∈ startedIn (period.map Prod.snd))
    have within := List.subperm_of_subset distinct fun k mem => of_decide_eq_true (List.mem_filter.1 mem).2
    have := within.length_le
    dsimp only
    omega

/-- An execution of a camera whose context is updated. -/
def updated : List Emission :=
  [⟨"camera", .started 0⟩, ⟨"camera", .context 0 false⟩, ⟨"camera", .finished 0 {}⟩]

theorem emitted_updated : Emitted updated := by
  refine ⟨fun k => ?_, fun e mem n info finished => ?_⟩
  · by_cases same : (("camera", 0) : String × ℕ) = k
    · subst same
      exact .inr ⟨⟨"camera", .started 0⟩, [⟨"camera", .context 0 false⟩], [⟨"camera", .finished 0 {}⟩], by decide,
        by decide, by decide, by decide, fun e mem => ⟨true, by simp_all [ExecutionEvent.isFinish]⟩⟩
    · exact .inl (by simp [updated, Emission.key, ExecutionEvent.about, same])
  · simp only [updated, List.mem_cons, List.not_mem_nil, or_false] at mem
    rcases mem with rfl | rfl | rfl <;> simp_all
    obtain ⟨-, rfl⟩ := finished
    simp

theorem counts_not_exact : ¬ ∀ (before : List Emission) (period : List (ℚ × Emission)),
    Emitted (before ++ period.map Prod.snd) →
      Exact (SummaryAccumulator.reset.watchAll period).observationCounts (period.map Prod.snd) := fun all => by
  have attempted := (all [] (updated.map fun e => (0, e)) emitted_updated).attempted
  revert attempted
  decide +kernel

theorem counts_exact_iff_updated : ¬ Exact (SummaryAccumulator.reset.watchAll (updated.map fun e => (0, e))).observationCounts
    ((updated.map fun e => ((0 : ℚ), e)).map Prod.snd) :=
  fun exact => absurd ((@counts_exact_iff [] (updated.map fun e => (0, e)) emitted_updated).1 exact) (by decide +kernel)

/-! ## The controllers behind the counts -/

/-- What a bracketed log says of one execution. -/
theorem marks_about (log : List (Mark ℕ)) (n : ℕ) (shown : Mark.Absent log n ∨ Mark.Opened log n ∨ Mark.Closed log n) :
    log.filter (·.about = n) = [] ∨ ∃ within closing, log.filter (·.about = n) = .opens n :: (within ++ closing) ∧
      (∀ m ∈ within, m = .inside n) ∧ closing.length ≤ 1 ∧ ∀ m ∈ closing, m = .closes n := by
  have none {log : List (Mark ℕ)} (absent : Mark.Absent log n) : log.filter (·.about = n) = [] :=
    List.filter_eq_nil_iff.2 fun m mem => by simpa using absent m mem
  have all {log : List (Mark ℕ)} (inside : ∀ m ∈ log, m = .inside n) : log.filter (·.about = n) = log :=
    List.filter_eq_self.2 fun m mem => by simp [inside m mem, Mark.about]
  have about : (Mark.opens n).about = n ∧ (Mark.closes n).about = n := ⟨rfl, rfl⟩
  rcases shown with absent | ⟨before, within, rfl, absent, inside⟩ | ⟨before, within, after, rfl, absent, inside, absent'⟩
  · exact .inl (none absent)
  · exact .inr ⟨within, [], by simp [none absent, all inside, about], inside, by simp⟩
  · exact .inr ⟨within, [.closes n], by simp [none absent, all inside, none absent', about], inside, by simp⟩

section Controllers

variable {K : Type} [DecidableEq K] {stream : List Emission}
  (runs : ∀ name, ∃ taskHandlers recovered legacy, ∃ s : Controller K, Reaches Controller.step Controller.StartsUndisturbed
    (Controller.started taskHandlers recovered legacy) s ∧
      (stream.filter (·.controller = name)).map Emission.event = s.events)
  (texts : ∀ e ∈ stream, ∀ n info, e.event = .finished n info → info.error ≠ some "")
include runs texts

/-- Controllers emit what the accumulator relies on. -/
theorem emitted_of_runs : Emitted stream := by
  refine ⟨fun ⟨name, n⟩ => ?_, texts⟩
  obtain ⟨taskHandlers, recovered, legacy, s, run, emits⟩ := runs name
  have bracketed := Controller.bracketed_of_run run
  have shown := marks_about s.log n <| by
    cases known : s.runs n with
    | none => exact .inl (bracketed.unknown n known)
    | some r =>
      have shown := bracketed.shown n r known
      unfold TaskRun.Shown at shown
      split_ifs at shown
      exacts [.inr (.inl shown), .inr (.inr shown), .inl shown]
  have own : s.log.filter (·.about = n) = (stream.filter (·.key = (name, n))).map (·.event.mark) := by
    rw [Controller.log, ← emits, List.map_map, List.filter_map, List.filter_filter]
    congr 1
    refine List.filter_congr fun e _ => ?_
    cases event : e.event <;> simp [Emission.key, event, ExecutionEvent.mark, ExecutionEvent.about, Mark.about, Bool.and_comm]
  rw [own] at shown
  rcases shown with none | ⟨within, closing, eq, inside, short, closes⟩
  · exact .inl (List.map_eq_nil_iff.1 none)
  · obtain ⟨first, rest, filter, opens, eq⟩ := List.map_eq_cons_iff.1 eq
    obtain ⟨between, ending, rfl, rfl, rfl⟩ := List.map_eq_append_iff.1 eq
    refine .inr ⟨first, between, ending, filter, ?_, fun e mem => ?_, by simpa using short, fun e mem => ?_⟩
    · cases event : first.event <;> simp [event, ExecutionEvent.mark, ExecutionEvent.isStart] at opens ⊢
    · have mark := inside _ (List.mem_map_of_mem mem)
      cases event : e.event <;> simp [event, ExecutionEvent.mark, ExecutionEvent.accompanies] at mark ⊢
    · have mark := closes _ (List.mem_map_of_mem mem)
      cases event : e.event <;> simp [event, ExecutionEvent.mark, ExecutionEvent.isFinish] at mark ⊢

/-- **The night of controllers**, whose starts are undisturbed: of the executions that finish in a period, each is counted
once. What counts as an attempt is all that is no finish. -/
theorem night_counts {before : List Emission} {period : List (ℚ × Emission)} (split : stream = before ++ period.map Prod.snd) :
    (finishedIn (period.map Prod.snd)).Nodup ∧ (SummaryAccumulator.reset.watchAll period).observationCounts =
      { attempted := (period.map Prod.snd).countP fun e => e.event.isStart || e.event.accompanies
        completed := (period.map Prod.snd).countP (·.event.isFinish true)
        failed := (period.map Prod.snd).countP (·.event.isFinish false) } := by
  have emitted := emitted_of_runs runs texts
  subst split
  refine ⟨emitted.of_append, ?_⟩
  rw [counts_watchAll fun m mem => texts m.2 (List.mem_append_right _ (List.mem_map_of_mem mem))]
  simp [SummaryAccumulator.reset]

end Controllers

/-- A collect that another one has interrupted. -/
def interrupted : List Emission :=
  [⟨"camera", .started 0⟩, ⟨"camera", .finished 0 { aborted := true }⟩]

theorem night_counts_interrupted : (SummaryAccumulator.reset.watchAll (interrupted.map fun e => (0, e))).observationCounts =
    { attempted := 1, completed := 0, failed := 1 } :=
  (@night_counts Unit _ interrupted (fun name => by
    by_cases camera : "camera" = name
    · subst camera
      refine ⟨["collect"], _, _, (exec Controller.step (Controller.exampleController ["collect"])
        Controller.interruptingCollect).get (by decide +kernel), reaches_of_exec (Option.some_get _).symm (by decide +kernel), ?_⟩
      decide +kernel
    · exact ⟨[], { operatingState := { current := .unknown, context := () }, executionState := { execution := none } }, false,
        _, .refl _, by simp [interrupted, camera]; rfl⟩) (by simp [interrupted]) [] _ rfl).2

end SensorKit.Slack
