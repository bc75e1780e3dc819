import SensorKit.Core.ControllerPublished
import SensorKit.Lib.Bracket

/-!
# The execution events are bracketed

Starts, aborts, context updates and finishes go out under the update lock, so the log of
execution events opens and closes one run after another, as long as no cancellation reaches a
run while its start waits for the lock. Such a run has set its start time, and its finish goes
out without a start.
-/

namespace SensorKit.Core

open Lib

variable {K : Type} {events : List (Event K)}

/-- The run that the event is about. -/
def ExecutionEvent.run : ExecutionEvent → ℕ
  | .started n | .aborting n | .context n _ | .finished n _ => n

/-- What the event says of its run. -/
def ExecutionEvent.mark : ExecutionEvent → Mark ℕ
  | .started n => .opens n
  | .aborting n | .context n _ => .inside n
  | .finished n _ => .closes n

/-- The execution events among the events of a publication. -/
def executions (events : List (Event K)) : List ExecutionEvent :=
  events.filterMap fun
    | .execution event => some event
    | .enable _ | .operating _ => none

namespace TaskRun

variable (r : TaskRun K)

/-- The start of the run is out, and its finish is not. -/
def opened : Bool :=
  match r.stage with
  | .handling | .confirming => true
  | .ending _ | .finishing _ => r.started
  | _ => false

/-- The run has begun, and its finish is over. -/
def closed : Bool :=
  match r.stage with
  | .settled _ _ | .done _ => r.started
  | _ => false

/-- The log shows as much of the run `n` as has happened. -/
def Shown (log : List (Mark ℕ)) (n : ℕ) : Prop :=
  if r.opened then Mark.Opened log n else if r.closed then Mark.Closed log n else Mark.Absent log n

variable {r} {r' : TaskRun K} {log : List (Mark ℕ)} {n : ℕ} {m : Mark ℕ}

theorem Shown.congr (h : r.Shown log n) (opened : r'.opened = r.opened) (closed : r'.closed = r.closed) :
    r'.Shown log n := by
  simpa only [Shown, opened, closed] using h

theorem Shown.snoc (h : r.Shown log n) (other : m.about ≠ n) (shut : r.opened = false) : r.Shown (log ++ [m]) n := by
  cases closed : r.closed with
  | true =>
    simp only [Shown, shut, closed, Bool.false_eq_true, if_false, if_true] at h ⊢
    exact h.snoc other
  | false =>
    simp only [Shown, shut, closed, Bool.false_eq_true, if_false] at h ⊢
    exact h.snoc other

theorem Shown.isOpened (h : r.Shown log n) (opened : r.opened = true) : Mark.Opened log n := by
  simpa [Shown, opened] using h

end TaskRun

namespace Controller

/-- The marks of the execution events. -/
def log (s : Controller K) : List (Mark ℕ) :=
  s.events.map ExecutionEvent.mark

/-- The run `n` is open. -/
def OpenRun (s : Controller K) (n : ℕ) : Prop :=
  ∃ r, s.runs n = some r ∧ r.opened = true

/-- What a publication that goes on with the given step says of executions. -/
def Announces (s : Controller K) (events : List ExecutionEvent) : Next K → Prop
  | .attach _ _ => events = []
  | .start n _ => events = [.started n]
  | .finish n _ => ∃ r, s.runs n = some r ∧ ∃ info, events = if r.started then [.finished n info] else []
  | .abort n => events = [.aborting n] ∧ s.OpenRun n
  | .release => events = [] ∨ ∃ n aborts, events = [.context n aborts] ∧ s.OpenRun n

/-- The log shows every run, and the published execution is open while it is executing. -/
structure Logged (s : Controller K) : Prop where
  shown : ∀ n r, s.runs n = some r → r.Shown s.log n
  unknown : ∀ n, s.runs n = none → Mark.Absent s.log n
  executing : s.state.executionState.executing = true →
    ∀ n, s.state.executionState.execution = some (.minted n) → s.OpenRun n

/-- A publication in progress appends what its continuation stands for. -/
structure Bracketed (s : Controller K) : Prop extends Logged s where
  pending : ∀ events next, s.publication = some ⟨events, next⟩ → s.Announces (executions events) next

variable {s t : Controller K} {n : ℕ} {r r' : TaskRun K}

/-! ## Emitting events -/

theorem emitAll_events (s : Controller K) (events : List (Event K)) :
    (s.emitAll events).events = s.events ++ executions events := by
  induction events generalizing s with
  | nil => simp [emitAll, executions]
  | cons event events ih =>
    refine (ih (s.emit event)).trans ?_
    cases event <;> simp [executions, emit]

/-- The published execution is that of the last event. -/
theorem emitAll_executionState (s : Controller K) (events : List (Event K)) :
    (s.emitAll events).state.executionState =
      ((executions events).getLast?.map ExecutionEvent.state).getD s.state.executionState := by
  induction events generalizing s with
  | nil => rfl
  | cons event events ih =>
    refine (ih (s.emit event)).trans ?_
    cases event with
    | enable | operating => simp [executions, emit]
    | execution event =>
      cases last : (executions events).getLast? <;> simp_all [executions, emit, List.getLast?_cons]

theorem executions_operatingEvents [DecidableEq K] (s : Controller K) (newest : Option (TaskRun K)) :
    executions (s.operatingEvents newest) = [] := by
  simp only [operatingEvents]
  split <;> rfl

theorem executions_append (events events' : List (Event K)) :
    executions (events ++ events') = executions events ++ executions events' :=
  List.filterMap_append ..

theorem log_emitAll {log : List ExecutionEvent} (h : executions events = log) :
    (s.emitAll events).log = s.log ++ log.map ExecutionEvent.mark := by
  simp [Controller.log, emitAll_events, h]

namespace Logged

theorem unique {m : ℕ} (h : s.Logged) (hn : s.OpenRun n) (hm : s.OpenRun m) : n = m := by
  obtain ⟨r, run, opened⟩ := hn
  obtain ⟨r', run', opened'⟩ := hm
  exact ((h.shown n r run).isOpened opened).unique ((h.shown m r' run').isOpened opened')

theorem congr (h : s.Logged) (runs : t.runs = s.runs) (events : t.events = s.events)
    (state : t.state.executionState = s.state.executionState) : t.Logged where
  shown := by simpa only [runs, Controller.log, events] using h.shown
  unknown := by simpa only [runs, Controller.log, events] using h.unknown
  executing := by simpa only [state, OpenRun, runs] using h.executing

theorem release (h : s.Logged) : s.release.Bracketed :=
  { h.congr rfl rfl rfl with pending := by simp }

theorem publish (h : s.Logged) {next : Next K} (announces : s.Announces (executions events) next) :
    (s.publish events next).Bracketed :=
  { h.congr rfl rfl rfl with
    pending := by
      rintro _ _ ⟨⟩
      cases next <;> exact announces }

theorem openRun_setRun (hr : s.runs n = some r) (opened : r'.opened = r.opened) {m : ℕ} (h : s.OpenRun m) :
    (s.setRun n r').OpenRun m := by
  obtain ⟨rm, run, open_⟩ := h
  by_cases same : m = n
  · subst same
    obtain rfl : rm = r := by simpa [hr] using run.symm
    exact ⟨r', by simp, opened.trans open_⟩
  · exact ⟨rm, by simpa [Function.update_of_ne same] using run, open_⟩

/-- A change of a run that neither opens nor closes it. -/
theorem setRun (h : s.Logged) (hr : s.runs n = some r) (opened : r'.opened = r.opened) (closed : r'.closed = r.closed) :
    (s.setRun n r').Logged where
  shown m rm run := by
    rcases runs_setRun run with ⟨rfl, rfl⟩ | ⟨-, run⟩
    · exact (h.shown m r hr).congr opened closed
    · exact h.shown m rm run
  unknown m none := by
    by_cases same : m = n
    · subst same
      simp at none
    · exact h.unknown m (by simpa [Function.update_of_ne same] using none)
  executing executing m execution := openRun_setRun hr opened (h.executing executing m execution)

/-- Events of no execution. -/
theorem emit_none (h : s.Logged) (none : executions events = []) : (s.emitAll events).Logged :=
  h.congr (by simp) (by simp [emitAll_events, none]) (by simp [emitAll_executionState, none])

/-- An event that accompanies the open run. -/
theorem emit_inside {event : ExecutionEvent} (h : s.Logged) (open_ : s.OpenRun n)
    (one : executions events = [event]) (mark : event.mark = .inside n) (state : event.state.execution = some (.minted n)) :
    (s.emitAll events).Logged where
  shown m rm run := by
    rw [emitAll_runs] at run
    rw [log_emitAll one, List.map_singleton, mark]
    cases opened : rm.opened with
    | true =>
      obtain rfl : n = m := h.unique open_ ⟨rm, run, opened⟩
      have shown := h.shown n rm run
      simp only [TaskRun.Shown, opened, if_true] at shown ⊢
      exact shown.inside
    | false =>
      refine (h.shown m rm run).snoc ?_ opened
      rintro rfl
      obtain ⟨rn, run', opened'⟩ := open_
      obtain rfl : rn = rm := by simpa [Mark.about, run'] using run
      simp [opened] at opened'
  unknown m none := by
    rw [emitAll_runs] at none
    rw [log_emitAll one, List.map_singleton, mark]
    refine (h.unknown m none).snoc ?_
    rintro rfl
    obtain ⟨rn, run', -⟩ := open_
    simp [Mark.about, run'] at none
  executing _ m execution := by
    simp only [emitAll_executionState, one, List.getLast?_singleton, Option.map_some, Option.getD_some, state,
      Option.some.injEq, TaskId.minted.injEq] at execution
    subst execution
    simpa only [OpenRun, emitAll_runs] using open_

/-- The start of a run, while no other is open. -/
theorem emit_start (h : s.Logged) (hr : s.runs n = some r)
    (one : executions events = [.started n]) (alone : ∀ m, ¬ s.OpenRun m) (fresh : r.closed = false)
    (opened : r'.opened = true) : ((s.emitAll events).setRun n r').Logged where
  shown m rm run := by
    show rm.Shown (s.emitAll events).log m
    rw [log_emitAll one, List.map_singleton]
    rcases runs_setRun run with ⟨rfl, rfl⟩ | ⟨other, run⟩
    · have absent := h.shown m r hr
      have shut : r.opened = false := by
        by_contra opened
        exact alone m ⟨r, hr, by simpa using opened⟩
      simp only [TaskRun.Shown, shut, fresh, Bool.false_eq_true, if_false] at absent
      simp only [TaskRun.Shown, opened, if_true]
      exact absent.opens
    · rw [emitAll_runs] at run
      refine (h.shown m rm run).snoc (fun same => other same.symm) ?_
      by_contra opened
      exact alone m ⟨rm, run, by simpa using opened⟩
  unknown m none := by
    show Mark.Absent (s.emitAll events).log m
    rw [log_emitAll one, List.map_singleton]
    by_cases same : m = n
    · subst same
      simp at none
    · exact (h.unknown m (by simpa [Function.update_of_ne same] using none)).snoc fun eq => same eq.symm
  executing _ m execution := by
    simp only [setRun_state, emitAll_executionState, one, List.getLast?_singleton, Option.map_some, Option.getD_some,
      ExecutionEvent.state, Option.some.injEq, TaskId.minted.injEq] at execution
    subst execution
    exact ⟨r', by simp, opened⟩

/-- The finish of the open run. -/
theorem emit_finish {info : TaskFinishInfo} (h : s.Logged) (hr : s.runs n = some r)
    (one : executions events = [.finished n info]) (opened : r.opened = true) (shut : r'.opened = false)
    (closed : r'.closed = true) : ((s.emitAll events).setRun n r').Logged where
  shown m rm run := by
    show rm.Shown (s.emitAll events).log m
    rw [log_emitAll one, List.map_singleton]
    rcases runs_setRun run with ⟨rfl, rfl⟩ | ⟨other, run⟩
    · simp only [TaskRun.Shown, shut, closed, Bool.false_eq_true, if_false, if_true]
      exact ((h.shown m r hr).isOpened opened).closes
    · rw [emitAll_runs] at run
      refine (h.shown m rm run).snoc (fun same => other same.symm) ?_
      by_contra opened'
      exact other (h.unique ⟨rm, run, by simpa using opened'⟩ ⟨r, hr, opened⟩)
  unknown m none := by
    show Mark.Absent (s.emitAll events).log m
    rw [log_emitAll one, List.map_singleton]
    by_cases same : m = n
    · subst same
      simp at none
    · exact (h.unknown m (by simpa [Function.update_of_ne same] using none)).snoc fun eq => same eq.symm
  executing executing := by
    simp [emitAll_executionState, one, ExecutionEvent.state] at executing

end Logged

/-! ## Cancellations -/

/-- The run that the step cancels, if it cancels one. -/
def cancels (s : Controller K) : ControllerLabel K → Option ℕ
  | .begin n => (s.runs n).bind (·.predecessor)
  | .enter =>
    match s.lock.holder with
    | some (.abort requested) =>
      let current := s.state.executionState
      (s.running.map (·.1)).filter fun n =>
        requested.all (· = .minted n) && !(current.executing && current.execution = some (.minted n))
    | _ => none
  | .published .succeeded =>
    match s.publication with
    | some ⟨_, .abort n⟩ => some n
    | _ => none
  | .abandon n => some n
  | _ => none

/-- An abort is rejected, or published for the open run, or cancels a run that has yet to begin or is
over. -/
theorem abort_cases [DecidableEq K] {requested : Option TaskId} (holder : s.lock.holder = some (.abort requested)) :
    s.abort requested = s.release ∨
    (∃ n, s.state.executionState.executing = true ∧ s.state.executionState.execution = some (.minted n) ∧
      s.abort requested = s.publish [.execution (.aborting n)] (.abort n)) ∨
    ∃ n ∈ s.cancels .enter, s.abort requested = (s.cancel n).release := by
  simp only [abort]
  split
  · exact .inl rfl
  · rename_i n r running
    split
    · exact .inl rfl
    · rename_i matches_
      split
      · rename_i executing
        exact .inr (.inl ⟨n, executing.1, executing.2, rfl⟩)
      · rename_i pending
        have matched : requested.all (· = .minted n) = true := by
          cases requested with
          | none => rfl
          | some id => simpa using matches_
        have unpublished : (s.state.executionState.executing &&
            s.state.executionState.execution = some (.minted n)) = false := by simpa using pending
        refine .inr (.inr ⟨n, ?_, rfl⟩)
        simp [cancels, holder, running, Option.filter, matched, unpublished]

/-- The publications that end succeed, and no cancellation reaches a run whose start waits for
the lock. -/
def StartsUndisturbed (s : Controller K) (label : ControllerLabel K) : Prop :=
  s.publishes label ∧ ∀ n ∈ s.cancels label, ∀ r ∈ s.runs n, r.stage ≠ .startWaiting

instance (s : Controller K) (label : ControllerLabel K) : Decidable (s.StartsUndisturbed label) :=
  inferInstanceAs (Decidable (s.publishes label ∧ ∀ n ∈ s.cancels label, ∀ r ∈ s.runs n, r.stage ≠ .startWaiting))

/-- A run cancelled anywhere but before its start stays as open as it was. -/
theorem brackets_of_cancel (record : r.Consistent) (stage : r.stage ≠ .startWaiting) (moves : CancelMoves r r') :
    r'.opened = r.opened ∧ r'.closed = r.closed ∧ r'.started = r.started := by
  cases moves with
  | flags => exact ⟨rfl, rfl, rfl⟩
  | ends confirming =>
    have confirming := confirming.resolve_left stage
    simp only [TaskRun.Consistent, confirming] at record
    simp [TaskRun.opened, TaskRun.closed, TaskRun.endBody, confirming, record]
  | defers => exact ⟨rfl, rfl, rfl⟩

/-- A runner's own move neither opens nor closes its run. -/
theorem brackets_of_moves (record : r.Consistent) (moves : s.RunnerMoves r r') :
    r'.opened = r.opened ∧ r'.closed = r.closed ∧ (r.isFinishing = true → r'.started = r.started) := by
  cases moves with
  | cancelledBefore ready =>
    rcases (Ordered.ready_stage ready).1 with stage | stage <;>
      simp only [TaskRun.Consistent, stage] at record <;>
      simp [TaskRun.opened, TaskRun.closed, TaskRun.endBody, stage, record]
  | executes ready =>
    rcases (Ordered.ready_stage ready).1 with stage | stage <;>
      simp [TaskRun.opened, TaskRun.closed, TaskRun.isFinishing, stage]
  | joinFails stage | joinCancelled stage | handlerCancelled stage =>
    simp only [TaskRun.Consistent, stage] at record
    simp [TaskRun.opened, TaskRun.closed, TaskRun.fail, TaskRun.endBody, stage, record]
  | fails stage | succeeds stage =>
    rcases stage with stage | stage <;>
      simp only [TaskRun.Consistent, stage] at record <;>
      simp [TaskRun.opened, TaskRun.closed, TaskRun.fail, TaskRun.succeed, TaskRun.endBody, stage, record]
  | confirms stage | finishes stage | ends stage => simp [TaskRun.opened, TaskRun.closed, stage]

namespace Bracketed

/-- A change of a run that neither opens nor closes it, and a new queue for the lock. -/
theorem setRun {l : Lock (Job K)} (h : s.Bracketed) (hr : s.runs n = some r) (opened : r'.opened = r.opened)
    (closed : r'.closed = r.closed)
    (started : ∀ events mismatch, s.publication = some ⟨events, .finish n mismatch⟩ → r'.started = r.started) :
    ({ s with lock := l }.setRun n r').Bracketed :=
  { (h.toLogged.setRun hr opened closed).congr rfl rfl rfl with
    pending := by
      intro events next pub
      have announces := h.pending events next pub
      cases next with
      | attach | start => exact announces
      | finish m mismatch =>
        obtain ⟨rm, run, info, eq⟩ := announces
        by_cases same : m = n
        · subst same
          obtain rfl : rm = r := by simpa [hr] using run.symm
          exact ⟨r', by simp, info, by rw [started events mismatch pub]; exact eq⟩
        · exact ⟨rm, by simpa [Function.update_of_ne same] using run, info, eq⟩
      | abort m => exact announces.imp_right (Logged.openRun_setRun hr opened)
      | release =>
        refine announces.imp_right fun ⟨m, aborts, eq, open_⟩ => ⟨m, aborts, eq, ?_⟩
        exact Logged.openRun_setRun hr opened open_ }

theorem congr (h : s.Bracketed) (runs : t.runs = s.runs) (events : t.events = s.events)
    (state : t.state.executionState = s.state.executionState) (publication : t.publication = s.publication) :
    t.Bracketed :=
  { h.toLogged.congr runs events state with
    pending := by
      intro events next pub
      have announces := h.pending events next (publication ▸ pub)
      cases next <;> simpa only [Announces, OpenRun, runs] using announces }

end Bracketed

namespace Logged

theorem attach (h : s.Logged) (o : s.Ordered) (stage : r.stage = .received) : (s.attach r).release.Bracketed := by
  refine release ⟨fun m rm run => ?_, fun m none => ?_, fun executing m execution => ?_⟩
  · rcases runs_setRun run with ⟨rfl, rfl⟩ | ⟨-, run⟩
    · show rm.Shown s.log s.admitted
      simpa [TaskRun.Shown, TaskRun.opened, TaskRun.closed, stage] using h.unknown _ o.fresh
    · exact h.shown m rm run
  · by_cases same : m = s.admitted
    · subst same
      simp [Controller.attach] at none
    · exact h.unknown m (by simpa [Controller.attach, Function.update_of_ne same] using none)
  · obtain ⟨rm, run, opened⟩ := h.executing executing m execution
    have lt := (o.admitted m).1 ⟨rm, run⟩
    exact ⟨rm, by simpa [Controller.attach, Function.update_of_ne (Nat.ne_of_lt lt)] using run, opened⟩

/-- The finish of a run that has not begun. -/
theorem finished {body : Outcome} (h : s.Logged) (hr : s.runs n = some r) (stage : r.stage = .finishing body)
    (started : r.started = false) (raised : Option String) : (s.finished n raised).release.Bracketed := by
  simp only [Controller.finished, hr, stage]
  refine (h.setRun hr ?_ ?_).release <;> simp [TaskRun.opened, TaskRun.closed, stage, started]

/-- The finish of a run that has. -/
theorem emit_finished {body : Outcome} {info : TaskFinishInfo} (h : s.Logged)
    (hr : s.runs n = some r) (stage : r.stage = .finishing body) (started : r.started = true)
    (one : executions events = [.finished n info]) (raised : Option String) :
    ((s.emitAll events).finished n raised).release.Bracketed := by
  simp only [Controller.finished, emitAll_runs, hr, stage]
  refine (h.emit_finish hr one ?_ ?_ ?_).release <;> simp [TaskRun.opened, TaskRun.closed, stage, started]

/-- While a start is published no run is open: those before have ended, and those after wait. -/
theorem alone {behind : List ℕ} (o : s.Ordered)
    (pub : s.publication = some ⟨events, .start n behind⟩) (m : ℕ) : ¬ s.OpenRun m := by
  obtain ⟨⟨r, hr, stage⟩, -⟩ := o.starting events n behind pub
  rintro ⟨rm, run, opened⟩
  rcases Nat.lt_trichotomy m n with lt | rfl | lt
  · obtain ⟨outcome, done⟩ := TaskRun.done_iff.1 (o.joined n r hr (by simp [stage]) (by simp [stage]) m lt rm run)
    simp [TaskRun.opened, done] at opened
  · obtain rfl : rm = r := by simpa [hr] using run.symm
    simp [TaskRun.opened, stage] at opened
  · have past (received : rm.stage ≠ .received) (joining : rm.stage ≠ .joining) := o.joined m rm run received joining n lt r hr
    have done := past (by rintro received; simp [TaskRun.opened, received] at opened)
      (by rintro joining; simp [TaskRun.opened, joining] at opened)
    simp [TaskRun.done, stage] at done

end Logged

namespace Bracketed

/-- The events of a publication that neither starts nor finishes a run are out. -/
theorem emitted {next : Next K} (h : s.Bracketed) (pub : s.publication = some ⟨events, next⟩)
    (start : ∀ n behind, next ≠ .start n behind) (finish : ∀ n mismatch, next ≠ .finish n mismatch) :
    (s.emitAll events).Logged := by
  have announces := h.pending events next pub
  cases next with
  | attach => exact h.emit_none announces
  | start n behind => exact absurd rfl (start n behind)
  | finish n mismatch => exact absurd rfl (finish n mismatch)
  | abort n => exact h.emit_inside announces.2 announces.1 rfl rfl
  | release =>
    rcases announces with none | ⟨n, aborts, one, open_⟩
    · exact h.emit_none none
    · exact h.emit_inside open_ one rfl rfl

section Steps

variable [DecidableEq K]

/-- The end of the publication of a start. -/
theorem start_out {behind : List ℕ} (h : s.Logged) (o : s.Ordered) (c : s.Consistent)
    (pub : s.publication = some ⟨events, .start n behind⟩) (one : executions events = [.started n]) :
    ((s.emitAll events).proceed (.start n behind)).Bracketed := by
  obtain ⟨⟨r, hr, stage⟩, -⟩ := o.starting events n behind pub
  have record := c.runs n r hr
  simp only [TaskRun.Consistent, stage] at record
  simp only [proceed, emitAll_runs, hr]
  refine (h.emit_start hr one (Logged.alone o pub) ?_ ?_).release
  · simp [TaskRun.closed, stage]
  · cases r.deferred <;> simp [TaskRun.opened, TaskRun.endBody, record.2.1]

theorem cancelled (h : s.Logged) (c : s.Consistent) (stage : ∀ r ∈ s.runs n, r.stage ≠ .startWaiting) :
    (s.cancel n).release.Bracketed := by
  rcases s.cancel_cases n with ⟨same, -⟩ | ⟨r, r', lock, hr, -, moves, -, eq⟩
  · rw [same]
    exact h.release
  · rw [eq]
    obtain ⟨opened, closed, -⟩ := brackets_of_cancel (c.runs n r hr) (stage r hr) moves
    have h' : Logged { s with lock } := h.congr rfl rfl rfl
    exact (h'.setRun hr opened closed).release

theorem cancel (h : s.Bracketed) (c : s.Consistent) (stage : ∀ r ∈ s.runs n, r.stage ≠ .startWaiting) :
    (s.cancel n).Bracketed := by
  rcases s.cancel_cases n with ⟨same, -⟩ | ⟨r, r', lock, hr, -, moves, -, eq⟩
  · rwa [same]
  · rw [eq]
    obtain ⟨opened, closed, started⟩ := brackets_of_cancel (c.runs n r hr) (stage r hr) moves
    exact h.setRun hr opened closed fun _ _ _ => started

theorem finish (h : s.Logged) (hr : s.runs n = some r) (finishing : r.isFinishing = true) : (s.finish n r).Bracketed := by
  obtain ⟨body, stage⟩ : ∃ body, r.stage = .finishing body := by
    cases stage : r.stage <;> simp [TaskRun.isFinishing, stage] at finishing ⊢
  obtain ⟨finishInfo, eq⟩ := Ordered.settle_run s r
  have h₀ : Logged { s with states := (s.settle r).2.1 } := h.congr rfl rfl rfl
  have h' : Logged ({ s with states := (s.settle r).2.1 }.setRun n { r with finishInfo, phase := .finished }) :=
    h₀.setRun hr rfl rfl
  simp only [Controller.finish, eq]
  split
  · rename_i nothing
    have started : r.started = false := by
      by_contra started
      simp [started] at nothing
    exact h'.finished (r := { r with finishInfo, phase := .finished }) (by simp) stage started _
  · refine h'.publish ⟨{ r with finishInfo, phase := .finished }, by simp, finishInfo, ?_⟩
    rw [executions_append, executions_operatingEvents, List.append_nil]
    cases r.started <;> rfl

theorem abort (h : s.Logged) (c : s.Consistent) {requested : Option TaskId}
    (holder : s.lock.holder = some (.abort requested))
    (undisturbed : ∀ n ∈ s.cancels .enter, ∀ r ∈ s.runs n, r.stage ≠ .startWaiting) :
    (s.abort requested).Bracketed := by
  rcases abort_cases holder with eq | ⟨n, executing, execution, eq⟩ | ⟨n, cancels, eq⟩ <;> rw [eq]
  · exact h.release
  · exact h.publish ⟨rfl, h.executing executing n execution⟩
  · exact cancelled h c (undisturbed n cancels)

theorem enter {job : Job K} (h : s.Bracketed) (o : s.Ordered) (c : s.Consistent) (holder : s.lock.holder = some job)
    (undisturbed : ∀ n ∈ s.cancels .enter, ∀ r ∈ s.runs n, r.stage ≠ .startWaiting) : (s.enter job).Bracketed := by
  cases job with
  | admission msg =>
    simp only [Controller.enter, Controller.admitRequest]
    split
    · exact h.release
    · split
      · split
        · exact h.attach o rfl
        · exact h.publish (executions_operatingEvents ..)
      · exact h.attach o rfl
  | start n =>
    simp only [Controller.enter]
    split
    · split
      · rename_i r run stage
        refine (h.toLogged.setRun run ?_ ?_).publish rfl <;> simp [TaskRun.opened, TaskRun.closed, stage]
      · exact h
    · exact h
  | finish n =>
    simp only [Controller.enter]
    split
    · split
      · rename_i r run finishing
        exact finish h.toLogged run finishing
      · exact h
    · exact h
  | abort requested => exact abort h.toLogged c holder undisturbed
  | report state context =>
    have h' : Logged { s with states := s.states.recordObserved state context } := h.toLogged.congr rfl rfl rfl
    simp only [Controller.enter, Controller.report]
    split
    · exact h'.release
    · exact h'.publish (.inl (executions_operatingEvents ..))
  | enable enabled => exact h.publish (.inl rfl)
  | updateContext =>
    simp only [Controller.enter, Controller.updateContext]
    split
    · rename_i n execution
      split
      · rename_i executing
        exact h.publish (.inr ⟨n, _, rfl, h.executing executing n execution⟩)
      · exact h.release
    · exact h.release

theorem published {next : Next K} {outcome : PublishOutcome} (h : s.Bracketed) (o : s.Ordered)
    (c : s.Consistent) (pub : s.publication = some ⟨events, next⟩)
    (out : ∀ applied message, outcome ≠ .failed applied message) (defers : next.defers = true → outcome ≠ .interrupted)
    (undisturbed : ∀ n ∈ s.cancels (.published outcome), ∀ r ∈ s.runs n, r.stage ≠ .startWaiting) :
    (s.published events next outcome).Bracketed := by
  have announces := h.pending events next pub
  cases outcome with
  | failed applied message => exact absurd rfl (out applied message)
  | succeeded =>
    cases next with
    | attach r prior =>
      exact (h.emitted pub (by simp) (by simp)).attach (o.emitAll events) (o.attaching events r prior pub).1
    | start n behind => exact start_out h.toLogged o c pub announces
    | finish n mismatch =>
      obtain ⟨r, body, run, stage, -⟩ := c.finishes events n mismatch pub
      obtain ⟨r', run', info, one⟩ := announces
      obtain rfl : r' = r := by simpa [run] using run'.symm
      cases started : r'.started with
      | true => exact h.emit_finished run stage started (by simpa [started] using one) mismatch
      | false =>
        have none : (s.emitAll events).Logged := h.emit_none (by simpa [started] using one)
        exact none.finished (by simpa using run) stage started mismatch
    | abort n =>
      exact cancelled (h.emitted pub (by simp) (by simp)) (c.emitAll events)
        (by simpa using undisturbed n (by simp [cancels, pub]))
    | release => exact (h.emitted pub (by simp) (by simp)).release
  | interrupted =>
    cases next with
    | attach r prior => exact (h.emitted pub (by simp) (by simp)).publish (.inl rfl)
    | start n behind => exact absurd rfl (defers rfl)
    | finish n mismatch => exact absurd rfl (defers rfl)
    | abort n => exact (h.emitted pub (by simp) (by simp)).release
    | release => exact (h.emitted pub (by simp) (by simp)).release

/-- **Every undisturbed step keeps the log bracketed.** -/
theorem step {label : ControllerLabel K} (o : s.Ordered) (c : s.Consistent) (h : s.Bracketed)
    (ok : s.StartsUndisturbed label) (hs : s.step label = some t) : t.Bracketed := by
  obtain ⟨out, undisturbed⟩ := ok
  cases moves_of_step hs with
  | @runner _ n r r' lock run held moves =>
    obtain ⟨opened, closed, started⟩ := brackets_of_moves (c.runs n r run) moves
    refine h.setRun run opened closed fun events mismatch pub => started ?_
    obtain ⟨r₀, body, run₀, stage, -⟩ := c.finishes events n mismatch pub
    obtain rfl : r₀ = r := by simpa [run] using run₀.symm
    simp [TaskRun.isFinishing, stage]
  | @interrupts n p r run stage pred =>
    have keeps : (s.setRun n { r with phase := .interrupting, stage := .joining }).Bracketed := by
      refine h.setRun (l := s.lock) run ?_ ?_ fun _ _ _ => rfl <;> simp [TaskRun.opened, TaskRun.closed, stage]
    refine keeps.cancel (c.joining run stage) fun rp hp => ?_
    rcases runs_setRun hp with ⟨-, rfl⟩ | ⟨-, hp⟩
    · simp
    · exact undisturbed p (by simp [cancels, run, pred]) rp hp
  | enters holder free => exact h.enter o c holder undisturbed
  | publishes outcome pub ready defers =>
    refine h.published o c pub (fun applied message failed => ?_) defers undisturbed
    subst failed
    simp [publishes, ControllerLabel.publishes] at out
  | queues held => exact h.congr rfl rfl rfl rfl
  | wakes => exact h.congr rfl rfl rfl rfl
  | succeeds => exact h.congr rfl rfl rfl rfl
  | closes => exact h.congr rfl rfl rfl rfl
  | @abandons n r run call =>
    cases done : r.done with
    | true => exact h.congr rfl rfl rfl rfl
    | false => exact (h.cancel c (undisturbed n rfl)).congr rfl rfl rfl rfl

end Steps

theorem started (taskHandlers : List String) (recovered : ControllerState K) (legacy : Bool) :
    (started taskHandlers recovered legacy).Bracketed := by
  have idle : (recovered.normalize legacy).executionState.executing = false := by
    simp only [ControllerState.normalize]
    split
    · rename_i unsettled
      simpa using unsettled.2.2.2
    · cases executing : recovered.executionState.executing <;> simp [executing]
  refine ⟨⟨?_, fun n _ => Mark.Absent.nil, ?_⟩, ?_⟩
  · simp [Controller.started]
  · intro executing
    simp [Controller.started, idle] at executing
  · simp [Controller.started]

end Bracketed

/-! ## Runs -/

/-- In every run whose steps are `ok` the log of execution events is bracketed: of each execution
it has nothing, or its start and what accompanies it, or these and its finish, with nothing of
another execution in between. Once the runner has ended it has all of them, or nothing if the
execution never began. -/
def EventsBracketed (K : Type) [DecidableEq K] (ok : Controller K → ControllerLabel K → Prop) : Prop :=
  ∀ taskHandlers recovered legacy s, Reaches step ok (started taskHandlers recovered legacy) s →
    ∀ n, (Mark.Absent s.log n ∨ Mark.Opened s.log n ∨ Mark.Closed s.log n) ∧
      (s.runs n = none → Mark.Absent s.log n) ∧
      ∀ r, s.runs n = some r → r.done = true → if r.started then Mark.Closed s.log n else Mark.Absent s.log n

variable [DecidableEq K] {taskHandlers : List String} {recovered : ControllerState K} {legacy : Bool}

theorem bracketed_of_run (run : Reaches step StartsUndisturbed (started taskHandlers recovered legacy) s) :
    s.Bracketed :=
  run.invariant₂ (I := fun s => s.Ordered ∧ s.Consistent) (fun _ r => ⟨ordered_of_run r, consistent_of_run r⟩)
    (Bracketed.started ..) fun _ _ _ ⟨o, c⟩ h ok hs => h.step o c ok hs

/-- **The execution events are bracketed**, in every run whose publications succeed and in which
no cancellation reaches a run while its start waits for the lock. -/
theorem eventsBracketed_of_startsUndisturbed (K : Type) [DecidableEq K] : EventsBracketed K StartsUndisturbed := by
  intro taskHandlers recovered legacy s run n
  have h := bracketed_of_run run
  cases known : s.runs n with
  | none => exact ⟨.inl (h.unknown n known), fun _ => h.unknown n known, by simp⟩
  | some r =>
    have shown := h.shown n r known
    refine ⟨?_, by simp, ?_⟩
    · cases opened : r.opened with
      | true => exact .inr (.inl (shown.isOpened opened))
      | false =>
        simp only [TaskRun.Shown, opened, Bool.false_eq_true, if_false] at shown
        cases closed : r.closed with
        | true => exact .inr (.inr (by simpa [closed] using shown))
        | false => exact .inl (by simpa [closed] using shown)
    · rintro r' ⟨⟩ done
      obtain ⟨outcome, stage⟩ := TaskRun.done_iff.1 done
      simpa [TaskRun.Shown, TaskRun.opened, TaskRun.closed, stage] using shown

/-- An initialization is aborted while its admission publishes the transition. The abort is next
in line for the lock, ahead of the start, and cancels the run. -/
def abortedStart : List (ControllerLabel Unit) :=
  [.arrive (.admission ⟨{ taskType := "init", targetState := some .operate }, (), false⟩), .enter, .arrive (.abort none),
    .published .succeeded, .begin 0, .enter, .finish 0, .enter, .published .succeeded]

/-- Its finish is published without a start. -/
theorem not_eventsBracketed_abortedStart : ¬ EventsBracketed Unit publishes := by
  intro bracketed
  have run : Reaches step publishes (exampleController ["init"])
      ((exec step (exampleController ["init"]) abortedStart).get (by decide +kernel)) :=
    reaches_of_exec (Option.some_get _).symm (by decide +kernel)
  have unstarted : (Option.get (exec step (exampleController ["init"]) abortedStart) (by decide +kernel)).log =
      [.closes 0] := by decide +kernel
  rcases (bracketed _ _ _ _ run 0).1 with absent | opened | closed
  · exact absent (.closes 0) (by rw [unstarted]; simp) rfl
  · obtain ⟨before, within, log, -⟩ := opened
    have mem : Mark.opens 0 ∈ [Mark.closes 0] := by rw [← unstarted, log]; simp
    simp at mem
  · obtain ⟨before, within, after, log, -⟩ := closed
    have mem : Mark.opens 0 ∈ [Mark.closes 0] := by rw [← unstarted, log]; simp
    simp at mem

/-- An interrupted collect has its start and its finish in the log once its runner has ended. -/
theorem eventsBracketed_example : ∃ s : Controller Unit, (∃ r, s.runs 0 = some r ∧ r.done = true) ∧
    Mark.Closed s.log 0 := by
  have run : Reaches step StartsUndisturbed (exampleController ["collect"])
      ((exec step (exampleController ["collect"]) interruptingCollect).get (by decide +kernel)) :=
    reaches_of_exec (Option.some_get _).symm (by decide +kernel)
  have done : ∃ r, ((exec step (exampleController ["collect"]) interruptingCollect).get (by decide +kernel)).runs 0 =
      some r ∧ r.done = true ∧ r.started = true := ⟨Option.get _ (by decide +kernel), (Option.some_get _).symm, by decide +kernel⟩
  obtain ⟨r, known, done, began⟩ := done
  have ended := (eventsBracketed_of_startsUndisturbed Unit _ _ _ _ run 0).2.2 r known done
  rw [if_pos began] at ended
  exact ⟨_, ⟨r, known, done⟩, ended⟩

end Controller

end SensorKit.Core
