import Mathlib.Algebra.Order.Ring.Rat
import Mathlib.Data.Finset.Card
import SensorKit.Lib.Run

/-!
# Operating constraints

A constraint's check task feeds a `ConstraintEvaluator` with readings; a hold delays the
release after a clear reading. `ConstraintManager` supervises each check task: it reads the
evaluator's updates, restarts the check when it ends, raises or times out, and keeps the set
of constraints that are counted against operation.

Times are exact seconds of the event loop clock. A step of the machine runs one task from one
await to the next. Any time may pass between steps, so a timer may be served late but never
early. Updates reach the manager in two steps, as in the source: `next_update` takes the
state and clears the flag, and the manager applies what was taken when it runs again.
-/

namespace SensorKit.Auto

open Lib

/-- Structured constraint state details, by their registered kind. -/
structure ConstraintDetails where
  kind : String
deriving DecidableEq, Repr

/-- The configuration of an operating constraint. -/
structure Constraint where
  kind : String
  ttl : ℚ := 30
  hold : ℚ := 0
  optional : Bool := false
deriving DecidableEq, Repr

/-- The `state` of a `ConstraintState`. -/
inductive StateName where
  | notReady
  | clear
  | holding
  | active
deriving DecidableEq, Repr

/-- Per-constraint state. -/
structure ConstraintState where
  kind : String
  state : StateName := .notReady
  reason : String := ""
  details : Option ConstraintDetails := none
deriving DecidableEq, Repr

/-! ## The evaluator -/

/-- State interface for one `check_task` run. The fields are those of the source: the hold
deadline, the deadline of the data timeout, whether the constraint is ready, whether a hold
task is running, and the intended and the actual state with its update flag. -/
structure ConstraintEvaluator where
  holdingUntil : Option ℚ := none
  timeout : ℚ
  isReady : Bool
  holdTask : Bool := false
  intendedState : ConstraintState
  actualState : ConstraintState
  stateUpdated : Bool := false
deriving DecidableEq, Repr

namespace ConstraintEvaluator

variable (c : Constraint) (now : ℚ) (e : ConstraintEvaluator)

/-- The state the evaluator's fields call for. -/
def derivedState : ConstraintState :=
  if !e.isReady then { kind := c.kind, state := .notReady }
  else if e.holdingUntil.isSome then { kind := c.kind, state := .holding }
  else e.intendedState

/-- `_update_state`. -/
def updateState : ConstraintEvaluator :=
  { e with actualState := e.derivedState c, stateUpdated := true }

/-- `_begin_hold`: start a hold running for the given duration. -/
def beginHold (waitSecs : ℚ) : Except String ConstraintEvaluator :=
  match e.holdingUntil with
  | some _ => .error s!"{c.kind} constraint is already holding"
  | none => .ok { e with holdingUntil := some (now + waitSecs), holdTask := true }

/-- `_stop_hold_task`, and `cleanup`: the deadline stays readable. -/
def stopHoldTask : ConstraintEvaluator :=
  { e with holdTask := false }

/-- `_cancel_hold`: abandon any hold, discarding its deadline. -/
def cancelHold : ConstraintEvaluator :=
  { e.stopHoldTask with holdingUntil := none }

/-- The state `__init__` starts from. -/
def initialState : ConstraintState :=
  if c.optional then { kind := c.kind, state := .clear, reason := "optional constraint" }
  else { kind := c.kind, state := .notReady, reason := "awaiting data" }

/-- `__init__`. The actual state is set before an initial hold begins and not updated after. -/
def init (timeout initialHold : ℚ) : Except String ConstraintEvaluator :=
  let e : ConstraintEvaluator :=
    { timeout
      isReady := c.optional
      intendedState := initialState c
      actualState := initialState c }
  if initialHold > 0 then e.beginHold c now initialHold else .ok e

/-- `ready`. -/
def ready : ConstraintEvaluator :=
  let e := { e with timeout := now + c.ttl }
  if e.isReady then e else { e with isReady := true }.updateState c

/-- `constrain`. -/
def constrain (reason : String) (details : Option ConstraintDetails) : ConstraintEvaluator :=
  { { e with timeout := now + c.ttl }.cancelHold with
    intendedState := { kind := c.kind, state := .active, reason, details } }.updateState c

/-- `clear`. -/
def clear (reason : String) (details : Option ConstraintDetails) : Except String ConstraintEvaluator := do
  let e := { e with timeout := now + c.ttl }
  let e ← if c.hold > 0 ∧ e.intendedState.state = .active then e.beginHold c now c.hold else .ok e
  .ok ({ e with intendedState := { kind := c.kind, state := .clear, reason, details } }.updateState c)

/-- The end of `_do_hold`, once its sleep is over. -/
def endHold : ConstraintEvaluator :=
  { e with holdTask := false, holdingUntil := none }.updateState c

/-- `hold_remaining`: the hold a replacement evaluator should start with. -/
def holdRemaining : ℚ :=
  match e.holdingUntil with
  | some deadline => max 0 (deadline - now)
  | none => if e.intendedState.state = .active then c.hold else 0

end ConstraintEvaluator

/-! ## The supervisor of one constraint -/

/-- A call of the check task on its evaluator. -/
inductive EvaluatorCall where
  | ready
  | constrain (reason : String) (details : Option ConstraintDetails)
  | clear (reason : String) (details : Option ConstraintDetails)
deriving DecidableEq, Repr

/-- Where `_constraint_supervisor` is in one turn of its loop. -/
inductive Phase where
  /-- In the restart delay, which ends at the given time. -/
  | delaying (until_ : ℚ)
  /-- In `_constraint_task`, waiting for readiness or for the check to finish. -/
  | awaitingReady
  /-- In `_constraint_task`, reading the updates. -/
  | reading
  /-- Stopping the tasks of this turn. -/
  | stopping
deriving DecidableEq, Repr

/-- One turn of the loop of `_constraint_supervisor`, and what its check task last reported. -/
structure Evaluation where
  evaluator : ConstraintEvaluator
  phase : Phase
  /-- The check task has returned, raised, or been cancelled. -/
  checkEnded : Bool := false
  /-- The data timeout has fired; calls on the evaluator raise from here on. -/
  expired : Bool := false
  /-- The result of the update task, until the manager consumes it. -/
  taken : Option ConstraintState := none
  /-- The latest reading: `some true` for `constrain`, `some false` for `clear`. -/
  latest : Option Bool := none
  /-- The time of the latest reading or `ready()`. -/
  dataAt : Option ℚ := none
deriving DecidableEq, Repr

/-- The supervisor of a constraint: its current turn (`none` before its first step), the
times of the `constrain()` readings recorded while the constraint was counted, and whether
`_begin_hold` ever raised. -/
structure Supervisor where
  evaluation : Option Evaluation := none
  readings : List ℚ := []
  alreadyHolding : Bool := false
deriving DecidableEq, Repr

/-- What a supervisor, its check task or its timers do next. -/
inductive SupervisorLabel where
  /-- The first step of the supervisor task. -/
  | start
  /-- The restart delay is over. -/
  | delayOver
  /-- The check task calls its evaluator. -/
  | call (call : EvaluatorCall)
  /-- The check task returns, raises or is cancelled. -/
  | checkEnds
  /-- The hold task wakes from its sleep. -/
  | holdElapses
  /-- The data timeout fires and cancels the supervisor. -/
  | timeout
  /-- The supervisor goes on from its wait for readiness. -/
  | readyWakes
  /-- The update task takes the actual state. -/
  | take
  /-- The supervisor goes on from its wait for an update or the end of the check. -/
  | consume
  /-- The cancellation by the timeout reaches the supervisor. -/
  | stop
  /-- `cleanup` stops the hold task. The timeout may cut it off, so a restart need not follow it. -/
  | cleanup
  /-- The next turn of the loop begins. -/
  | restart
deriving DecidableEq, Repr

/-- `CONSTRAINT_RESTART_GRACE`. -/
def restartGrace : ℚ := 5

/-- `CONSTRAINT_RESTART_DELAY`. -/
def restartDelay : ℚ := 5

namespace Evaluation

/-- The start of a turn: a new evaluator, under the initial timeout. -/
def begin (c : Constraint) (now initialHold : ℚ) (restarting : Bool) : Except String Evaluation := do
  let initialTimeout := restartGrace + c.ttl
  let evaluator ← ConstraintEvaluator.init c now
    (now + initialTimeout + if restarting then restartDelay else 0) initialHold
  .ok { evaluator, phase := if restarting then .delaying (now + restartDelay) else .awaitingReady }

variable (c : Constraint) (now : ℚ) (v : Evaluation)

/-- The check task runs and its evaluator still accepts calls. -/
def checking : Bool :=
  (v.phase == .awaitingReady || v.phase == .reading) && !v.checkEnded && !v.expired

/-- A call that reached the evaluator. -/
def reported (evaluator : ConstraintEvaluator) (latest : Option Bool) : Evaluation :=
  { v with evaluator, latest, dataAt := some now }

/-- A call of the check task on its evaluator. -/
def call : EvaluatorCall → Except String Evaluation
  | .ready => .ok (v.reported now (v.evaluator.ready c now) v.latest)
  | .constrain reason details =>
    .ok (v.reported now (v.evaluator.constrain c now reason details) (some true))
  | .clear reason details => do
    .ok (v.reported now (← v.evaluator.clear c now reason details) (some false))

end Evaluation

namespace Supervisor

variable (c : Constraint) (now : ℚ) (counted : Bool)

/-- Begin a turn, handing the manager the state of the new evaluator. -/
def turn (s : Supervisor) (initialHold : ℚ) (restarting : Bool) : Supervisor × Option ConstraintState :=
  match Evaluation.begin c now initialHold restarting with
  | .ok v => ({ s with evaluation := some v }, some v.evaluator.actualState)
  | .error _ => ({ s with alreadyHolding := true }, none)

/-- Go on with the turn `v`, handing the manager nothing. -/
def goOn (s : Supervisor) (v : Evaluation) : Supervisor × Option ConstraintState :=
  ({ s with evaluation := some v }, none)

/-- A call of the check task, noting a `constrain()` reading if the constraint is counted. -/
def called (s : Supervisor) (v : Evaluation) (call : EvaluatorCall) : Supervisor × Option ConstraintState :=
  match v.call c now call with
  | .error _ => ({ s with alreadyHolding := true }, none)
  | .ok v =>
    match call with
    | .constrain _ _ =>
      ({ s with evaluation := some v, readings := if counted then now :: s.readings else s.readings }, none)
    | _ => s.goOn v

/-- One step of the supervisor with its tasks: the new supervisor, and the state it hands to
`_set_state`, if any. -/
def step (s : Supervisor) (label : SupervisorLabel) : Option (Supervisor × Option ConstraintState) :=
  match s.evaluation with
  | none => if label = .start then some (s.turn c now 0 false) else none
  | some v =>
    match label with
    | .start => none
    | .delayOver =>
      match v.phase with
      | .delaying until_ =>
        if until_ ≤ now ∧ !v.expired then some (s.goOn { v with phase := .awaitingReady }) else none
      | _ => none
    | .call call => if v.checking then some (s.called c now counted v call) else none
    | .checkEnds => if v.checking then some (s.goOn { v with checkEnded := true }) else none
    | .holdElapses =>
      if v.evaluator.holdTask ∧ ∃ deadline ∈ v.evaluator.holdingUntil, deadline ≤ now
      then some (s.goOn { v with evaluator := v.evaluator.endHold c }) else none
    | .timeout =>
      if v.evaluator.timeout ≤ now ∧ !v.expired then some (s.goOn { v with expired := true }) else none
    | .readyWakes =>
      if v.phase = .awaitingReady ∧ !v.expired ∧ (v.evaluator.isReady || v.checkEnded)
      then some (s.goOn { v with phase := if v.evaluator.isReady then .reading else .stopping }) else none
    | .take =>
      if v.phase = .reading ∧ v.taken = none ∧ v.evaluator.stateUpdated
      then some (s.goOn { v with
        taken := some v.evaluator.actualState
        evaluator := { v.evaluator with stateUpdated := false } }) else none
    | .consume =>
      if v.phase = .reading ∧ !v.expired ∧ (v.taken.isSome || v.checkEnded)
      then some ({ s with evaluation := some { v with
        taken := none
        phase := if v.checkEnded then .stopping else .reading } }, v.taken) else none
    | .stop =>
      if v.expired ∧ v.phase ≠ .stopping then some (s.goOn { v with phase := .stopping }) else none
    | .cleanup =>
      if v.phase = .stopping then some (s.goOn { v with evaluator := v.evaluator.stopHoldTask }) else none
    | .restart =>
      if v.phase = .stopping then some (s.turn c now (v.evaluator.holdRemaining c now) true) else none

end Supervisor

/-! ## The manager -/

/-- The manager's own state. -/
structure ConstraintManager where
  entries : List ConstraintState
  constrainedSet : Finset ℕ := ∅
  readySet : Finset ℕ := ∅
  readyEvent : Bool
deriving DecidableEq

namespace ConstraintManager

/-- `__init__`. -/
def init (constraints : List Constraint) : ConstraintManager where
  entries := constraints.map fun c => { kind := c.kind }
  readyEvent := constraints.isEmpty

/-- `is_constrained`. -/
def isConstrained (m : ConstraintManager) : Bool :=
  0 < m.constrainedSet.card

/-- `_set_state`. -/
def setState (m : ConstraintManager) (idx : ℕ) (current : ConstraintState) : ConstraintManager :=
  let entries := m.entries.set idx current
  let readySet := if current.state = .notReady then m.readySet.erase idx else insert idx m.readySet
  { entries
    readySet
    constrainedSet :=
      if current.state = .clear then m.constrainedSet.erase idx else insert idx m.constrainedSet
    readyEvent := readySet.card = entries.length }

end ConstraintManager

/-- The manager with the supervisors of its constraints and the event loop clock. -/
structure Constraints where
  now : ℚ
  manager : ConstraintManager
  supervisors : ℕ → Supervisor := fun _ => {}

/-- What happens next: time passes, or a constraint's supervisor or check task goes on. -/
inductive ConstraintsLabel where
  | tick (elapsed : ℚ)
  | task (idx : ℕ) (label : SupervisorLabel)
deriving DecidableEq, Repr

namespace Constraints

/-- The manager as `start` leaves it, with no supervisor having run yet. -/
def started (constraints : List Constraint) (now : ℚ) : Constraints where
  now
  manager := .init constraints

/-- `is_constrained` counts the constraint. -/
def counted (s : Constraints) (idx : ℕ) : Bool :=
  idx ∈ s.manager.constrainedSet

/-- One step of the manager's tasks. -/
def step (constraints : List Constraint) (s : Constraints) : ConstraintsLabel → Option Constraints
  | .tick elapsed => if 0 ≤ elapsed then some { s with now := s.now + elapsed } else none
  | .task idx label => do
    let c ← constraints[idx]?
    let (supervisor, state) ← (s.supervisors idx).step c s.now (s.counted idx) label
    some { s with
      supervisors := fun i => if i = idx then supervisor else s.supervisors i
      manager := match state with
        | some state => s.manager.setState idx state
        | none => s.manager }

end Constraints

end SensorKit.Auto
