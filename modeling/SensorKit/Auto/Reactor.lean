import SensorKit.Auto.Failure
import SensorKit.Auto.Operator
import SensorKit.Lib.Run

/-!
# The controller reactor

A reactor runs lifecycle procedures one at a time: the demanded one, or recovery once failures have been counted. A
procedure ends at any moment and in any way that its kind allows; how demand interrupts it is left open. Reactors
come and go, and share the failure state of their lifecycle with the supervisors, which count failures too.

The machine is the reactor with the clock of its event loop and a log of what it has done. The log is history only:
no definition reads it.
-/

namespace SensorKit.Auto

open Lib SensorKit.Core

variable {K : Type}

/-- A lifecycle procedure: the one of a demanded state, or a recovery attempt or emergency shutdown. -/
inductive LifecycleProcedure
  | demanded (state : InternalControllerState)
  | recover (emergency : Bool)
deriving DecidableEq, Repr

/-- What a procedure fails with. -/
inductive ProcedureError
  | offline
  | unrecoverable
  | failure (message : String)
  /-- A rejected request, or what its logic or its cleanup raised. -/
  | other (message : String)
deriving DecidableEq, Repr

/-- How a procedure has ended. -/
structure Outcome where
  /-- Whether tracked tasks, cleanup futures, or program tasking may still be active. -/
  unresolved : Bool := false
  /-- Whether its own lifecycle task established the confirmed state. -/
  commanded : Bool := false
  /-- Whether the recovery task succeeded. -/
  recovered : Bool := false
  error : Option ProcedureError := none
deriving DecidableEq, Repr

/-- Only recovery attempts recover, and only an emergency shutdown says that the controller is unrecoverable. -/
def LifecycleProcedure.Ends (procedure : LifecycleProcedure) (outcome : Outcome) : Prop :=
  (outcome.recovered = true → procedure = .recover false) ∧
    (outcome.error = some .unrecoverable → procedure = .recover true)

instance (procedure : LifecycleProcedure) (outcome : Outcome) : Decidable (procedure.Ends outcome) :=
  inferInstanceAs (Decidable (_ ∧ _))

/-- A task execution that the controller reports: its id, and the seconds that remain until it expires. -/
structure Execution where
  taskId : ℕ
  remaining : Option ℚ
deriving DecidableEq, Repr

/-- What a reactor did, or a supervisor or startup counted. -/
inductive ReactorEvent
  /-- A procedure was started, for a demanded state. -/
  | started (procedure : LifecycleProcedure) (demand : InternalControllerState) (time : ℚ)
  /-- A failure was counted for the current procedure, after which recovery was due or not. -/
  | failure (time : ℚ) (due : Bool)
  /-- An error found at startup was counted. -/
  | initial (time : ℚ)
  /-- A recovery attempt succeeded or failed. -/
  | attempt (recovered : Bool) (time : ℚ)
  /-- The counts were reset because the stable period had passed. -/
  | expired (time : ℚ)
  | emergencyFailed (time : ℚ)
  | emergencySucceeded (time : ℚ)
  /-- The next command was delayed until a time. -/
  | scheduled (retryAt : ℚ)
deriving DecidableEq, Repr

/-- Run lifecycle procedures one at a time while a state supervisor monitors the controller. -/
structure ControllerReactor where
  failureState : FailureState
  /-- `run` has begun and not ended. -/
  running : Bool := false
  procedure : Option LifecycleProcedure := none
  /-- Whether a procedure commanded the demanded state during this reactor's lifetime. -/
  achievedOnce : Bool := false
  settleWait : Option (ℕ × ℚ) := none
  /-- The time of the event loop. -/
  now : ℚ := 0
  log : List ReactorEvent := []
deriving DecidableEq, Repr

/-- `settle_timeout`: maximum time, in seconds, to wait for an existing lifecycle task that matches demand. -/
def settleTimeout : ℚ := 300

namespace ControllerReactor

variable (s : ControllerReactor)

/-- Log what has happened. -/
def note (event : ReactorEvent) : ControllerReactor :=
  { s with log := s.log ++ [event] }

/-- `expire`, on the failure state. -/
def expire : ControllerReactor :=
  let expired := { s with failureState := s.failureState.expire s.now }
  if s.failureState.Elapsed s.now then expired.note (.expired s.now) else expired

/-- Log the time that the next command has been delayed until. -/
def schedule : ControllerReactor :=
  match s.failureState.retryAt with
  | some retryAt => s.note (.scheduled retryAt)
  | none => s

/-- `record_failure`, on the failure state, by the reactor or by a supervisor. -/
def recordFailure (message : String) : ControllerReactor :=
  if s.failureState.error.isSome then s
  else
    let failureState := s.failureState.recordFailure s.now message
    let counted := { s.expire with failureState }.note (.failure s.now failureState.recoveryDue)
    if failureState.recoveryDue then counted else counted.schedule

/-- `record_initial_error`, on the failure state. -/
def recordInitialError : ControllerReactor :=
  let expired := s.expire
  let counted := { expired with failureState := s.failureState.recordInitialError s.now }
  if expired.failureState.failures = 0 then counted.note (.initial s.now) else counted

/-- The start of `run`, by a new reactor. -/
def run (actual : ControllerOperatingState K) : ControllerReactor :=
  let started := { s with running := true, procedure := none, achievedOnce := false, settleWait := none }
  if actual.current = .error then started.recordInitialError else started

/-- `run` ends, however it does: `_release` ends the current procedure without concluding it. -/
def release : ControllerReactor :=
  { s with running := false, procedure := none }

/-- What `_conclude` does to the failure state for a finished procedure whose work has stopped. -/
def count (procedure : LifecycleProcedure) (outcome : Outcome) : ControllerReactor :=
  match procedure, outcome.error with
  | .recover emergency, error =>
    if outcome.recovered then
      let recorded := { s with failureState := s.failureState.recordRecovery s.now }
      (recorded.note (.attempt true s.now)).schedule
    else
      match error with
      -- An interrupted attempt changes nothing.
      | none => s
      | some _ =>
        if emergency then
          let recorded := { s with failureState := s.failureState.recordFailedEmergency s.now }
          (recorded.note (.emergencyFailed s.now)).schedule
        else
          let failureState := s.failureState.recordFailedAttempt s.now
          let recorded := { s with failureState }.note (.attempt false s.now)
          if failureState.emergencyDue then recorded else recorded.schedule
  | .demanded _, none => s
  | .demanded _, some error =>
    -- This controller failure was already counted and its retry scheduled.
    if s.failureState.error.isSome then s
    else
      match error with
      | .failure message => s.recordFailure message
      | _ => { s with failureState := s.failureState.delayRetry s.now }.schedule

/-- `_conclude`: update failure counts and retry timing from a finished procedure, and say whether it raises. -/
def conclude (procedure : LifecycleProcedure) (outcome : Outcome) : ControllerReactor × Bool :=
  let s := { s with achievedOnce := s.achievedOnce || outcome.commanded }
  if outcome.unresolved then (s, true)
  else
    match procedure, outcome.error with
    | _, some .offline => (s, true)
    | .recover _, some .unrecoverable =>
      ({ s with failureState := s.failureState.clear }.note (.emergencySucceeded s.now), true)
    | _, _ => (s.count procedure outcome, false)

/-- `_start`. -/
def startProcedure (procedure : LifecycleProcedure) (demand : InternalControllerState) : ControllerReactor :=
  { s with procedure := some procedure, failureState := s.failureState.beginProcedure }.note
    (.started procedure demand s.now)

section Dispatch

variable [DecidableEq K]

/-- What an evaluation reads. -/
structure Inputs (K : Type) where
  enabled : Bool := true
  demand : DemandState
  /-- The task context of the demanded state. -/
  lifecycleContext : K
  /-- The state of the supervisor, unless state monitoring has failed. -/
  actual : Option (ControllerOperatingState K)
  execution : Option Execution := none
  /-- How the current procedure has ended, if it has. -/
  outcome : Option Outcome := none
deriving DecidableEq, Repr

/-- `_settling`: when to stop waiting for a running lifecycle task that matches the demand. -/
def settling (inputs : Inputs K) (actual : ControllerOperatingState K) : ControllerReactor × Option ℚ :=
  match inputs.execution with
  | none => (s, none)
  | some execution =>
    if actual.current ≠ .transition ∨ actual.target ≠ inputs.demand.state ∨
        actual.context ≠ inputs.lifecycleContext then
      (s, none)
    else
      let wait :=
        match s.settleWait with
        | some wait => if wait.1 = execution.taskId then wait else (execution.taskId, s.now)
        | none => (execution.taskId, s.now)
      let limit := wait.2 + settleTimeout
      let limit :=
        match execution.remaining with
        | some remaining => min limit (s.now + remaining)
        | none => limit
      ({ s with settleWait := some wait }, if s.now < limit then some limit else none)

/-- `_dispatch`: start recovery or the demanded procedure, or wait. -/
def dispatch (inputs : Inputs K) (actual : ControllerOperatingState K) (state : InternalControllerState) :
    ControllerReactor :=
  let s := s.expire
  -- Recovery handles running tasks in its procedure.
  if s.failureState.recoveryDue then
    if (s.failureState.waiting s.now).isSome then s
    else s.startProcedure (.recover s.failureState.emergencyDue) state
  -- Shutdown bypasses retry delays.
  else if state ≠ .shutdown ∧ (s.failureState.waiting s.now).isSome then s
  else
    let (s, limit) := s.settling inputs actual
    if limit.isSome then s else s.startProcedure (.demanded state) state

/-- The rest of `_evaluate` and of the turn of `run`, once a procedure that is done has been concluded. -/
def proceed (inputs : Inputs K) : ControllerReactor :=
  match inputs.actual with
  | none => s.release
  | some actual =>
    match s.procedure with
    | some _ => s
    | none =>
      if !inputs.enabled then s.release
      else
        match inputs.demand.state with
        | none => s
        | some state => s.dispatch inputs actual state

/-- One turn of `run`, which concludes the current procedure if it has ended in a way that it can. -/
def evaluate (inputs : Inputs K) : Option ControllerReactor :=
  match s.procedure, inputs.outcome with
  | _, none => some (s.proceed inputs)
  | none, some _ => none
  | some procedure, some outcome =>
    if procedure.Ends outcome then
      let (concluded, raised) := { s with procedure := none }.conclude procedure outcome
      some (if raised then concluded.release else concluded.proceed inputs)
    else none

end Dispatch

end ControllerReactor

/-- What happens next. -/
inductive ReactorLabel (K : Type) where
  /-- Time passes. -/
  | elapse (d : ℚ)
  /-- A supervisor records a controller failure. -/
  | failure (message : String)
  /-- A new reactor runs. -/
  | run (actual : ControllerOperatingState K)
  /-- The reactor evaluates its inputs. -/
  | evaluate (inputs : ControllerReactor.Inputs K)
  /-- The reactor is canceled. -/
  | release

/-- One segment, if it can come next. -/
def ControllerReactor.step [DecidableEq K] (s : ControllerReactor) : ReactorLabel K → Option ControllerReactor
  | .elapse d => if 0 ≤ d then some { s with now := s.now + d } else none
  | .failure message => some (s.recordFailure message)
  | .run actual => if s.running then none else some (s.run actual)
  | .evaluate inputs => if s.running then s.evaluate inputs else none
  | .release => if s.running then some s.release else none

/-- Settings of the failure state, all positive. -/
structure Thresholds where
  recoverAfterFailures : ℕ
  retryDelay : ℚ
  recoveryAttempts : ℕ
  attemptDelay : ℚ
  cycleDelay : ℚ
  stablePeriod : ℚ
  recoverAfterFailures_pos : 0 < recoverAfterFailures
  retryDelay_pos : 0 < retryDelay
  recoveryAttempts_pos : 0 < recoveryAttempts
  attemptDelay_pos : 0 < attemptDelay
  cycleDelay_pos : 0 < cycleDelay
  stablePeriod_pos : 0 < stablePeriod

/-- A lifecycle that has not run yet, with these settings. -/
def ControllerReactor.start (thresholds : Thresholds) : ControllerReactor where
  failureState :=
    { recoverAfterFailures := thresholds.recoverAfterFailures
      retryDelay := thresholds.retryDelay
      recoveryAttempts := thresholds.recoveryAttempts
      attemptDelay := thresholds.attemptDelay
      cycleDelay := thresholds.cycleDelay
      stablePeriod := thresholds.stablePeriod }

end SensorKit.Auto
