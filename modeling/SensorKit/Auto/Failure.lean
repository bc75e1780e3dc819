import Mathlib.Algebra.Order.Ring.Rat

/-!
# Failure history

Controller failures are counted towards recovery, and recovery attempts towards an emergency shutdown. Times are
those of the event loop.
-/

namespace SensorKit.Auto

/-- Track controller failures and schedule retries, recovery and emergency shutdown. -/
structure FailureState where
  recoverAfterFailures : ℕ := 2
  retryDelay : ℚ := 5
  recoveryAttempts : ℕ := 6
  attemptDelay : ℚ := 20
  cycleDelay : ℚ := 120
  stablePeriod : ℚ := 900
  failures : ℕ := 0
  attempts : ℕ := 0
  retryAt : Option ℚ := none
  /-- First controller failure counted for the current procedure, if any. -/
  error : Option String := none
  stableSince : Option ℚ := none
deriving DecidableEq, Repr

namespace FailureState

variable (state : FailureState) (now : ℚ)

/-- Whether the next command is a recovery attempt. -/
def recoveryDue : Bool :=
  state.recoverAfterFailures ≤ state.failures

/-- Whether the next command is an emergency shutdown. -/
def emergencyDue : Bool :=
  state.recoveryDue && state.recoveryAttempts ≤ state.attempts

/-- `waiting`: the pending retry deadline, or none if no delay remains. -/
def waiting : Option ℚ :=
  state.retryAt.filter fun retryAt => now < retryAt

/-- `begin_procedure`: clear the current failure and retry delay without clearing accumulated counts. -/
def beginProcedure : FailureState :=
  { state with error := none, retryAt := none }

/-- `expire`: reset the counts once the stable period passes without a failure or a recovery attempt. -/
def expire : FailureState :=
  match state.stableSince with
  | some since => if state.stablePeriod ≤ now - since then { state with failures := 0, attempts := 0 } else state
  | none => state

/-- `record_initial_error`: count a controller error found at startup once, without delaying the first command. -/
def recordInitialError : FailureState :=
  let expired := { state.expire now with stableSince := some now }
  if expired.failures = 0 then { expired with failures := 1 } else expired

/-- `record_failure`: record and count the first controller failure for the current procedure. -/
def recordFailure (error : String) : FailureState :=
  if state.error.isSome then state
  else
    let expired := state.expire now
    let counted := { expired with error := some error, stableSince := some now, failures := expired.failures + 1 }
    -- Only the first failure schedules a retry delay.
    if counted.recoveryDue then counted else { counted with retryAt := some (now + counted.retryDelay) }

/-- `delay_retry`: delay the next command without counting a controller failure. -/
def delayRetry : FailureState :=
  { state with retryAt := some (now + state.retryDelay) }

/-- `record_recovery`: record a successful recovery. -/
def recordRecovery : FailureState :=
  { state with
    failures := 1
    attempts := state.attempts + 1
    stableSince := some now
    retryAt := some (now + state.retryDelay) }

/-- `record_failed_attempt`: count a failed recovery attempt. -/
def recordFailedAttempt : FailureState :=
  let counted := { state with attempts := state.attempts + 1, stableSince := some now }
  -- Exhausted attempts fall back to emergency shutdown without waiting.
  if counted.emergencyDue then counted else { counted with retryAt := some (now + state.attemptDelay) }

/-- `record_failed_emergency`: resume recovery attempts after a delay. -/
def recordFailedEmergency : FailureState :=
  { state with attempts := 0, stableSince := some now, retryAt := some (now + state.cycleDelay) }

/-- `clear`: reset escalation counters and timing after emergency shutdown. -/
def clear : FailureState :=
  { state with failures := 0, attempts := 0, retryAt := none, stableSince := none }

/-- The stable period has passed without a failure or a recovery attempt. -/
def Elapsed : Prop :=
  ∃ since ∈ state.stableSince, state.stablePeriod ≤ now - since

instance : Decidable (state.Elapsed now) :=
  match eq : state.stableSince with
  | none => isFalse (by simp [Elapsed, eq])
  | some since => decidable_of_iff (state.stablePeriod ≤ now - since) (by simp [Elapsed, eq])

theorem expire_eq : state.expire now = if state.Elapsed now then { state with failures := 0, attempts := 0 } else state := by
  unfold expire Elapsed
  split <;> simp [*]

end FailureState

end SensorKit.Auto
