import Mathlib.Tactic.Linarith
import SensorKit.Auto.Reactor

/-!
# Recovery escalation

What the log of a reactor can hold, whatever the order of procedure outcomes, supervisor failures, restarts and clock
readings. A procedure counts one failure at most, recovery attempts are bounded between resets, and scheduled retry
times are kept, with all positive settings. That recovery leaves one more failure before the next one needs the
setting of two failures.
-/

namespace SensorKit.Auto

open Lib SensorKit.Core

variable {K : Type} {thresholds : Thresholds} {log : List ReactorEvent} {event : ReactorEvent} {s s' : ControllerReactor}

/-! ## Reading a log -/

namespace ReactorEvent

/-- A failure of the controller was counted. -/
def counts : ReactorEvent → Bool
  | .failure _ _ => true
  | .initial _ => true
  | _ => false

def starts : ReactorEvent → Bool
  | .started _ _ _ => true
  | _ => false

/-- When a failure was counted, or a recovery attempt or emergency shutdown ended. -/
def unstable : ReactorEvent → Option ℚ
  | .failure time _ => some time
  | .initial time => some time
  | .attempt _ time => some time
  | .emergencyFailed time => some time
  | _ => none

/-- The failures counted for the current procedure, after an event. -/
def failures (n : ℕ) : ReactorEvent → ℕ
  | .started _ _ _ => 0
  | .failure _ _ => n + 1
  | _ => n

/-- The recovery attempts that have been completed since the last reset, after an event. -/
def attempts (n : ℕ) : ReactorEvent → ℕ
  | .attempt _ _ => n + 1
  | .expired _ => 0
  | .emergencyFailed _ => 0
  | .emergencySucceeded _ => 0
  | _ => n

/-- When the next command has been scheduled to be retried, after an event. -/
def retry (pending : Option ℚ) : ReactorEvent → Option ℚ
  | .scheduled retryAt => some retryAt
  | .started _ _ _ => none
  | .emergencySucceeded _ => none
  | _ => pending

end ReactorEvent

/-- The failures counted since the last procedure was started. -/
def countedIn (log : List ReactorEvent) : ℕ :=
  log.foldl ReactorEvent.failures 0

/-- The recovery attempts completed since the last reset. -/
def attemptsIn (log : List ReactorEvent) : ℕ :=
  log.foldl ReactorEvent.attempts 0

/-- The retry time scheduled for the next command. -/
def retryIn (log : List ReactorEvent) : Option ℚ :=
  log.foldl ReactorEvent.retry none

/-- When failures were counted, and recovery attempts and emergency shutdowns ended. -/
def unstableIn (log : List ReactorEvent) : List ℚ :=
  log.filterMap ReactorEvent.unstable

@[simp] theorem countedIn_snoc : countedIn (log ++ [event]) = event.failures (countedIn log) := by
  simp [countedIn]

@[simp] theorem attemptsIn_snoc : attemptsIn (log ++ [event]) = event.attempts (attemptsIn log) := by
  simp [attemptsIn]

@[simp] theorem retryIn_snoc : retryIn (log ++ [event]) = event.retry (retryIn log) := by
  simp [retryIn]

@[simp] theorem mem_unstableIn_snoc {t : ℚ} :
    t ∈ unstableIn (log ++ [event]) ↔ t ∈ unstableIn log ∨ event.unstable = some t := by
  simp [unstableIn, List.filterMap_append, List.filterMap_cons]
  cases event.unstable <;> simp [eq_comm]

/-- What an event says is right after the log before it. -/
def ReactorEvent.Right (thresholds : Thresholds) (log : List ReactorEvent) : ReactorEvent → Prop
  | .started procedure _ time =>
    (∀ emergency, procedure = .recover emergency →
      (emergency = true ↔ attemptsIn log = thresholds.recoveryAttempts)) ∧
    (procedure ≠ .demanded .shutdown → ∀ retryAt ∈ retryIn log, retryAt ≤ time)
  | .failure _ _ => countedIn log = 0
  | .attempt _ _ => attemptsIn log < thresholds.recoveryAttempts
  | .expired time => ∀ t ∈ unstableIn log, thresholds.stablePeriod ≤ time - t
  | _ => True

/-! ## What holds with all settings -/

/-- No delay remains once the retry time has come. -/
theorem FailureState.le_of_not_waiting {failureState : FailureState} {now : ℚ}
    (passed : ¬ (failureState.waiting now).isSome = true) : ∀ retryAt ∈ failureState.retryAt, retryAt ≤ now := by
  intro retryAt mem
  unfold waiting at passed
  rw [Option.mem_def.1 mem] at passed
  by_contra later
  simp [Option.filter, not_le.1 later] at passed

/-- The failure state has the settings. -/
structure FailureState.Has (failureState : FailureState) (thresholds : Thresholds) : Prop where
  after : failureState.recoverAfterFailures = thresholds.recoverAfterFailures
  limit : failureState.recoveryAttempts = thresholds.recoveryAttempts
  period : failureState.stablePeriod = thresholds.stablePeriod

namespace ControllerReactor

@[simp] theorem expire_failureState : s.expire.failureState = s.failureState.expire s.now := by
  unfold expire
  dsimp only
  split_ifs <;> rfl

@[simp] theorem expire_now : s.expire.now = s.now := by
  unfold expire
  dsimp only
  split_ifs <;> rfl

/-- Within the stable period nothing expires. -/
theorem expire_of_fresh (fresh : ¬ s.failureState.Elapsed s.now) : s.expire = s := by
  unfold expire
  rw [FailureState.expire_eq, if_neg fresh, if_neg fresh]

/-- The next command is delayed. -/
def delay (s : ControllerReactor) (retryAt : ℚ) : ControllerReactor :=
  { s with failureState := { s.failureState with retryAt := some retryAt } }.note (.scheduled retryAt)

/-- A failure of the current procedure is counted. -/
def countFailure (s : ControllerReactor) (message : String) : ControllerReactor :=
  let failureState := { s.failureState with
    error := some message, stableSince := some s.now, failures := s.failureState.failures + 1 }
  { s with failureState }.note (.failure s.now failureState.recoveryDue)

/-- An error found at startup is counted. -/
def countInitial (s : ControllerReactor) : ControllerReactor :=
  { s with failureState := { s.failureState with stableSince := some s.now, failures := 1 } }.note (.initial s.now)

/-- The stable period starts again. -/
def unsettle (s : ControllerReactor) : ControllerReactor :=
  { s with failureState := { s.failureState with stableSince := some s.now } }

/-- A recovery attempt ends, and leaves some failures counted. -/
def endAttempt (s : ControllerReactor) (failures : ℕ) (recovered : Bool) : ControllerReactor :=
  { s with failureState := { s.failureState with
      failures, attempts := s.failureState.attempts + 1, stableSince := some s.now } }.note (.attempt recovered s.now)

/-- An emergency shutdown fails. -/
def failEmergency (s : ControllerReactor) : ControllerReactor :=
  { s with failureState := { s.failureState with attempts := 0, stableSince := some s.now } }.note (.emergencyFailed s.now)

/-- An emergency shutdown succeeds. -/
def endEmergency (s : ControllerReactor) : ControllerReactor :=
  { s with failureState := s.failureState.clear }.note (.emergencySucceeded s.now)

theorem recordFailure_of_error {error : String} (counted : s.failureState.error = some error) (message : String) :
    s.recordFailure message = s := by
  unfold recordFailure
  rw [counted]
  rfl

/-- The first failure of a procedure is counted, and delays the next command unless recovery is due. -/
theorem recordFailure_eq (uncounted : s.failureState.error = none) (message : String) :
    s.recordFailure message =
      let counted := s.expire.countFailure message
      if counted.failureState.recoveryDue then counted
      else counted.delay (s.now + counted.failureState.retryDelay) := by
  unfold recordFailure FailureState.recordFailure countFailure
  simp only [uncounted, expire_failureState, expire_now, Option.isSome_none, Bool.false_eq_true, if_false, note]
  split_ifs with due later
  · rfl
  · exact absurd later due
  · rfl

/-- An error found at startup is counted if no failure has been. -/
theorem recordInitialError_eq : s.recordInitialError =
    if s.expire.failureState.failures = 0 then s.expire.countInitial
    else s.expire.unsettle := by
  unfold recordInitialError FailureState.recordInitialError countInitial unsettle
  simp only [expire_failureState, expire_now]
  split_ifs <;> rfl

/-- **What the end of a procedure counts**: a recovery attempt that succeeded or failed, a failed emergency shutdown, a
failure of the demanded procedure or a delay only, or nothing. -/
theorem count_cases (procedure : LifecycleProcedure) (outcome : Outcome) :
    s.count procedure outcome = s ∨
    (outcome.recovered = true ∧ ∃ retryAt, s.count procedure outcome = (s.endAttempt 1 true).delay retryAt) ∨
    (procedure = .recover false ∧ (s.count procedure outcome = s.endAttempt s.failureState.failures false ∨
      ∃ retryAt, s.count procedure outcome = (s.endAttempt s.failureState.failures false).delay retryAt)) ∨
    (procedure = .recover true ∧ ∃ retryAt, s.count procedure outcome = s.failEmergency.delay retryAt) ∨
    (∃ message, s.count procedure outcome = s.recordFailure message) ∨
    ∃ retryAt, s.count procedure outcome = s.delay retryAt := by
  unfold count
  generalize outcome.error = error
  cases procedure with
  | recover emergency =>
    dsimp only
    by_cases recovered : outcome.recovered = true
    · rw [if_pos recovered]
      exact .inr (.inl ⟨recovered, _, rfl⟩)
    · rw [if_neg recovered]
      cases error with
      | none => exact .inl rfl
      | some error =>
        cases emergency with
        | true => exact .inr (.inr (.inr (.inl ⟨rfl, _, rfl⟩)))
        | false =>
          refine .inr (.inr (.inl ⟨rfl, ?_⟩))
          unfold FailureState.recordFailedAttempt
          dsimp only
          rw [if_neg Bool.false_ne_true]
          split_ifs with due later
          · exact .inl rfl
          · exact absurd later due
          · exact .inr ⟨_, rfl⟩
  | demanded state =>
    cases error with
    | none => exact .inl rfl
    | some error =>
      dsimp only
      split_ifs with counted
      · exact .inl rfl
      · cases error with
        | failure message => exact .inr (.inr (.inr (.inr (.inl ⟨message, rfl⟩))))
        | offline => exact .inr (.inr (.inr (.inr (.inr ⟨_, rfl⟩))))
        | unrecoverable => exact .inr (.inr (.inr (.inr (.inr ⟨_, rfl⟩))))
        | other message => exact .inr (.inr (.inr (.inr (.inr ⟨_, rfl⟩))))

/-- The failure state is what the log says. -/
structure Sound (thresholds : Thresholds) (s : ControllerReactor) : Prop where
  settings : s.failureState.Has thresholds
  attempts_eq : s.failureState.attempts = attemptsIn s.log
  attempts_le : s.failureState.attempts ≤ thresholds.recoveryAttempts
  attempting : s.procedure = some (.recover false) → s.failureState.attempts < thresholds.recoveryAttempts
  retry_eq : s.failureState.retryAt = retryIn s.log
  uncounted : s.failureState.error = none → countedIn s.log = 0
  unstable_le : ∀ t ∈ unstableIn s.log, t ≤ s.now
  since : ∀ since ∈ s.failureState.stableSince, since ≤ s.now ∧ ∀ t ∈ unstableIn s.log, t ≤ since
  traced : Traced (ReactorEvent.Right thresholds) s.log

theorem sound_start : (start thresholds).Sound thresholds where
  settings := ⟨rfl, rfl, rfl⟩
  attempts_eq := rfl
  attempts_le := Nat.zero_le _
  attempting := by
    intro h
    cases h
  retry_eq := rfl
  uncounted := fun _ => rfl
  unstable_le := by simp [unstableIn, start]
  since := by simp [start]
  traced := traced_nil

namespace Sound

variable (h : s.Sound thresholds)
include h

theorem expire : s.expire.Sound thresholds := by
  unfold ControllerReactor.expire
  rw [FailureState.expire_eq]
  split_ifs with elapsed
  · obtain ⟨since, stable, long⟩ := elapsed
    obtain ⟨-, before⟩ := h.since since stable
    refine ⟨⟨h.settings.after, h.settings.limit, h.settings.period⟩, ?_, Nat.zero_le _,
      fun _ => thresholds.recoveryAttempts_pos, ?_, ?_, ?_, ?_, h.traced.snoc ?_⟩
    · simp [note, ReactorEvent.attempts]
    · simpa [note, ReactorEvent.retry] using h.retry_eq
    · simpa [note, ReactorEvent.failures] using h.uncounted
    · simpa [note, ReactorEvent.unstable] using h.unstable_le
    · simpa [note, ReactorEvent.unstable] using h.since
    · intro t mem
      have := before t mem
      rw [h.settings.period] at long
      linarith
  · exact h

theorem delay (retryAt : ℚ) : (s.delay retryAt).Sound thresholds := by
  unfold ControllerReactor.delay
  refine ⟨⟨h.settings.after, h.settings.limit, h.settings.period⟩, ?_, h.attempts_le, h.attempting, ?_, ?_, ?_, ?_,
    h.traced.snoc trivial⟩
  · simpa [note, ReactorEvent.attempts] using h.attempts_eq
  · simp [note, ReactorEvent.retry]
  · simpa [note, ReactorEvent.failures] using h.uncounted
  · simpa [note, ReactorEvent.unstable] using h.unstable_le
  · simpa [note, ReactorEvent.unstable] using h.since

/-- Something is recorded from which the stable period counts. -/
theorem recorded {failureState : FailureState} (settings : failureState.Has thresholds)
    (attempts : failureState.attempts = event.attempts s.failureState.attempts)
    (bounded : failureState.attempts ≤ thresholds.recoveryAttempts)
    (attempting : s.procedure = some (.recover false) → failureState.attempts < thresholds.recoveryAttempts)
    (retry : failureState.retryAt = s.failureState.retryAt) (kept : event.retry s.failureState.retryAt = s.failureState.retryAt)
    (uncounted : failureState.error = none → event.failures (countedIn s.log) = 0)
    (stable : failureState.stableSince = some s.now) (time : event.unstable = some s.now)
    (right : event.Right thresholds s.log) : ({ s with failureState }.note event).Sound thresholds where
  settings := settings
  attempts_eq := by
    show failureState.attempts = attemptsIn (s.log ++ [event])
    rw [attemptsIn_snoc, ← h.attempts_eq, attempts]
  attempts_le := bounded
  attempting := attempting
  retry_eq := by
    show failureState.retryAt = retryIn (s.log ++ [event])
    rw [retryIn_snoc, ← h.retry_eq, kept, retry]
  uncounted := by
    intro none
    show countedIn (s.log ++ [event]) = 0
    rw [countedIn_snoc]
    exact uncounted none
  unstable_le := by
    intro t mem
    rcases mem_unstableIn_snoc.1 mem with before | here
    · exact h.unstable_le t before
    · cases time.symm.trans here
      exact le_rfl
  since := by
    intro since mem
    obtain rfl : s.now = since := Option.some.inj (stable.symm.trans mem)
    refine ⟨le_rfl, fun t mem => ?_⟩
    rcases mem_unstableIn_snoc.1 mem with before | here
    · exact h.unstable_le t before
    · cases time.symm.trans here
      exact le_rfl
  traced := h.traced.snoc right

theorem countFailure (first : s.failureState.error = none) (message : String) :
    (s.countFailure message).Sound thresholds :=
  h.recorded ⟨h.settings.after, h.settings.limit, h.settings.period⟩ rfl h.attempts_le h.attempting rfl rfl
    (fun none => by cases none) rfl rfl (h.uncounted first)

theorem countInitial : s.countInitial.Sound thresholds :=
  h.recorded ⟨h.settings.after, h.settings.limit, h.settings.period⟩ rfl h.attempts_le h.attempting rfl rfl
    h.uncounted rfl rfl trivial

theorem endAttempt (failures : ℕ) (recovered : Bool) (below : s.failureState.attempts < thresholds.recoveryAttempts)
    (done : s.procedure = none) : (s.endAttempt failures recovered).Sound thresholds := by
  refine h.recorded ⟨h.settings.after, h.settings.limit, h.settings.period⟩ rfl below ?_ rfl rfl h.uncounted rfl rfl ?_
  · intro running
    rw [done] at running
    cases running
  · show attemptsIn s.log < thresholds.recoveryAttempts
    rwa [← h.attempts_eq]

theorem failEmergency : s.failEmergency.Sound thresholds :=
  h.recorded ⟨h.settings.after, h.settings.limit, h.settings.period⟩ rfl (Nat.zero_le _)
    (fun _ => thresholds.recoveryAttempts_pos) rfl rfl h.uncounted rfl rfl trivial

theorem unsettle : s.unsettle.Sound thresholds where
  settings := ⟨h.settings.after, h.settings.limit, h.settings.period⟩
  attempts_eq := h.attempts_eq
  attempts_le := h.attempts_le
  attempting := h.attempting
  retry_eq := h.retry_eq
  uncounted := h.uncounted
  unstable_le := h.unstable_le
  since := by
    intro since mem
    obtain rfl : s.now = since := Option.some.inj mem
    exact ⟨le_rfl, h.unstable_le⟩
  traced := h.traced

/-- The reactor leaves its procedure, or takes time. -/
theorem frame {running achievedOnce : Bool} {procedure : Option LifecycleProcedure} {settleWait : Option (ℕ × ℚ)} {now : ℚ}
    (attempting : procedure = some (.recover false) → s.procedure = procedure) (later : s.now ≤ now) :
    ({ s with running, procedure, achievedOnce, settleWait, now } : ControllerReactor).Sound thresholds where
  settings := h.settings
  attempts_eq := h.attempts_eq
  attempts_le := h.attempts_le
  attempting := fun recovers => h.attempting ((attempting recovers).trans recovers)
  retry_eq := h.retry_eq
  uncounted := h.uncounted
  unstable_le := fun t mem => (h.unstable_le t mem).trans later
  since := fun since mem => ⟨(h.since since mem).1.trans later, (h.since since mem).2⟩
  traced := h.traced

theorem endEmergency : s.endEmergency.Sound thresholds := by
  unfold ControllerReactor.endEmergency
  refine ⟨⟨h.settings.after, h.settings.limit, h.settings.period⟩, ?_, Nat.zero_le _,
    fun _ => thresholds.recoveryAttempts_pos, ?_, ?_, ?_, ?_, h.traced.snoc trivial⟩
  · simp [note, ReactorEvent.attempts, FailureState.clear]
  · simp [note, ReactorEvent.retry, FailureState.clear]
  · simpa [note, ReactorEvent.failures, FailureState.clear] using h.uncounted
  · simpa [note, ReactorEvent.unstable] using h.unstable_le
  · simp [note, FailureState.clear]

/-- A procedure is started. -/
theorem startProcedure {procedure : LifecycleProcedure} (demand : InternalControllerState)
    (right : (ReactorEvent.started procedure demand s.now).Right thresholds s.log)
    (attempting : procedure = .recover false → s.failureState.attempts < thresholds.recoveryAttempts) :
    (s.startProcedure procedure demand).Sound thresholds := by
  unfold ControllerReactor.startProcedure
  refine ⟨⟨h.settings.after, h.settings.limit, h.settings.period⟩, ?_, h.attempts_le, ?_, ?_, ?_, ?_, ?_,
    h.traced.snoc right⟩
  · simpa [note, ReactorEvent.attempts, FailureState.beginProcedure] using h.attempts_eq
  · intro running
    exact attempting (Option.some.inj running)
  · simp [note, ReactorEvent.retry, FailureState.beginProcedure]
  · simp [note, ReactorEvent.failures]
  · simpa [note, ReactorEvent.unstable] using h.unstable_le
  · simpa [note, ReactorEvent.unstable, FailureState.beginProcedure] using h.since

theorem settling [DecidableEq K] (inputs : Inputs K) (actual : ControllerOperatingState K) :
    (s.settling inputs actual).1.Sound thresholds ∧ (s.settling inputs actual).1.failureState = s.failureState ∧
      (s.settling inputs actual).1.now = s.now := by
  unfold ControllerReactor.settling
  cases inputs.execution with
  | none => exact ⟨h, rfl, rfl⟩
  | some execution =>
    dsimp only
    split
    · exact ⟨h, rfl, rfl⟩
    · exact ⟨h.frame (fun _ => rfl) le_rfl, rfl, rfl⟩

theorem dispatch [DecidableEq K] (inputs : Inputs K) (actual : ControllerOperatingState K)
    (state : InternalControllerState) : (s.dispatch inputs actual state).Sound thresholds := by
  have expired := h.expire
  unfold ControllerReactor.dispatch
  dsimp only
  generalize s.expire = s at expired ⊢
  by_cases due : s.failureState.recoveryDue = true
  · rw [if_pos due]
    split_ifs with waits
    · exact expired
    · have limit : s.failureState.emergencyDue = true ↔ thresholds.recoveryAttempts ≤ s.failureState.attempts := by
        unfold FailureState.emergencyDue
        rw [due, expired.settings.limit]
        simp
      have bound := expired.attempts_le
      refine expired.startProcedure state ⟨fun emergency same => ?_, fun _ retryAt mem => ?_⟩ fun same => ?_
      · obtain rfl := LifecycleProcedure.recover.inj same
        rw [limit, ← expired.attempts_eq]
        omega
      · exact FailureState.le_of_not_waiting waits retryAt (expired.retry_eq ▸ mem)
      · have := LifecycleProcedure.recover.inj same
        rw [← Bool.not_eq_true, limit] at this
        omega
  · rw [if_neg due]
    split_ifs with waits settles
    · exact expired
    · exact (expired.settling inputs actual).1
    · obtain ⟨settled, sameState, sameTime⟩ := expired.settling inputs actual
      have apart (emergency : Bool) : LifecycleProcedure.demanded state ≠ .recover emergency := by simp
      refine settled.startProcedure state ⟨fun emergency same => absurd same (apart emergency),
        fun other retryAt mem => ?_⟩ fun same => absurd same (apart false)
      have waiting : ¬ (s.failureState.waiting s.now).isSome = true := by
        intro waiting
        refine waits ⟨?_, waiting⟩
        rintro rfl
        exact other rfl
      rw [sameTime]
      rw [← settled.retry_eq, sameState] at mem
      exact FailureState.le_of_not_waiting waiting retryAt mem

end Sound

end ControllerReactor

end SensorKit.Auto
