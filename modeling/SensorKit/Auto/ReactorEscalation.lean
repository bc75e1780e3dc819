import Mathlib.Algebra.Order.Archimedean.Basic
import SensorKit.Auto.ReactorSound

/-!
# Escalation after a recovery

`record_recovery` leaves one failure counted, whatever the setting, and says that another failure within the stable
period triggers recovery again. That is so with the setting of two failures: with one, recovery stays due after it
has succeeded, and with more another failure is not enough.
-/

namespace SensorKit.Auto

open Lib SensorKit.Core

variable {K : Type} {thresholds : Thresholds} {log : List ReactorEvent} {event : ReactorEvent}
  {s s' : ControllerReactor} {t retryAt : ℚ} {procedure : LifecycleProcedure}

/-- What an event says is right after a recovery before which no other failure was counted. -/
def ReactorEvent.Resumes (thresholds : Thresholds) (log : List ReactorEvent) : ReactorEvent → Prop
  | .started procedure demand _ => ∀ before t since, log = before ++ .attempt true t :: since →
      (∀ e ∈ since, e.counts = false) → procedure = .demanded demand
  | .failure time due => ∀ before t since, log = before ++ .attempt true t :: since →
      (∀ e ∈ since, e.counts = false) → time - t < thresholds.stablePeriod → due = true
  | _ => True

namespace ControllerReactor

/-- After a recovery at a time, no recovery is due, and one failure is left unless the stable period has passed. -/
structure Quiet (t : ℚ) (s : ControllerReactor) : Prop where
  failures_le : s.failureState.failures ≤ 1
  fresh : s.failureState.failures = 1 ∨ s.failureState.stablePeriod ≤ s.now - t
  ordinary : ∀ emergency, s.procedure ≠ some (.recover emergency)

/-- After each recovery since which no failure was counted, it is quiet. -/
structure Resumes (thresholds : Thresholds) (s : ControllerReactor) : Prop where
  sound : s.Sound thresholds
  quiet : ∀ before t since, s.log = before ++ .attempt true t :: since → (∀ e ∈ since, e.counts = false) → s.Quiet t
  traced : Traced (ReactorEvent.Resumes thresholds) s.log

namespace Resumes

theorem mem_unstable {before since : List ReactorEvent} (split : log = before ++ .attempt true t :: since) :
    t ∈ unstableIn log := by
  rw [split]
  simp [unstableIn, ReactorEvent.unstable]

variable (h : s.Resumes thresholds)
include h

/-- What is quiet stays so, where only the failure state and the like change. -/
theorem kept (sound : s'.Sound thresholds) (same : s'.log = s.log)
    (quiet : ∀ t ∈ unstableIn s.log, s.Quiet t → s'.Quiet t) : s'.Resumes thresholds where
  sound := sound
  quiet := by
    intro before t since split uncounted
    rw [same] at split
    exact quiet t (mem_unstable split) (h.quiet before t since split uncounted)
  traced := same ▸ h.traced

/-- An event is logged that counts no failure. -/
theorem noted (sound : s'.Sound thresholds) (logged : s'.log = s.log ++ [event])
    (right : event.Resumes thresholds s.log) (quiet : ∀ t ∈ unstableIn s.log, s.Quiet t → s'.Quiet t)
    (recovered : ∀ t, event = .attempt true t → s'.Quiet t) : s'.Resumes thresholds where
  sound := sound
  quiet := by
    intro before t since split uncounted
    rw [logged] at split
    rcases split_snoc split with ⟨same, -, -⟩ | ⟨earlier, rfl, there⟩
    · exact recovered t same.symm
    · exact quiet t (mem_unstable there)
        (h.quiet before t earlier there fun e mem => uncounted e (List.mem_append_left _ mem))
  traced := by
    rw [logged]
    exact h.traced.snoc right

/-- A failure is counted. -/
theorem counted (sound : s'.Sound thresholds) (logged : s'.log = s.log ++ [event]) (counts : event.counts = true)
    (right : event.Resumes thresholds s.log) : s'.Resumes thresholds where
  sound := sound
  quiet := by
    intro before t since split uncounted
    rw [logged] at split
    rcases split_snoc split with ⟨same, -, -⟩ | ⟨earlier, rfl, -⟩
    · rw [← same] at counts
      cases counts
    · rw [uncounted event (by simp)] at counts
      cases counts
  traced := by
    rw [logged]
    exact h.traced.snoc right

theorem expire : s.expire.Resumes thresholds := by
  have sound := h.sound.expire
  by_cases elapsed : s.failureState.Elapsed s.now
  · have expired : s.expire = { s with failureState := { s.failureState with failures := 0, attempts := 0 } }.note
        (.expired s.now) := by
      unfold ControllerReactor.expire
      rw [FailureState.expire_eq, if_pos elapsed, if_pos elapsed]
    rw [expired] at sound ⊢
    refine h.noted sound rfl trivial (fun t mem quiet => ?_) fun t same => by cases same
    obtain ⟨since, stable, long⟩ := elapsed
    have before := (h.sound.since since stable).2 t mem
    refine ⟨Nat.zero_le _, .inr ?_, quiet.ordinary⟩
    show s.failureState.stablePeriod ≤ s.now - t
    linarith
  · rw [expire_of_fresh elapsed]
    exact h

theorem delay (retryAt : ℚ) : (s.delay retryAt).Resumes thresholds :=
  h.noted (h.sound.delay retryAt) rfl trivial (fun _ _ quiet => ⟨quiet.failures_le, quiet.fresh, quiet.ordinary⟩)
    fun _ same => by cases same

/-- The reactor leaves its procedure, or takes time. -/
theorem frame {running achievedOnce : Bool} {procedure : Option LifecycleProcedure} {settleWait : Option (ℕ × ℚ)}
    {now : ℚ} (left : procedure = none ∨ procedure = s.procedure) (later : s.now ≤ now) :
    ({ s with running, procedure, achievedOnce, settleWait, now } : ControllerReactor).Resumes thresholds := by
  refine h.kept (h.sound.frame (fun same => ?_) later) rfl fun t _ quiet => ⟨quiet.failures_le, ?_, fun emergency same => ?_⟩
  · rcases left with rfl | rfl
    · cases same
    · rfl
  · refine quiet.fresh.imp_right fun long => ?_
    show s.failureState.stablePeriod ≤ now - t
    linarith
  · rcases left with rfl | rfl
    · cases same
    · exact quiet.ordinary emergency same

/-- A failure that follows a recovery within the stable period makes recovery due. -/
theorem countFailure (two : thresholds.recoverAfterFailures = 2) (first : s.failureState.error = none)
    (message : String) : (s.countFailure message).Resumes thresholds := by
  refine h.counted (h.sound.countFailure first message) rfl rfl ?_
  intro before t since split uncounted soon
  have quiet := h.quiet before t since split uncounted
  rcases quiet.fresh with one | long
  · unfold FailureState.recoveryDue
    dsimp only
    rw [h.sound.settings.after, two, one]
    rfl
  · rw [h.sound.settings.period] at long
    linarith

theorem recordFailure (two : thresholds.recoverAfterFailures = 2) (message : String) :
    (s.recordFailure message).Resumes thresholds := by
  cases uncounted : s.failureState.error with
  | some error =>
    rw [recordFailure_of_error uncounted]
    exact h
  | none =>
    have first : s.expire.failureState.error = none := by
      rw [expire_failureState, FailureState.expire_eq]
      split_ifs <;> exact uncounted
    have counted := h.expire.countFailure two first message
    rw [recordFailure_eq uncounted]
    dsimp only
    split_ifs
    · exact counted
    · exact counted.delay _

theorem recordInitialError : s.recordInitialError.Resumes thresholds := by
  have expired := h.expire
  rw [recordInitialError_eq]
  split_ifs
  · exact expired.counted expired.sound.countInitial rfl rfl trivial
  · exact expired.kept expired.sound.unsettle rfl fun t _ quiet => ⟨quiet.failures_le, quiet.fresh, quiet.ordinary⟩

section

variable (below : s.failureState.attempts < thresholds.recoveryAttempts) (done : s.procedure = none)
include below done

theorem recover : (s.endAttempt 1 true).Resumes thresholds := by
  have quiet (t : ℚ) : (s.endAttempt 1 true).Quiet t :=
    ⟨le_rfl, .inl rfl, fun emergency same => by cases done.symm.trans same⟩
  exact h.noted (h.sound.endAttempt 1 true below done) rfl trivial (fun t _ _ => quiet t) fun t _ => quiet t

theorem fail : (s.endAttempt s.failureState.failures false).Resumes thresholds :=
  h.noted (h.sound.endAttempt s.failureState.failures false below done) rfl trivial
    (fun _ _ quiet => ⟨quiet.failures_le, quiet.fresh, quiet.ordinary⟩) fun _ same => by cases same

end

theorem failEmergency : s.failEmergency.Resumes thresholds :=
  h.noted h.sound.failEmergency rfl trivial
    (fun _ _ quiet => ⟨quiet.failures_le, quiet.fresh, quiet.ordinary⟩) fun _ same => by cases same

theorem count (two : thresholds.recoverAfterFailures = 2) {outcome : Outcome}
    (ends : procedure.Ends outcome)
    (attempting : procedure = .recover false → s.failureState.attempts < thresholds.recoveryAttempts)
    (done : s.procedure = none) : (s.count procedure outcome).Resumes thresholds := by
  rcases count_cases (s := s) procedure outcome with same | ⟨recovered, retryAt, same⟩ | ⟨failed, same | ⟨retryAt, same⟩⟩ |
    ⟨-, retryAt, same⟩ | ⟨message, same⟩ | ⟨retryAt, same⟩
  all_goals rw [same]
  · exact h
  · exact (h.recover (attempting (ends.1 recovered)) done).delay retryAt
  · exact h.fail (attempting failed) done
  · exact (h.fail (attempting failed) done).delay retryAt
  · exact h.failEmergency.delay retryAt
  · exact h.recordFailure two message
  · exact h.delay retryAt

theorem release : s.release.Resumes thresholds :=
  h.frame (.inl rfl) le_rfl

theorem conclude (two : thresholds.recoverAfterFailures = 2) {outcome : Outcome}
    (running : s.procedure = some procedure) (ends : procedure.Ends outcome) :
    ({ s with procedure := none }.conclude procedure outcome).1.Resumes thresholds := by
  have attempting (same : procedure = .recover false) : s.failureState.attempts < thresholds.recoveryAttempts :=
    h.sound.attempting (running.trans (congrArg some same))
  have achieved : ({ s with procedure := none, achievedOnce := s.achievedOnce || outcome.commanded } :
    ControllerReactor).Resumes thresholds := h.frame (.inl rfl) le_rfl
  unfold ControllerReactor.conclude
  dsimp only
  split
  · exact achieved
  · split
    · exact achieved
    · -- Nothing has been quiet while an emergency shutdown ran.
      exact h.noted achieved.sound.endEmergency rfl trivial
        (fun _ _ quiet => absurd running (quiet.ordinary _)) fun _ same => by cases same
    · exact achieved.count two ends attempting rfl

/-- A procedure is started, but for recovery where it is quiet. -/
theorem startProcedure {demand : InternalControllerState}
    (sound : (s.startProcedure procedure demand).Sound thresholds)
    (needed : procedure = .demanded demand ∨ 1 < s.failureState.failures) :
    (s.startProcedure procedure demand).Resumes thresholds := by
  refine h.noted sound rfl ?_ (fun t _ quiet => ?_) fun _ same => by cases same
  · intro before t since split uncounted
    rcases needed with ordinary | many
    · exact ordinary
    · have := (h.quiet before t since split uncounted).failures_le
      omega
  · refine ⟨quiet.failures_le, quiet.fresh, fun emergency same => ?_⟩
    rcases needed with rfl | many
    · cases same
    · have := quiet.failures_le
      omega

section

variable (two : thresholds.recoverAfterFailures = 2)
include two

theorem dispatch [DecidableEq K] (inputs : Inputs K) (actual : ControllerOperatingState K)
    (state : InternalControllerState) : (s.dispatch inputs actual state).Resumes thresholds := by
  have sound := h.sound.dispatch inputs actual state
  have expired := h.expire
  unfold ControllerReactor.dispatch at sound ⊢
  dsimp only at sound ⊢
  generalize s.expire = s at expired sound ⊢
  by_cases due : s.failureState.recoveryDue = true
  · rw [if_pos due] at sound ⊢
    split_ifs at sound ⊢
    · exact expired
    · refine expired.startProcedure sound (.inr ?_)
      unfold FailureState.recoveryDue at due
      rw [expired.sound.settings.after, two, decide_eq_true_eq] at due
      omega
  · rw [if_neg due] at sound ⊢
    have settled : (s.settling inputs actual).1.Resumes thresholds := by
      unfold settling
      cases inputs.execution with
      | none => exact expired
      | some execution =>
        dsimp only
        split
        · exact expired
        · exact expired.frame (.inr rfl) le_rfl
    split_ifs at sound ⊢
    · exact expired
    · exact settled
    · exact settled.startProcedure sound (.inl rfl)

theorem proceed [DecidableEq K] (inputs : Inputs K) : (s.proceed inputs).Resumes thresholds := by
  unfold ControllerReactor.proceed
  split
  · exact h.release
  · split
    · exact h
    · split_ifs
      · exact h.release
      · split
        · exact h
        · exact h.dispatch two inputs _ _

theorem evaluate [DecidableEq K] {inputs : Inputs K} (hs : s.evaluate inputs = some s') : s'.Resumes thresholds := by
  unfold ControllerReactor.evaluate at hs
  split at hs
  · cases hs
    exact h.proceed two inputs
  · cases hs
  · rename_i procedure outcome running ended
    split_ifs at hs with ends
    cases hs
    have concluded := h.conclude two running ends
    dsimp only
    split_ifs
    · exact concluded.release
    · exact concluded.proceed two inputs

theorem step [DecidableEq K] {label : ReactorLabel K} (hs : s.step label = some s') : s'.Resumes thresholds := by
  cases label with
  | elapse d =>
    simp only [ControllerReactor.step] at hs
    split_ifs at hs with nonneg
    cases hs
    exact h.frame (.inr rfl) (by linarith)
  | failure message =>
    cases hs
    exact h.recordFailure two message
  | run actual =>
    simp only [ControllerReactor.step] at hs
    split_ifs at hs
    cases hs
    have started : ({ s with running := true, procedure := none, achievedOnce := false, settleWait := none } :
        ControllerReactor).Resumes thresholds := h.frame (.inl rfl) le_rfl
    unfold ControllerReactor.run
    dsimp only
    split_ifs
    · exact started.recordInitialError
    · exact started
  | evaluate inputs =>
    simp only [ControllerReactor.step] at hs
    split_ifs at hs
    exact h.evaluate two hs
  | release =>
    simp only [ControllerReactor.step] at hs
    split_ifs at hs
    cases hs
    exact h.release

end

end Resumes

theorem resumes_start : (start thresholds).Resumes thresholds where
  sound := sound_start
  quiet := by
    intro before t since split
    simp [start] at split
  traced := traced_nil

end ControllerReactor

/-! ## What holds of every log -/

theorem countedIn_le (traced : Traced (ReactorEvent.Right thresholds) log) : countedIn log ≤ 1 := by
  induction log using List.reverseRecOn with
  | nil => exact Nat.zero_le _
  | append_singleton log event ih =>
    have before := ih traced.of_append
    have right : event.Right thresholds log := traced.split
    rw [countedIn_snoc]
    cases event with
    | failure time due =>
      have : countedIn log = 0 := right
      simp [ReactorEvent.failures, this]
    | started _ _ _ => exact Nat.zero_le _
    | _ => exact before

theorem attemptsIn_le (traced : Traced (ReactorEvent.Right thresholds) log) :
    attemptsIn log ≤ thresholds.recoveryAttempts := by
  induction log using List.reverseRecOn with
  | nil => exact Nat.zero_le _
  | append_singleton log event ih =>
    have before := ih traced.of_append
    have right : event.Right thresholds log := traced.split
    rw [attemptsIn_snoc]
    cases event with
    | attempt recovered time => exact right
    | expired _ => exact Nat.zero_le _
    | emergencyFailed _ => exact Nat.zero_le _
    | emergencySucceeded _ => exact Nat.zero_le _
    | _ => exact before

/-- **Recovery escalates exactly.** -/
structure Escalates (thresholds : Thresholds) (log : List ReactorEvent) : Prop where
  /-- A procedure contributes at most one counted failure. -/
  single : ∀ before after, log = before ++ after → countedIn before ≤ 1
  /-- After a successful recovery the next command is the demanded one unless another failure was counted. -/
  resumes : ∀ before t since procedure demand time after,
    log = before ++ .attempt true t :: since ++ .started procedure demand time :: after →
      (∀ e ∈ since, e.counts = false ∧ e.starts = false) → procedure = .demanded demand
  /-- One more failure within the stable period makes recovery due again. -/
  recurs : ∀ before t since time due after,
    log = before ++ .attempt true t :: since ++ .failure time due :: after →
      (∀ e ∈ since, e.counts = false) → time - t < thresholds.stablePeriod → due = true
  /-- Between resets no more recovery attempts complete than there may be. -/
  bounded : ∀ before after, log = before ++ after → attemptsIn before ≤ thresholds.recoveryAttempts
  /-- When they have completed, and only then, the next recovery command is an emergency shutdown. -/
  exhausts : ∀ before emergency demand time after,
    log = before ++ .started (.recover emergency) demand time :: after →
      (emergency = true ↔ attemptsIn before = thresholds.recoveryAttempts)
  /-- The counts expire once the stable period has passed without a failure or a recovery attempt. -/
  expires : ∀ before time after, log = before ++ .expired time :: after →
    ∀ t ∈ unstableIn before, thresholds.stablePeriod ≤ time - t
  /-- No command other than a demanded shutdown outside recovery is started before a scheduled retry time. -/
  waits : ∀ before procedure demand time after, log = before ++ .started procedure demand time :: after →
    procedure ≠ .demanded .shutdown → ∀ retryAt ∈ retryIn before, retryAt ≤ time

theorem ControllerReactor.Resumes.escalates (h : s.Resumes thresholds) : Escalates thresholds s.log where
  single := by
    intro before after split
    exact countedIn_le (split ▸ h.sound.traced).of_append
  resumes := by
    intro before t since procedure demand time after split calm
    have traced := h.traced
    rw [split] at traced
    exact traced.split before t since rfl fun e mem => (calm e mem).1
  recurs := by
    intro before t since time due after split uncounted soon
    have traced := h.traced
    rw [split] at traced
    exact traced.split before t since rfl uncounted soon
  bounded := by
    intro before after split
    exact attemptsIn_le (split ▸ h.sound.traced).of_append
  exhausts := by
    intro before emergency demand time after split
    have traced := h.sound.traced
    rw [split] at traced
    exact traced.split.1 emergency rfl
  expires := by
    intro before time after split
    have traced := h.sound.traced
    rw [split] at traced
    exact traced.split
  waits := by
    intro before procedure demand time after split
    have traced := h.sound.traced
    rw [split] at traced
    exact traced.split.2

/-! ## Other settings -/

section Settings

variable [DecidableEq K] [Inhabited K]

namespace ControllerReactor

/-- An evaluation with a demand, of a controller that operates. -/
def inputsOf (K : Type) [Inhabited K] (state : Option InternalControllerState) (outcome : Option Outcome) : Inputs K where
  demand := { state }
  lifecycleContext := default
  actual := some { current := .operate, context := default }
  outcome

omit [Inhabited K] in
theorem step_evaluate (running : s.running = true) {inputs : Inputs K} : s.step (.evaluate inputs) = s.evaluate inputs :=
  if_pos running

omit [DecidableEq K] [Inhabited K] in
/-- Nothing expires at the moment from which the stable period counts. -/
theorem not_elapsed (positive : 0 < s.failureState.stablePeriod)
    (stable : ∀ since ∈ s.failureState.stableSince, since = s.now) : ¬ s.failureState.Elapsed s.now := by
  rintro ⟨since, mem, long⟩
  rw [stable since mem] at long
  linarith

/-- A demanded shutdown is started at once unless recovery is due. -/
theorem evaluate_shutdown (idle : s.procedure = none) (fresh : ¬ s.failureState.Elapsed s.now)
    (spared : s.failureState.recoveryDue = false) : s.evaluate (inputsOf K (some .shutdown) none) =
      some (s.startProcedure (.demanded .shutdown) .shutdown) := by
  simp [evaluate, proceed, dispatch, settling, inputsOf, idle, expire_of_fresh fresh, spared]

/-- Recovery is started once it is due and no delay remains. -/
theorem evaluate_recover (idle : s.procedure = none) (fresh : ¬ s.failureState.Elapsed s.now)
    (due : s.failureState.recoveryDue = true) (ready : ∀ retryAt ∈ s.failureState.retryAt, retryAt ≤ s.now) :
    s.evaluate (inputsOf K (some .shutdown) none) =
      some (s.startProcedure (.recover s.failureState.emergencyDue) .shutdown) := by
  have passed : s.failureState.waiting s.now = none := by
    unfold FailureState.waiting
    rw [Option.filter_eq_none_iff]
    intro retryAt mem
    simpa using ready retryAt mem
  simp [evaluate, proceed, dispatch, inputsOf, idle, expire_of_fresh fresh, due, passed]

/-- The demanded procedure ends without an error. -/
theorem evaluate_ended {state : InternalControllerState} (running : s.procedure = some (.demanded state)) :
    s.evaluate (inputsOf K none (some {})) = some { s with procedure := none } := by
  simp [evaluate, proceed, conclude, count, inputsOf, running, LifecycleProcedure.Ends]

/-- A recovery attempt succeeds. -/
theorem evaluate_recovered (running : s.procedure = some (.recover false)) :
    s.evaluate (inputsOf K none (some { recovered := true })) =
      some (({ s with procedure := none }.endAttempt 1 true).delay (s.now + s.failureState.retryDelay)) := by
  simp [evaluate, proceed, conclude, count, inputsOf, running, LifecycleProcedure.Ends, schedule, endAttempt, delay, note,
    FailureState.recordRecovery]

/-- So many demanded shutdowns have failed at the start. -/
structure Failing (thresholds : Thresholds) (n : ℕ) (s : ControllerReactor) : Prop where
  settings : s.failureState.Has thresholds
  running : s.running = true
  idle : s.procedure = none
  now : s.now = 0
  failures : s.failureState.failures = n
  attempts : s.failureState.attempts = 0
  stable : ∀ since ∈ s.failureState.stableSince, since = s.now
  ready : n = thresholds.recoverAfterFailures → s.failureState.retryAt = none

omit [DecidableEq K] [Inhabited K] in
theorem Failing.fresh {n : ℕ} (h : Failing thresholds n s) : ¬ s.failureState.Elapsed s.now :=
  not_elapsed (h.settings.period ▸ thresholds.stablePeriod_pos) h.stable

theorem Failing.next {n : ℕ} (h : Failing thresholds n s) (below : n < thresholds.recoverAfterFailures) :
    ∃ s', Reaches (step (K := K)) always s s' ∧ Failing thresholds (n + 1) s' := by
  have spared : s.failureState.recoveryDue = false := by
    unfold FailureState.recoveryDue
    rw [h.settings.after, h.failures]
    simpa using below
  let started := s.startProcedure (.demanded .shutdown) .shutdown
  have starts : s.step (.evaluate (inputsOf K (some .shutdown) none)) = some started := by
    rw [step_evaluate h.running]
    exact evaluate_shutdown h.idle h.fresh spared
  have still : started.expire = started := expire_of_fresh h.fresh
  let counted := started.countFailure "fault"
  let failed := if counted.failureState.recoveryDue then counted
    else counted.delay (started.now + counted.failureState.retryDelay)
  have fails : started.step (.failure "fault" : ReactorLabel K) = some failed := by
    simp only [step]
    rw [recordFailure_eq (s := started) rfl, still]
  have busy : failed.running = true ∧ failed.procedure = some (.demanded .shutdown) := by
    dsimp only [failed]
    split_ifs <;> exact ⟨h.running, rfl⟩
  have ends : failed.step (.evaluate (inputsOf K none (some {}))) = some { failed with procedure := none } := by
    rw [step_evaluate busy.1]
    exact evaluate_ended busy.2
  refine ⟨{ failed with procedure := none },
    .tail (.tail (.tail (.refl s) trivial starts) trivial fails) trivial ends, ?_⟩
  have one_more : counted.failureState.failures = n + 1 := congrArg Nat.succ h.failures
  have settings : counted.failureState.Has thresholds := ⟨h.settings.after, h.settings.limit, h.settings.period⟩
  have stable : ∀ since ∈ counted.failureState.stableSince, since = counted.now :=
    fun since mem => (Option.some.inj mem).symm
  have due : counted.failureState.recoveryDue = true ↔ thresholds.recoverAfterFailures ≤ n + 1 := by
    unfold FailureState.recoveryDue
    rw [settings.after, one_more, decide_eq_true_eq]
  dsimp only [failed]
  split_ifs with now
  · exact ⟨settings, h.running, rfl, h.now, one_more, h.attempts, stable, fun _ => rfl⟩
  · refine ⟨⟨settings.after, settings.limit, settings.period⟩, h.running, rfl, h.now, one_more, h.attempts, stable,
      fun last => absurd (due.2 (by omega)) now⟩

/-- A recovery has succeeded at the start, after as many failures as it takes. -/
structure Recovered (thresholds : Thresholds) (retryAt : ℚ) (s : ControllerReactor) : Prop where
  settings : s.failureState.Has thresholds
  running : s.running = true
  idle : s.procedure = none
  failures : s.failureState.failures = 1
  stable : ∀ since ∈ s.failureState.stableSince, since = s.now
  uncounted : s.failureState.error = none
  ready : s.failureState.retryAt = some retryAt
  logged : ∃ before, s.log = before ++ [.attempt true 0, .scheduled retryAt]

omit [DecidableEq K] [Inhabited K] in
theorem Recovered.fresh (h : Recovered thresholds retryAt s) : ¬ s.failureState.Elapsed s.now :=
  not_elapsed (h.settings.period ▸ thresholds.stablePeriod_pos) h.stable

theorem Failing.recovers (h : Failing thresholds thresholds.recoverAfterFailures s) :
    ∃ s' retryAt, Reaches (step (K := K)) always s s' ∧ s'.now = 0 ∧ Recovered thresholds retryAt s' := by
  have due : s.failureState.recoveryDue = true := by
    unfold FailureState.recoveryDue
    rw [h.settings.after, h.failures, decide_eq_true_eq]
  have calm : s.failureState.emergencyDue = false := by
    unfold FailureState.emergencyDue
    rw [h.settings.limit, h.attempts, due]
    have := thresholds.recoveryAttempts_pos
    simp
    omega
  have ready : ∀ retryAt ∈ s.failureState.retryAt, retryAt ≤ s.now := by
    rw [h.ready rfl]
    intro retryAt mem
    cases mem
  let started := s.startProcedure (.recover false) .shutdown
  have starts : s.step (.evaluate (inputsOf K (some .shutdown) none)) = some started := by
    rw [step_evaluate h.running, evaluate_recover h.idle h.fresh due ready, calm]
  let recovered := ({ started with procedure := none }.endAttempt 1 true).delay
    (started.now + started.failureState.retryDelay)
  have ends : started.step (.evaluate (inputsOf K none (some { recovered := true }))) = some recovered := by
    rw [step_evaluate (s := started) h.running]
    exact evaluate_recovered rfl
  refine ⟨recovered, _, .tail (.tail (.refl s) trivial starts) trivial ends, h.now,
    ⟨h.settings.after, h.settings.limit, h.settings.period⟩, h.running, rfl, rfl,
    fun since mem => (Option.some.inj mem).symm, rfl, rfl, ?_⟩
  have logged : recovered.log = started.log ++ [.attempt true s.now] ++
      [.scheduled (started.now + started.failureState.retryDelay)] := rfl
  rw [logged, h.now, List.append_assoc]
  exact ⟨_, rfl⟩

/-- Recovery is reached with all settings. -/
theorem exists_recovered (thresholds : Thresholds) :
    ∃ s retryAt, Reaches (step (K := K)) always (start thresholds) s ∧ s.now = 0 ∧ Recovered thresholds retryAt s := by
  have failing (n : ℕ) (le : n ≤ thresholds.recoverAfterFailures) :
      ∃ s, Reaches (step (K := K)) always (start thresholds) s ∧ Failing thresholds n s := by
    induction n with
    | zero =>
      have runs : (start thresholds).step (.run { current := .operate, context := (default : K) }) =
          some { start thresholds with running := true } := rfl
      refine ⟨_, .single trivial runs, ⟨rfl, rfl, rfl⟩, rfl, rfl, rfl, rfl, rfl, ?_, fun _ => rfl⟩
      intro since mem
      cases mem
    | succ n ih =>
      obtain ⟨s, reached, failing⟩ := ih (by omega)
      obtain ⟨s', more, failing'⟩ := failing.next (K := K) (by omega)
      exact ⟨s', reached.trans more, failing'⟩
  obtain ⟨s, reached, failing⟩ := failing thresholds.recoverAfterFailures le_rfl
  obtain ⟨s', retryAt, more, now, recovered⟩ := failing.recovers (K := K)
  exact ⟨s', retryAt, reached.trans more, now, recovered⟩

omit [DecidableEq K] [Inhabited K] in
/-- With a setting of more than two, another failure after a recovery is not enough. -/
theorem Recovered.not_recurs (h : Recovered thresholds retryAt s) (now : s.now = 0)
    (many : 2 < thresholds.recoverAfterFailures) : ¬ Escalates thresholds (s.recordFailure "fault").log := by
  have two : (s.countFailure "fault").failureState.failures = 2 := congrArg Nat.succ h.failures
  have spared : (s.countFailure "fault").failureState.recoveryDue = false := by
    unfold FailureState.recoveryDue
    rw [two, decide_eq_false_iff_not]
    show ¬ s.failureState.recoverAfterFailures ≤ 2
    rw [h.settings.after]
    omega
  obtain ⟨before, logged⟩ := h.logged
  have log : (s.recordFailure "fault").log = before ++ .attempt true 0 :: [.scheduled retryAt] ++
      .failure 0 false :: [.scheduled (s.now + s.failureState.retryDelay)] := by
    rw [recordFailure_eq h.uncounted, expire_of_fresh h.fresh]
    dsimp only
    rw [if_neg (by simp [spared])]
    show s.log ++ [.failure s.now (s.countFailure "fault").failureState.recoveryDue] ++ [.scheduled _] = _
    rw [spared, now, logged]
    simp [countFailure, note]
  intro escalates
  have due := escalates.recurs before 0 [.scheduled retryAt] 0 false _ log (by simp [ReactorEvent.counts])
    (by simpa using thresholds.stablePeriod_pos)
  cases due

/-- A reactor is restarted within the stable period, and finds the controller in error. -/
theorem Recovered.restart (h : Recovered thresholds retryAt s) :
    ∃ s', Reaches (step (K := K)) always s s' ∧ s'.now = s.now + thresholds.stablePeriod / 2 ∧
      Recovered thresholds retryAt s' := by
  have positive := thresholds.stablePeriod_pos
  let later := { s.release with now := s.now + thresholds.stablePeriod / 2 }
  let restarted := { later with running := true, procedure := none, achievedOnce := false, settleWait := none }
  have releases : s.step (.release : ReactorLabel K) = some s.release := if_pos h.running
  have elapses : s.release.step (.elapse (thresholds.stablePeriod / 2) : ReactorLabel K) = some later := by
    simp only [step]
    rw [if_pos (by linarith)]
    rfl
  have fresh : ¬ restarted.failureState.Elapsed restarted.now := by
    rintro ⟨since, mem, long⟩
    have same : since = s.now := h.stable since mem
    have period : restarted.failureState.stablePeriod = thresholds.stablePeriod := h.settings.period
    have now : restarted.now = s.now + thresholds.stablePeriod / 2 := rfl
    rw [same, period, now] at long
    linarith
  have counted : ¬ restarted.failureState.failures = 0 := by
    show ¬ s.failureState.failures = 0
    rw [h.failures]
    omega
  have runs : later.step (.run { current := .error, context := (default : K) }) = some restarted.unsettle := by
    show some restarted.recordInitialError = some restarted.unsettle
    rw [recordInitialError_eq, expire_of_fresh fresh, if_neg counted]
  refine ⟨restarted.unsettle, .tail (.tail (.tail (.refl s) trivial releases) trivial elapses) trivial runs, rfl,
    ⟨h.settings.after, h.settings.limit, h.settings.period⟩, rfl, rfl, h.failures,
    fun since mem => (Option.some.inj mem).symm, h.uncounted, h.ready, h.logged⟩

/-- With a setting of one, recovery stays due after it has succeeded. -/
theorem Recovered.not_resumes (h : Recovered thresholds retryAt s) (late : retryAt ≤ s.now)
    (one : thresholds.recoverAfterFailures = 1) :
    ∃ s', Reaches (step (K := K)) always s s' ∧ ¬ Escalates thresholds s'.log := by
  have due : s.failureState.recoveryDue = true := by
    unfold FailureState.recoveryDue
    rw [h.settings.after, h.failures, one]
    rfl
  have ready : ∀ retryAt ∈ s.failureState.retryAt, retryAt ≤ s.now := by
    rw [h.ready]
    intro retryAt mem
    cases mem
    exact late
  let started := s.startProcedure (.recover s.failureState.emergencyDue) .shutdown
  have starts : s.step (.evaluate (inputsOf K (some .shutdown) none)) = some started := by
    rw [step_evaluate h.running, evaluate_recover h.idle h.fresh due ready]
  obtain ⟨before, logged⟩ := h.logged
  have log : started.log = before ++ .attempt true 0 :: [.scheduled retryAt] ++
      .started (.recover s.failureState.emergencyDue) .shutdown s.now :: [] := by
    show s.log ++ [_] = _
    rw [logged]
  refine ⟨started, .single trivial starts, fun escalates => ?_⟩
  cases escalates.resumes before 0 [.scheduled retryAt] _ _ _ [] log (by simp [ReactorEvent.counts, ReactorEvent.starts])

end ControllerReactor

open ControllerReactor

/-- **Recovery escalates exactly** in every run when two failures trigger recovery, and with no other setting. -/
theorem escalates_iff (thresholds : Thresholds) :
    (∀ s, Reaches (step (K := K)) always (start thresholds) s → Escalates thresholds s.log) ↔
      thresholds.recoverAfterFailures = 2 := by
  constructor
  · intro escalates
    obtain ⟨s, retryAt, reached, now, recovered⟩ := exists_recovered (K := K) thresholds
    have positive := thresholds.recoverAfterFailures_pos
    rcases Nat.lt_trichotomy thresholds.recoverAfterFailures 2 with few | two | many
    · exfalso
      have restarts (n : ℕ) : ∃ s', Reaches (step (K := K)) always s s' ∧
          s'.now = n * (thresholds.stablePeriod / 2) ∧ Recovered thresholds retryAt s' := by
        induction n with
        | zero => exact ⟨s, .refl s, by simpa using now, recovered⟩
        | succ n ih =>
          obtain ⟨s', more, now', recovered'⟩ := ih
          obtain ⟨s'', again, now'', recovered''⟩ := recovered'.restart (K := K)
          refine ⟨s'', more.trans again, ?_, recovered''⟩
          rw [now'', now', Nat.cast_succ, add_mul, one_mul]
      obtain ⟨n, enough⟩ := Archimedean.arch retryAt (half_pos thresholds.stablePeriod_pos)
      obtain ⟨s', more, now', recovered'⟩ := restarts n
      have late : retryAt ≤ s'.now := by rwa [now', ← nsmul_eq_mul]
      obtain ⟨s'', last, fails⟩ := recovered'.not_resumes (K := K) late (by omega)
      exact fails (escalates s'' ((reached.trans more).trans last))
    · exact two
    · exfalso
      have fails : s.step (.failure "fault" : ReactorLabel K) = some (s.recordFailure "fault") := rfl
      exact recovered.not_recurs now many (escalates _ (.tail reached trivial fails))
  · intro two s run
    have h : s.Resumes thresholds :=
      run.invariant resumes_start fun _ _ _ h _ hs => h.step two hs
    exact h.escalates

end Settings

open ControllerReactor

/-- The defaults, but that three failures trigger recovery. -/
def patientThresholds : Thresholds :=
  ⟨3, 5, 6, 20, 120, 900, by decide, by decide, by decide, by decide, by decide, by decide⟩

/-- Three demanded shutdowns fail, recovery succeeds, and one more failure does not make it due again. -/
theorem escalates_patient : ∃ s, Reaches (step (K := Unit)) always (start patientThresholds) s ∧
    s.log.getLast? = some (.scheduled 5) ∧ s.log.reverse[1]? = some (.failure 0 false) ∧
      ¬ Escalates patientThresholds s.log := by
  have run : ((exec (step (K := Unit)) (start patientThresholds)
      [.run { current := .operate, context := () },
        .evaluate (inputsOf Unit (some .shutdown) none), .failure "left shutdown", .evaluate (inputsOf Unit none (some {})),
        .evaluate (inputsOf Unit (some .shutdown) none), .failure "left shutdown", .evaluate (inputsOf Unit none (some {})),
        .evaluate (inputsOf Unit (some .shutdown) none), .failure "left shutdown", .evaluate (inputsOf Unit none (some {})),
        .evaluate (inputsOf Unit (some .shutdown) none), .evaluate (inputsOf Unit none (some { recovered := true })),
        .failure "left shutdown"]).map fun s => s.log) =
      some ([.started (.demanded .shutdown) .shutdown 0, .failure 0 false, .scheduled 5,
        .started (.demanded .shutdown) .shutdown 0, .failure 0 false, .scheduled 5,
        .started (.demanded .shutdown) .shutdown 0, .failure 0 true, .started (.recover false) .shutdown 0] ++
        .attempt true 0 :: [.scheduled 5] ++ .failure 0 false :: [.scheduled 5]) := by
    decide +kernel
  obtain ⟨s, ran, log⟩ := Option.map_eq_some_iff.1 run
  refine ⟨s, reaches_of_exec ran okAlong_always, by rw [log]; rfl, by rw [log]; rfl, fun escalates => ?_⟩
  cases escalates.recurs _ 0 [.scheduled 5] 0 false _ log (by simp [ReactorEvent.counts]) (by decide +kernel)

end SensorKit.Auto
