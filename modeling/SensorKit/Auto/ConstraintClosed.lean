import SensorKit.Auto.ConstraintSteps

/-!
# Constraints fail closed

A constraint that is not optional is counted from the first step of its supervisor on, and is
left out only on the word of a clear reading that is still fresh. `Guarded` ties what the
manager counts to the evaluator it supervises: the states still on their way, the deadline of
the data, and the phases in which nothing has been consumed yet.

An update may be on its way when the manager is looked at. `failsClosed` says so explicitly,
and says too what is left once the manager has gone through its own steps, which come to an
end with no time passing.
-/

namespace SensorKit.Auto

open Lib

/-- The evaluation calls for its constraint not to be counted: it is ready, its latest reading
is clear, its data has not run out and no hold is in effect. -/
structure Evaluation.ClearNow (c : Constraint) (now : ℚ) (v : Evaluation) : Prop where
  ready : v.evaluator.isReady
  latest : v.latest = some false
  fresh : ∃ d ∈ v.dataAt, now < d + c.ttl
  free : v.evaluator.holdingUntil = none

/-- The manager has an update to consume: a state to take or to apply, or the data timeout. -/
def Evaluation.Unconsumed (now : ℚ) (v : Evaluation) : Prop :=
  v.evaluator.stateUpdated ∨ v.taken.isSome ∨ v.evaluator.timeout ≤ now

/-- What the manager counts follows from the evaluation it supervises. -/
structure Evaluation.Guarded (c : Constraint) (now : ℚ) (counted : Bool) (v : Evaluation) : Prop where
  settled : v.evaluator.Settled c
  actual : v.evaluator.actualState.state = (v.evaluator.derivedState c).state
  latest : v.evaluator.intendedState.state = .clear → v.latest = some false
  data : v.evaluator.isReady → v.dataAt ≠ none
  deadline : ∀ d ∈ v.dataAt, v.evaluator.timeout = d + c.ttl
  expired : v.expired → v.evaluator.timeout ≤ now
  /-- Before the updates are read, the constraint is counted. -/
  waiting : v.phase ≠ .reading → v.phase ≠ .stopping → counted ∧ v.taken = none
  /-- A state on its way is the actual one, unless that has changed since. -/
  taken : v.evaluator.stateUpdated = false → ∀ state ∈ v.taken, state = v.evaluator.actualState
  takenReady : ∀ state ∈ v.taken, state.state = .clear → v.evaluator.isReady
  published : v.evaluator.stateUpdated = false → v.taken = none →
    (counted = false ↔ v.evaluator.actualState.state = .clear)
  ready : counted = false → v.evaluator.isReady

namespace ConstraintEvaluator

variable {c : Constraint} {e : ConstraintEvaluator}

theorem derivedState_clear (h : (e.derivedState c).state = .clear) :
    e.isReady ∧ e.holdingUntil = none ∧ e.intendedState.state = .clear := by
  cases ready : e.isReady <;> cases hu : e.holdingUntil <;> simp [derivedState, ready, hu] at h ⊢
  exact h

end ConstraintEvaluator

namespace Evaluation

variable {c : Constraint} {now : ℚ} {counted : Bool} {v v' : Evaluation}

/-- With nothing on its way and the data not run out, an uncounted constraint is clear. -/
theorem Guarded.clearNow_or_unconsumed (h : v.Guarded c now counted) (uncounted : counted = false) :
    v.ClearNow c now ∨ v.Unconsumed now := by
  by_cases pending : v.Unconsumed now
  · exact .inr pending
  · simp only [Unconsumed, not_or, Bool.not_eq_true, Option.isSome_eq_false_iff, Option.isNone_iff_eq_none,
      not_le] at pending
    obtain ⟨settled, none, early⟩ := pending
    have clear := (h.published settled none).1 uncounted
    rw [h.actual] at clear
    obtain ⟨ready, free, intended⟩ := ConstraintEvaluator.derivedState_clear clear
    obtain ⟨d, hd⟩ := Option.ne_none_iff_exists'.1 (h.data ready)
    exact .inl ⟨ready, h.latest intended, ⟨d, hd, h.deadline d hd ▸ early⟩, free⟩

theorem Guarded.later {now' : ℚ} (later : now ≤ now') (h : v.Guarded c now counted) : v.Guarded c now' counted :=
  { h with expired := fun e => (h.expired e).trans later }

/-- An evaluator that has just updated its state, with what the check task last reported. -/
theorem Guarded.update {e : ConstraintEvaluator} {latest : Option Bool} {dataAt : Option ℚ}
    (h : v.Guarded c now counted) (holding : e.intendedState.state = .active → e.holdingUntil = none)
    (ready : v.evaluator.isReady → e.isReady) (hl : e.intendedState.state = .clear → latest = some false)
    (data : e.isReady → dataAt ≠ none) (deadline : ∀ d ∈ dataAt, e.timeout = d + c.ttl)
    (expired : v.expired → e.timeout ≤ now) :
    Guarded c now counted { v with evaluator := e.updateState c, latest, dataAt } where
  settled := ConstraintEvaluator.settled_updateState holding
  actual := rfl
  latest := hl
  data := data
  deadline := deadline
  expired := expired
  waiting := h.waiting
  taken := by simp [ConstraintEvaluator.updateState]
  takenReady state hs clear := ready (h.takenReady state hs clear)
  published := by simp [ConstraintEvaluator.updateState]
  ready uncounted := ready (h.ready uncounted)

theorem checking_not_expired (h : v.checking) : v.expired = false := by
  simp only [checking, Bool.and_eq_true, Bool.not_eq_true'] at h
  exact h.2

theorem guarded_fresh {initialHold : ℚ} {restarting : Bool} (optional : c.optional = false) :
    (fresh c now initialHold restarting).Guarded c now true where
  settled := settled_fresh
  actual := by simp [fresh, ConstraintEvaluator.initialState, ConstraintEvaluator.derivedState, optional]
  latest := by simp [fresh, ConstraintEvaluator.initialState, optional]
  data := by simp [fresh, optional]
  deadline := by simp [fresh]
  expired := by simp [fresh]
  waiting := by simp [fresh]
  taken := by simp [fresh]
  takenReady := by simp [fresh]
  published := by simp [fresh, ConstraintEvaluator.initialState, optional]
  ready := by simp

theorem Moves.guarded (moves : v.Moves c now v') (h : v.Guarded c now counted) : v'.Guarded c now counted := by
  have settled := moves.settled h.settled
  cases moves with
  | delayOver phase => exact { h with waiting := fun _ _ => h.waiting (by simp [phase]) (by simp [phase]) }
  | checkEnds => exact { h with }
  | timeout due => exact { h with expired := fun _ => due }
  | readyWakes => exact { h with waiting := by simp }
  | neverReady => exact { h with waiting := by simp }
  | stop => exact { h with waiting := by simp }
  | cleanup =>
    exact ⟨settled, h.actual, h.latest, h.data, h.deadline, h.expired, h.waiting, h.taken, h.takenReady,
      h.published, h.ready⟩
  | take phase =>
    exact {
      settled
      actual := h.actual
      latest := h.latest
      data := h.data
      deadline := h.deadline
      expired := h.expired
      waiting := by simp [phase]
      taken := by simp
      takenReady := by
        rintro _ ⟨⟩ clear
        rw [h.actual] at clear
        exact (ConstraintEvaluator.derivedState_clear clear).1
      published := by simp
      ready := h.ready }
  | holdElapses =>
    exact h.update (fun _ => rfl) id h.latest h.data h.deadline h.expired
  | clear checking =>
    exact h.update (by simp) id (fun _ => rfl) (by simp) (by simp)
      (by simp [checking_not_expired checking])
  | ready checking =>
    cases ready : v.evaluator.isReady with
    | false =>
      simp only [ConstraintEvaluator.ready, ready, Bool.false_eq_true, if_false]
      exact h.update h.settled.activeNotHolding (by simp) h.latest (by simp) (by simp)
        (by simp [checking_not_expired checking])
    | true =>
      have same : v.evaluator.ready c now = { v.evaluator with timeout := now + c.ttl } := by
        simp [ConstraintEvaluator.ready, ready]
      rw [same] at settled ⊢
      exact {
        settled
        actual := h.actual
        latest := h.latest
        data := by simp [reported]
        deadline := by simp [reported]
        expired := by simp [reported, checking_not_expired checking]
        waiting := h.waiting
        taken := h.taken
        takenReady := h.takenReady
        published := h.published
        ready := h.ready }

end Evaluation

/-! ## The supervisor -/

namespace Supervisor

/-- The supervisor guards the constraint in each of its evaluations, and no hold has ever been
asked for while another was in effect. -/
structure Guarded (c : Constraint) (now : ℚ) (counted : Bool) (s : Supervisor) : Prop where
  evaluation : ∀ v ∈ s.evaluation, v.Guarded c now counted
  notHolding : s.alreadyHolding = false

variable {c : Constraint} {now : ℚ} {counted : Bool} {s s' : Supervisor} {label : SupervisorLabel}
  {state : Option ConstraintState}

theorem Guarded.later {now' : ℚ} (later : now ≤ now') (h : s.Guarded c now counted) : s.Guarded c now' counted :=
  ⟨fun v hv => (h.evaluation v hv).later later, h.notHolding⟩

theorem countedAfter_initialState (optional : c.optional = false) :
    Constraints.countedAfter counted (some (ConstraintEvaluator.initialState c)) = true := by
  simp [ConstraintEvaluator.initialState, optional]

theorem guarded_consume {v : Evaluation} (h : v.Guarded c now counted) :
    Evaluation.Guarded c now (Constraints.countedAfter counted v.taken)
      { v with taken := none, phase := if v.checkEnded then .stopping else .reading } where
  settled := h.settled
  actual := h.actual
  latest := h.latest
  data := h.data
  deadline := h.deadline
  expired := h.expired
  waiting := by cases v.checkEnded <;> simp
  taken := by simp
  takenReady := by simp
  published settled _ := by
    cases hs : v.taken with
    | none => exact h.published settled hs
    | some state =>
      obtain rfl := h.taken settled state hs
      simp
  ready uncounted := by
    cases hs : v.taken with
    | none => exact h.ready (by simpa [hs] using uncounted)
    | some state => exact h.takenReady state hs (by simpa [hs] using uncounted)

theorem Moves.guarded (optional : c.optional = false) (h : s.Guarded c now counted)
    (moves : Moves c now counted s label s' state) :
    s'.Guarded c now (Constraints.countedAfter counted state) := by
  refine ⟨?_, ?_⟩
  · cases moves with
    | start =>
      rw [countedAfter_initialState optional]
      rintro _ ⟨⟩
      exact Evaluation.guarded_fresh optional
    | restart =>
      rw [countedAfter_initialState optional]
      rintro _ ⟨⟩
      exact Evaluation.guarded_fresh optional
    | raise => exact h.evaluation
    | @goOn _ v v' current moves =>
      rintro _ ⟨⟩
      exact moves.guarded (h.evaluation v current)
    | @consume v current =>
      rintro _ ⟨⟩
      exact guarded_consume (h.evaluation v current)
    | @constrain v current checking reason details =>
      rintro _ ⟨⟩
      exact (h.evaluation v current).update (fun _ => rfl) id (by simp) (by simp)
        (by simp [ConstraintEvaluator.cancelHold, ConstraintEvaluator.stopHoldTask])
        (by simp [Evaluation.checking_not_expired checking])
  · cases moves with
    | @raise _ v current active holding => exact absurd ((h.evaluation v current).settled.activeNotHolding active) holding
    | _ => exact h.notHolding

end Supervisor

/-! ## The manager's own steps -/

/-- The step is one of the manager and its timers, not one of the check task. -/
def SupervisorLabel.isOwn : SupervisorLabel → Bool
  | .start | .call _ | .checkEnds => false
  | .delayOver | .holdElapses | .timeout | .readyWakes | .take | .consume | .stop | .cleanup | .restart => true

/-- What the manager's own steps have left to do in an evaluation. -/
def Evaluation.pending (v : Evaluation) : ℕ :=
  3 * v.evaluator.holdTask.toNat + 2 * v.evaluator.stateUpdated.toNat + v.taken.isSome.toNat +
    (!v.expired).toNat + (v.phase ≠ .stopping : Bool).toNat

namespace Supervisor

variable {c : Constraint} {now : ℚ} {counted : Bool} {s s' : Supervisor} {label : SupervisorLabel}
  {state : Option ConstraintState} {v : Evaluation}

/-- The constraint is counted, or calls for it not to be. -/
def Accounted (c : Constraint) (now : ℚ) (counted : Bool) (s : Supervisor) : Prop :=
  counted ∨ ∃ v ∈ s.evaluation, v.ClearNow c now

/-- With no step of its own left to take, the manager has consumed every update. -/
theorem Guarded.accounted (h : s.Guarded c now counted) (current : s.evaluation = some v)
    (quiet : ∀ own, own.isOwn → s.step c now counted own = none) : s.Accounted c now counted := by
  cases hcounted : counted with
  | true => exact .inl rfl
  | false =>
    subst hcounted
    have guarded := h.evaluation v current
    have take := quiet .take rfl
    have consume := quiet .consume rfl
    have timeout := quiet .timeout rfl
    have stop := quiet .stop rfl
    have restart := quiet .restart rfl
    simp only [step, current] at take consume timeout stop restart
    have phase : v.phase = .reading := by
      by_contra notReading
      have := guarded.waiting notReading (by simpa using restart)
      simp at this
    have alive : v.expired = false := by simpa [phase] using stop
    have early : now < v.evaluator.timeout := by simpa [alive] using timeout
    have applied : v.taken = none := by
      simp [phase, alive] at consume
      exact consume.1
    have settled : v.evaluator.stateUpdated = false := by simpa [phase, applied] using take
    rcases guarded.clearNow_or_unconsumed rfl with clear | pending
    · exact .inr ⟨v, current, clear⟩
    · simp [Evaluation.Unconsumed, settled, applied] at pending
      exact absurd early (not_lt.2 pending)

/-- A step of the manager's own that is enabled can be chosen to be one that uses something up. -/
theorem exists_own_step (current : s.evaluation = some v)
    (busy : ¬ ∀ own : SupervisorLabel, own.isOwn → s.step c now counted own = none) :
    ∃ own : SupervisorLabel, own.isOwn ∧ own ≠ .cleanup ∧ ∃ s' state, s.step c now counted own = some (s', state) := by
  push Not at busy
  obtain ⟨own, isOwn, enabled⟩ := busy
  obtain ⟨⟨s', state⟩, hs⟩ := Option.ne_none_iff_exists'.1 enabled
  by_cases cleanup : own = .cleanup
  · subst cleanup
    have phase : v.phase = .stopping := by
      by_contra h
      simp [step, current, h] at hs
    exact ⟨.restart, rfl, by simp, _, _, by simp only [step, current, phase, if_true, turn_eq]; rfl⟩
  · exact ⟨own, isOwn, cleanup, s', state, hs⟩

/-- A step of the manager's own uses up what is pending, unless the constraint is counted
after it. -/
theorem Guarded.pending_lt (optional : c.optional = false) (h : s.Guarded c now false)
    (current : s.evaluation = some v) (own : label.isOwn) (notCleanup : label ≠ .cleanup)
    (hs : s.step c now false label = some (s', state)) :
    Constraints.countedAfter false state = true ∨ ∃ v', s'.evaluation = some v' ∧ v'.pending < v.pending := by
  have waiting := (h.evaluation v current).waiting
  simp only [Bool.false_eq_true, false_and] at waiting
  have taken : v.taken.isSome.toNat ≤ 1 := Bool.toNat_le _
  cases label with
  | start | call | checkEnds => cases own
  | cleanup => exact absurd rfl notCleanup
  | delayOver =>
    cases phase : v.phase <;> simp [step, current, phase] at hs
    exact (waiting (by simp [phase]) (by simp [phase])).elim
  | readyWakes =>
    simp only [step, current, Option.ite_none_right_eq_some] at hs
    exact (waiting (by simp [hs.1.1]) (by simp [hs.1.1])).elim
  | restart =>
    simp only [step, current, turn_eq, Option.ite_none_right_eq_some, Option.some.injEq, Prod.mk.injEq] at hs
    obtain ⟨-, -, rfl⟩ := hs
    exact .inl (countedAfter_initialState optional)
  | holdElapses =>
    simp only [step, current, goOn, Option.ite_none_right_eq_some, Option.some.injEq, Prod.mk.injEq] at hs
    obtain ⟨⟨task, -⟩, rfl, -⟩ := hs
    refine .inr ⟨_, rfl, ?_⟩
    simp only [Evaluation.pending, ConstraintEvaluator.endHold, ConstraintEvaluator.updateState, task]
    simp
    omega
  | timeout =>
    simp only [step, current, goOn, Option.ite_none_right_eq_some, Option.some.injEq, Prod.mk.injEq] at hs
    obtain ⟨⟨-, alive⟩, rfl, -⟩ := hs
    exact .inr ⟨_, rfl, by simp [Evaluation.pending, alive]⟩
  | take =>
    simp only [step, current, goOn, Option.ite_none_right_eq_some, Option.some.injEq, Prod.mk.injEq] at hs
    obtain ⟨⟨-, free, updated⟩, rfl, -⟩ := hs
    exact .inr ⟨_, rfl, by simp [Evaluation.pending, free, updated]⟩
  | consume =>
    simp only [step, current, Option.ite_none_right_eq_some, Option.some.injEq, Prod.mk.injEq] at hs
    obtain ⟨⟨phase, -, wakes⟩, rfl, -⟩ := hs
    refine .inr ⟨_, rfl, ?_⟩
    cases ended : v.checkEnded with
    | false =>
      have consumed : v.taken.isSome = true := by simpa [ended] using wakes
      simp [Evaluation.pending, phase, consumed]
    | true =>
      have stopping : (decide (Phase.stopping ≠ Phase.stopping)).toNat = 0 := by decide
      have reading : (decide (Phase.reading ≠ Phase.stopping)).toNat = 1 := by decide
      simp only [Evaluation.pending, phase, if_true, stopping, reading, Option.isSome_none, Bool.toNat_false]
      omega
  | stop =>
    simp only [step, current, goOn, Option.ite_none_right_eq_some, Option.some.injEq, Prod.mk.injEq] at hs
    obtain ⟨⟨-, phase⟩, rfl, -⟩ := hs
    exact .inr ⟨_, rfl, by simp [Evaluation.pending, phase]⟩

end Supervisor

/-! ## Runs -/

namespace Constraints

variable {constraints : List Constraint} {c : Constraint} {idx : ℕ} {start : ℚ} {s : Constraints}

theorem guarded_of_run (hc : constraints[idx]? = some c) (optional : c.optional = false)
    (run : Reaches (step constraints) always (started constraints start) s) :
    (s.supervisors idx).Guarded c s.now (s.counted idx) := by
  refine run.invariant (I := fun s => (s.supervisors idx).Guarded c s.now (s.counted idx)) ?_ ?_
  · constructor <;> simp [started]
  · intro t label u h _ hs
    rcases step_cases hc hs with ⟨later, same, counted⟩ | ⟨own, state, rfl, now, moved, after⟩
    · rw [same, counted]
      exact h.later later
    · rw [now, after]
      exact (Supervisor.moves_of_step moved).guarded optional h

/-- The manager's own steps lead to a state in which every update has been consumed. -/
theorem drains (hc : constraints[idx]? = some c) (optional : c.optional = false) {v : Evaluation}
    (h : (s.supervisors idx).Guarded c s.now (s.counted idx)) (current : (s.supervisors idx).evaluation = some v) :
    ∃ labels : List SupervisorLabel, (∀ own ∈ labels, own.isOwn) ∧
      ∃ t, exec (step constraints) s (labels.map (.task idx)) = some t ∧ t.now = s.now ∧
        (t.supervisors idx).Accounted c t.now (t.counted idx) := by
  induction hn : v.pending using Nat.strong_induction_on generalizing s v with
  | _ n ih =>
    by_cases quiet : ∀ own : SupervisorLabel, own.isOwn → (s.supervisors idx).step c s.now (s.counted idx) own = none
    · exact ⟨[], by simp, s, rfl, rfl, h.accounted current quiet⟩
    cases hcounted : s.counted idx with
    | true => exact ⟨[], by simp, s, rfl, rfl, .inl hcounted⟩
    | false =>
    obtain ⟨own, isOwn, notCleanup, s', state, hs⟩ := Supervisor.exists_own_step current quiet
    obtain ⟨t, ht, now, supervisor, after⟩ := step_task hc hs
    rw [hcounted] at h hs after
    have guarded := (Supervisor.moves_of_step hs).guarded optional h
    rw [← supervisor, ← after, ← now] at guarded
    rcases h.pending_lt optional current isOwn notCleanup hs with counted | ⟨v', current', lt⟩
    · exact ⟨[own], by simpa using isOwn, t, by simp [exec, ht], now, .inl (after.trans counted)⟩
    · obtain ⟨labels, allOwn, u, run, now', accounted⟩ :=
        ih v'.pending (hn ▸ lt) guarded (supervisor ▸ current') rfl
      exact ⟨own :: labels, by simpa using ⟨isOwn, allOwn⟩, u, by simpa [exec, ht] using run,
        now'.trans now, accounted⟩

/-- **Constraints fail closed.** Once its supervisor has taken its first step, a constraint that
is not optional is not counted only while its evaluation is clear, up to an update still to be
consumed; with no step of its own left to take the manager has consumed them all, and it gets
there with no time passing. A hold is never begun over another. -/
theorem failsClosed (hc : constraints[idx]? = some c) (optional : c.optional = false)
    (run : Reaches (step constraints) always (started constraints start) s)
    (begun : (s.supervisors idx).evaluation ≠ none) :
    (s.counted idx = false → ∃ v ∈ (s.supervisors idx).evaluation, v.ClearNow c s.now ∨ v.Unconsumed s.now) ∧
    ((∀ own : SupervisorLabel, own.isOwn → (s.supervisors idx).step c s.now (s.counted idx) own = none) →
      s.counted idx = false → ∃ v ∈ (s.supervisors idx).evaluation, v.ClearNow c s.now) ∧
    (∃ labels : List SupervisorLabel, (∀ own ∈ labels, own.isOwn) ∧
      ∃ t, exec (step constraints) s (labels.map (.task idx)) = some t ∧ t.now = s.now ∧
        (t.supervisors idx).Accounted c t.now (t.counted idx)) ∧
    (s.supervisors idx).alreadyHolding = false := by
  have guarded := guarded_of_run hc optional run
  obtain ⟨v, current⟩ := Option.ne_none_iff_exists'.1 begun
  refine ⟨fun uncounted => ?_, fun quiet uncounted => ?_, drains hc optional guarded current, guarded.notHolding⟩
  · rw [uncounted] at guarded
    exact ⟨v, current, (guarded.evaluation v current).clearNow_or_unconsumed rfl⟩
  · rcases guarded.accounted current quiet with counted | clear
    · simp [uncounted] at counted
    · exact clear

/-- A constraint on the weather, and a clear reading of it that the manager consumes. -/
def weatherConstraint : Constraint := { kind := "weather" }

def weatherClears : List ConstraintsLabel :=
  [.start, .call (.clear "dry" none), .call .ready, .readyWakes, .take, .consume].map (.task 0)

theorem failsClosed_example :
    ∃ s, Reaches (step [weatherConstraint]) always (started [weatherConstraint] 0) s ∧ s.counted 0 = false ∧
      ∃ v ∈ (s.supervisors 0).evaluation, v.ClearNow weatherConstraint s.now ∨ v.Unconsumed s.now := by
  have run : Reaches (step [weatherConstraint]) always (started [weatherConstraint] 0)
      ((exec (step [weatherConstraint]) (started [weatherConstraint] 0) weatherClears).get (by decide +kernel)) :=
    reaches_of_exec (Option.some_get _).symm okAlong_always
  exact ⟨_, run, by decide +kernel,
    (failsClosed (show [weatherConstraint][0]? = some weatherConstraint from rfl) rfl run (by decide +kernel)).1 (by decide +kernel)⟩

end Constraints

end SensorKit.Auto
