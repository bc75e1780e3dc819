import SensorKit.Auto.Constraint

/-!
# What a step of a supervisor can do

`Supervisor.Moves` lists the moves of a supervisor with its tasks, each with what it needs
and what it leaves, and `Supervisor.moves_of_step` reads them off the step function. The
invariants of the constraints are proved by cases on it. `Settled` is the one that both
results of this development rest on: it ties the states of an evaluator to its fields.
-/

namespace SensorKit.Auto

open Lib

namespace ConstraintEvaluator

variable (c : Constraint) (now : ℚ) (e : ConstraintEvaluator)

/-- The evaluator after a `clear()` that did not raise. -/
def cleared (reason : String) (details : Option ConstraintDetails) : ConstraintEvaluator :=
  let holds := decide (c.hold > 0 ∧ e.intendedState.state = .active)
  { e with
    timeout := now + c.ttl
    holdingUntil := if holds then some (now + c.hold) else e.holdingUntil
    holdTask := holds || e.holdTask
    intendedState := { kind := c.kind, state := .clear, reason, details } }.updateState c

theorem beginHold_of_none {waitSecs : ℚ} (h : e.holdingUntil = none) :
    e.beginHold c now waitSecs = .ok { e with holdingUntil := some (now + waitSecs), holdTask := true } := by
  simp only [beginHold, h]

section

variable (reason : String) (details : Option ConstraintDetails)
include reason details

/-- `clear()` raises only where a hold is in effect under an active constraint. -/
theorem clear_cases : e.clear c now reason details = .ok (e.cleared c now reason details) ∨
      (∃ message, e.clear c now reason details = .error message) ∧
        e.intendedState.state = .active ∧ e.holdingUntil ≠ none := by
  by_cases hold : c.hold > 0 ∧ e.intendedState.state = .active
  · cases hu : e.holdingUntil with
    | some u =>
      refine .inr ⟨⟨s!"{c.kind} constraint is already holding", ?_⟩, hold.2, by simp⟩
      simp only [clear, hold, and_self, if_true, beginHold, hu]
      rfl
    | none =>
      left
      simp only [clear, hold, and_self, if_true, beginHold, hu, cleared, decide_true, Bool.true_or]
      rfl
  · left
    simp only [clear, hold, if_false, cleared, decide_false, Bool.false_or, Bool.false_eq_true]
    rfl

@[simp] theorem cleared_intendedState : (e.cleared c now reason details).intendedState.state = .clear := rfl

@[simp] theorem cleared_holdingUntil : (e.cleared c now reason details).holdingUntil =
      if c.hold > 0 ∧ e.intendedState.state = .active then some (now + c.hold) else e.holdingUntil := by
  simp [cleared, updateState]

end

end ConstraintEvaluator

/-! ## A new evaluation -/

namespace Evaluation

/-- What `begin` builds: a hold can always begin on an evaluator that has none. -/
def fresh (c : Constraint) (now initialHold : ℚ) (restarting : Bool) : Evaluation where
  evaluator :=
    { timeout := now + (restartGrace + c.ttl) + if restarting then restartDelay else 0
      isReady := c.optional
      holdingUntil := if initialHold > 0 then some (now + initialHold) else none
      holdTask := initialHold > 0
      intendedState := ConstraintEvaluator.initialState c
      actualState := ConstraintEvaluator.initialState c }
  phase := if restarting then .delaying (now + restartDelay) else .awaitingReady

theorem begin_eq_fresh (c : Constraint) (now initialHold : ℚ) (restarting : Bool) :
    begin c now initialHold restarting = .ok (fresh c now initialHold restarting) := by
  by_cases hold : initialHold > 0
  · simp only [begin, ConstraintEvaluator.init, fresh, hold, if_true, decide_true]
    rw [ConstraintEvaluator.beginHold_of_none _ _ _ rfl]
    rfl
  · simp only [begin, ConstraintEvaluator.init, fresh, hold, if_false, decide_false]
    rfl

end Evaluation

/-! ## The moves -/

/-- A move of a supervisor that has its evaluation `v`, leaving `v'` and handing the manager
nothing. -/
inductive Evaluation.Moves (c : Constraint) (now : ℚ) (v : Evaluation) : Evaluation → Prop where
  | delayOver {until_ : ℚ} (phase : v.phase = .delaying until_) :
      Moves c now v { v with phase := .awaitingReady }
  | ready (checking : v.checking) :
      Moves c now v (v.reported now (v.evaluator.ready c now) v.latest)
  | clear (checking : v.checking) (reason : String) (details : Option ConstraintDetails) :
      Moves c now v (v.reported now (v.evaluator.cleared c now reason details) (some false))
  | checkEnds (checking : v.checking) : Moves c now v { v with checkEnded := true }
  | holdElapses {deadline : ℚ} (task : v.evaluator.holdTask) (until_ : v.evaluator.holdingUntil = some deadline)
      (due : deadline ≤ now) : Moves c now v { v with evaluator := v.evaluator.endHold c }
  | timeout (due : v.evaluator.timeout ≤ now) : Moves c now v { v with expired := true }
  | readyWakes (phase : v.phase = .awaitingReady) (ready : v.evaluator.isReady) :
      Moves c now v { v with phase := .reading }
  | neverReady (phase : v.phase = .awaitingReady) (ended : v.checkEnded) :
      Moves c now v { v with phase := .stopping }
  | take (phase : v.phase = .reading) (free : v.taken = none) (updated : v.evaluator.stateUpdated) :
      Moves c now v { v with
        taken := some v.evaluator.actualState
        evaluator := { v.evaluator with stateUpdated := false } }
  | stop (expired : v.expired) : Moves c now v { v with phase := .stopping }
  | cleanup (phase : v.phase = .stopping) : Moves c now v { v with evaluator := v.evaluator.stopHoldTask }

/-- A move of a supervisor, with the state it hands to `_set_state`, if any. -/
inductive Supervisor.Moves (c : Constraint) (now : ℚ) (counted : Bool) (s : Supervisor) :
    SupervisorLabel → Supervisor → Option ConstraintState → Prop where
  | start (first : s.evaluation = none) :
      Moves c now counted s .start { s with evaluation := some (.fresh c now 0 false) }
        (some (ConstraintEvaluator.initialState c))
  | goOn {label : SupervisorLabel} {v v' : Evaluation} (current : s.evaluation = some v)
      (moves : v.Moves c now v') : Moves c now counted s label { s with evaluation := some v' } none
  | constrain {v : Evaluation} (current : s.evaluation = some v) (checking : v.checking) (reason : String)
      (details : Option ConstraintDetails) :
      Moves c now counted s (.call (.constrain reason details)) { s with
        evaluation := some (v.reported now (v.evaluator.constrain c now reason details) (some true))
        readings := if counted then now :: s.readings else s.readings } none
  | raise {label : SupervisorLabel} {v : Evaluation} (current : s.evaluation = some v)
      (active : v.evaluator.intendedState.state = .active) (holding : v.evaluator.holdingUntil ≠ none) :
      Moves c now counted s label { s with alreadyHolding := true } none
  | consume {v : Evaluation} (current : s.evaluation = some v) (phase : v.phase = .reading) :
      Moves c now counted s .consume { s with evaluation := some { v with
        taken := none
        phase := if v.checkEnded then .stopping else .reading } } v.taken
  | restart {v : Evaluation} (current : s.evaluation = some v) (phase : v.phase = .stopping) :
      Moves c now counted s .restart
        { s with evaluation := some (.fresh c now (v.evaluator.holdRemaining c now) true) }
        (some (ConstraintEvaluator.initialState c))

namespace Supervisor

variable {c : Constraint} {now : ℚ} {counted : Bool} {s s' : Supervisor} {state : Option ConstraintState}

theorem turn_eq (s : Supervisor) (initialHold : ℚ) (restarting : Bool) :
    s.turn c now initialHold restarting =
      ({ s with evaluation := some (.fresh c now initialHold restarting) },
        some (ConstraintEvaluator.initialState c)) := by
  simp only [turn, Evaluation.begin_eq_fresh]
  rfl

theorem moves_of_called {v : Evaluation} (current : s.evaluation = some v) (checking : v.checking)
    (call : EvaluatorCall) :
    Moves c now counted s (.call call) (s.called c now counted v call).1 (s.called c now counted v call).2 := by
  cases call with
  | ready => exact .goOn current (.ready checking)
  | constrain reason details => exact .constrain current checking reason details
  | clear reason details =>
    rcases v.evaluator.clear_cases c now reason details with h | ⟨⟨message, h⟩, active, holding⟩
    · simp only [called, Evaluation.call, h]
      exact .goOn current (.clear checking reason details)
    · simp only [called, Evaluation.call, h]
      exact .raise current active holding

/-- **The moves are all there is.** -/
theorem moves_of_step {label : SupervisorLabel} (h : s.step c now counted label = some (s', state)) :
    Moves c now counted s label s' state := by
  cases current : s.evaluation with
  | none =>
    simp only [step, current, Option.ite_none_right_eq_some, Option.some.injEq, turn_eq, Prod.mk.injEq] at h
    obtain ⟨rfl, rfl, rfl⟩ := h
    exact .start current
  | some v =>
    cases label with
    | start => simp [step, current] at h
    | delayOver =>
      cases phase : v.phase <;>
        simp only [step, current, phase, goOn, reduceCtorEq, Option.ite_none_right_eq_some, Option.some.injEq,
          Prod.mk.injEq] at h
      obtain ⟨-, rfl, rfl⟩ := h
      exact .goOn current (.delayOver phase)
    | call call =>
      simp only [step, current, Option.ite_none_right_eq_some, Option.some.injEq] at h
      obtain ⟨checking, h⟩ := h
      have moves : Moves c now counted s (.call call) (s.called c now counted _ call).1
          (s.called c now counted _ call).2 := moves_of_called current checking call
      rwa [h] at moves
    | checkEnds =>
      simp only [step, current, goOn, Option.ite_none_right_eq_some, Option.some.injEq, Prod.mk.injEq] at h
      obtain ⟨checking, rfl, rfl⟩ := h
      exact .goOn current (.checkEnds checking)
    | holdElapses =>
      simp only [step, current, goOn, Option.ite_none_right_eq_some, Option.some.injEq, Prod.mk.injEq] at h
      obtain ⟨⟨task, deadline, until_, due⟩, rfl, rfl⟩ := h
      exact .goOn current (.holdElapses task until_ due)
    | timeout =>
      simp only [step, current, goOn, Option.ite_none_right_eq_some, Option.some.injEq, Prod.mk.injEq] at h
      obtain ⟨⟨due, -⟩, rfl, rfl⟩ := h
      exact .goOn current (.timeout due)
    | readyWakes =>
      simp only [step, current, goOn, Option.ite_none_right_eq_some, Option.some.injEq, Prod.mk.injEq] at h
      obtain ⟨⟨phase, -, wakes⟩, rfl, rfl⟩ := h
      cases ready : v.evaluator.isReady with
      | true => exact .goOn current (.readyWakes phase ready)
      | false => exact .goOn current (.neverReady phase (by simpa [ready] using wakes))
    | take =>
      simp only [step, current, goOn, Option.ite_none_right_eq_some, Option.some.injEq, Prod.mk.injEq] at h
      obtain ⟨⟨phase, free, updated⟩, rfl, rfl⟩ := h
      exact .goOn current (.take phase free updated)
    | consume =>
      simp only [step, current, Option.ite_none_right_eq_some, Option.some.injEq, Prod.mk.injEq] at h
      obtain ⟨⟨phase, -⟩, rfl, rfl⟩ := h
      exact .consume current phase
    | stop =>
      simp only [step, current, goOn, Option.ite_none_right_eq_some, Option.some.injEq, Prod.mk.injEq] at h
      obtain ⟨⟨expired, -⟩, rfl, rfl⟩ := h
      exact .goOn current (.stop expired)
    | cleanup =>
      simp only [step, current, goOn, Option.ite_none_right_eq_some, Option.some.injEq, Prod.mk.injEq] at h
      obtain ⟨phase, rfl, rfl⟩ := h
      exact .goOn current (.cleanup phase)
    | restart =>
      simp only [step, current, turn_eq, Option.ite_none_right_eq_some, Option.some.injEq, Prod.mk.injEq] at h
      obtain ⟨phase, rfl, rfl⟩ := h
      exact .restart current phase

end Supervisor

/-! ## The states of an evaluator -/

/-- The states of an evaluator follow its fields. -/
structure ConstraintEvaluator.Settled (c : Constraint) (e : ConstraintEvaluator) : Prop where
  /-- Nothing is on hold while the intended state is active. -/
  activeNotHolding : e.intendedState.state = .active → e.holdingUntil = none
  /-- A state that was updated is the one the fields call for. -/
  updated : e.stateUpdated → e.actualState = e.derivedState c

namespace ConstraintEvaluator

variable {c : Constraint} {now : ℚ} {e : ConstraintEvaluator}

@[simp] theorem ready_intendedState : (e.ready c now).intendedState = e.intendedState := by
  cases h : e.isReady <;> simp [ready, h, updateState]

@[simp] theorem ready_holdingUntil : (e.ready c now).holdingUntil = e.holdingUntil := by
  cases h : e.isReady <;> simp [ready, h, updateState]

theorem initialState_ne_active : (initialState c).state ≠ .active := by
  cases h : c.optional <;> simp [initialState, h]

theorem settled_updateState (h : e.intendedState.state = .active → e.holdingUntil = none) :
    (e.updateState c).Settled c :=
  ⟨h, fun _ => rfl⟩

theorem Settled.ready (h : e.Settled c) : (e.ready c now).Settled c := by
  refine ⟨by simpa using h.activeNotHolding, ?_⟩
  cases ready : e.isReady with
  | true =>
    simpa [ConstraintEvaluator.ready, ready, derivedState] using h.updated
  | false =>
    simp only [ConstraintEvaluator.ready, ready, Bool.false_eq_true, if_false]
    exact fun _ => rfl

theorem settled_constrain (reason : String) (details : Option ConstraintDetails) :
    (e.constrain c now reason details).Settled c :=
  settled_updateState fun _ => rfl

theorem settled_cleared (reason : String) (details : Option ConstraintDetails) :
    (e.cleared c now reason details).Settled c :=
  settled_updateState (by simp)

end ConstraintEvaluator

namespace Evaluation

variable {c : Constraint} {now : ℚ} {v v' : Evaluation}

theorem settled_fresh {initialHold : ℚ} {restarting : Bool} :
    (fresh c now initialHold restarting).evaluator.Settled c :=
  ⟨fun active => absurd active ConstraintEvaluator.initialState_ne_active, by simp [fresh]⟩

theorem Moves.settled (moves : v.Moves c now v') (h : v.evaluator.Settled c) : v'.evaluator.Settled c := by
  cases moves with
  | ready => exact h.ready
  | clear => exact ConstraintEvaluator.settled_cleared _ _
  | holdElapses => exact ConstraintEvaluator.settled_updateState fun _ => rfl
  | take => exact ⟨h.activeNotHolding, by simp⟩
  | cleanup => exact ⟨h.activeNotHolding, h.updated⟩
  | delayOver | checkEnds | timeout | readyWakes | neverReady | stop => exact h

end Evaluation

/-! ## The steps of the manager -/

namespace Constraints

variable {constraints : List Constraint} {c : Constraint} {idx : ℕ} {s t : Constraints}

/-- Whether a constraint is counted after its supervisor has handed over `state`, if any. -/
def countedAfter (counted : Bool) : Option ConstraintState → Bool
  | some state => state.state ≠ .clear
  | none => counted

@[simp] theorem countedAfter_none (counted : Bool) : countedAfter counted none = counted := rfl

@[simp] theorem countedAfter_some (counted : Bool) (state : ConstraintState) :
    countedAfter counted (some state) = decide (state.state ≠ .clear) := rfl

theorem counted_setState (m : ConstraintManager) (i : ℕ) (state : ConstraintState) :
    decide (idx ∈ (m.setState i state).constrainedSet) =
      if idx = i then decide (state.state ≠ .clear) else decide (idx ∈ m.constrainedSet) := by
  by_cases same : idx = i <;> by_cases clear : state.state = .clear <;>
    simp [ConstraintManager.setState, same, clear]

/-- **One step of the manager's tasks, seen from the constraint `idx`**: only time passes, or
another constraint goes on, or its own supervisor moves. -/
theorem step_cases {label : ConstraintsLabel} (hc : constraints[idx]? = some c)
    (h : step constraints s label = some t) :
    (s.now ≤ t.now ∧ t.supervisors idx = s.supervisors idx ∧ t.counted idx = s.counted idx) ∨
    (∃ own state, label = .task idx own ∧ t.now = s.now ∧
      (s.supervisors idx).step c s.now (s.counted idx) own = some (t.supervisors idx, state) ∧
      t.counted idx = countedAfter (s.counted idx) state) := by
  cases label with
  | tick elapsed =>
    simp only [step, Option.ite_none_right_eq_some, Option.some.injEq] at h
    obtain ⟨nonneg, rfl⟩ := h
    exact .inl ⟨by simpa using nonneg, rfl, rfl⟩
  | task i own =>
    simp only [step, Option.bind_eq_bind, Option.bind_eq_some_iff, Option.some.injEq] at h
    obtain ⟨c', hc', ⟨supervisor, state⟩, moved, rfl⟩ := h
    by_cases same : idx = i
    · subst same
      obtain rfl : c' = c := by simpa [hc] using hc'.symm
      refine .inr ⟨own, state, rfl, rfl, by simpa using moved, ?_⟩
      cases state with
      | none => rfl
      | some state => simp [counted, counted_setState, countedAfter]
    · refine .inl ⟨le_rfl, by simp [same], ?_⟩
      cases state with
      | none => rfl
      | some state => simp [counted, counted_setState, same]

/-- A step of the supervisor of `idx` is a step of the manager's tasks. -/
theorem step_task {own : SupervisorLabel} {supervisor : Supervisor} {state : Option ConstraintState}
    (hc : constraints[idx]? = some c)
    (h : (s.supervisors idx).step c s.now (s.counted idx) own = some (supervisor, state)) :
    ∃ t, step constraints s (.task idx own) = some t ∧ t.now = s.now ∧ t.supervisors idx = supervisor ∧
      t.counted idx = countedAfter (s.counted idx) state := by
  have stepped : (step constraints s (.task idx own)).isSome := by
    simp only [step, hc, Option.bind_eq_bind, Option.bind_some, h, Option.isSome_some]
  obtain ⟨t, ht⟩ := Option.isSome_iff_exists.1 stepped
  refine ⟨t, ht, ?_⟩
  simp only [step, hc, Option.bind_eq_bind, Option.bind_some, h, Option.some.injEq] at ht
  obtain rfl := ht
  refine ⟨rfl, by simp, ?_⟩
  cases state with
  | none => rfl
  | some state => exact (counted_setState s.manager idx state).trans (by simp)

end Constraints

end SensorKit.Auto
