import Mathlib.Tactic.Linarith
import SensorKit.Auto.ConstraintSteps

/-!
# A hold outlives the evaluator

A constraint that stops being counted has had no `constrain()` reading, among those recorded
while it was counted, for the whole of its hold. The invariant says that the evaluator covers
each such reading: it is still active, or a hold runs to the end of the reading's hold, or
that end has passed.

Two steps break this, and `KeepsHold` excludes them. The evaluator of an optional constraint
starts out clear and hands that state over at once, whatever hold it was given. And a
`constrain()` between `next_update` and the manager's turn comes too late to stop a clear
state that was already taken.
-/

namespace SensorKit.Auto

open Lib

namespace Constraint

variable (c : Constraint)

/-- The hold for a reading made at `r` is over. -/
def HoldOver (now r : ℚ) : Prop :=
  r + c.hold ≤ now

/-- The evaluator keeps the constraint counted, once its update is consumed, to the end of the
hold for a reading made at `r`. -/
def Covers (now : ℚ) (e : ConstraintEvaluator) (r : ℚ) : Prop :=
  e.intendedState.state = .active ∨ (∃ u, e.holdingUntil = some u ∧ r + c.hold ≤ u) ∨ c.HoldOver now r

end Constraint

theorem Constraint.Covers.mono {c : Constraint} {now now' r : ℚ} {e : ConstraintEvaluator} (later : now ≤ now')
    (h : c.Covers now e r) : c.Covers now' e r := by
  rcases h with active | holding | elapsed
  · exact .inl active
  · exact .inr (.inl holding)
  · exact .inr (.inr (elapsed.trans later))

namespace ConstraintEvaluator

variable {c : Constraint} {now r : ℚ} {e : ConstraintEvaluator}

theorem holdRemaining_nonneg (hold : 0 < c.hold) : 0 ≤ e.holdRemaining c now := by
  cases hu : e.holdingUntil with
  | some u => simp [holdRemaining, hu]
  | none =>
    by_cases active : e.intendedState.state = .active <;> simp [holdRemaining, hu, active, hold.le]

/-- The hold a replacement resumes lasts as long as the evaluator would have covered `r`. -/
theorem holdRemaining_covers (hold : 0 < c.hold) (settled : e.Settled c) (past : r ≤ now) (h : c.Covers now e r) :
    r + c.hold ≤ now + e.holdRemaining c now := by
  rcases h with active | ⟨u, hu, covers⟩ | elapsed
  · have none := settled.activeNotHolding active
    simp only [holdRemaining, none, active, if_true]
    linarith
  · simp only [holdRemaining, hu]
    linarith [le_max_right 0 (u - now)]
  · have rest : 0 ≤ e.holdRemaining c now := e.holdRemaining_nonneg hold
    exact elapsed.trans (by linarith)

theorem covers_constrain (reason : String) (details : Option ConstraintDetails) :
    c.Covers now (e.constrain c now reason details) r :=
  .inl rfl

theorem covers_cleared (hold : 0 < c.hold) (past : r ≤ now) (reason : String) (details : Option ConstraintDetails)
    (h : c.Covers now e r) : c.Covers now (e.cleared c now reason details) r := by
  by_cases active : e.intendedState.state = .active
  · exact .inr (.inl ⟨now + c.hold, by simp [hold, active], by linarith⟩)
  · rcases h with active' | ⟨u, hu, covers⟩ | elapsed
    · exact absurd active' active
    · exact .inr (.inl ⟨u, by simp [active, hu], covers⟩)
    · exact .inr (.inr elapsed)

theorem covers_endHold {deadline : ℚ} (until_ : e.holdingUntil = some deadline) (due : deadline ≤ now)
    (h : c.Covers now e r) : c.Covers now (e.endHold c) r := by
  rcases h with active | ⟨u, hu, covers⟩ | elapsed
  · exact .inl active
  · obtain rfl : u = deadline := by simpa [hu] using until_
    exact .inr (.inr (covers.trans due))
  · exact .inr (.inr elapsed)

/-- Where the fields call for a clear state, every covered hold is over. -/
theorem holdOver_of_derivedState_clear (h : c.Covers now e r) (clear : (e.derivedState c).state = .clear) :
    c.HoldOver now r := by
  cases ready : e.isReady <;> cases hu : e.holdingUntil <;> simp [derivedState, ready, hu] at clear
  rcases h with active | ⟨u, hu', -⟩ | elapsed
  · simp [clear] at active
  · simp [hu] at hu'
  · exact elapsed

end ConstraintEvaluator

namespace Evaluation

variable {c : Constraint} {now r initialHold : ℚ} {restarting : Bool} {v v' : Evaluation}

theorem covers_fresh (h : r + c.hold ≤ now + initialHold) :
    c.Covers now (fresh c now initialHold restarting).evaluator r := by
  by_cases pos : 0 < initialHold
  · exact .inr (.inl ⟨now + initialHold, by simp [fresh, pos], h⟩)
  · exact .inr (.inr (h.trans (by linarith)))

theorem Moves.covers (hold : 0 < c.hold) (past : r ≤ now) (moves : v.Moves c now v') (h : c.Covers now v.evaluator r) :
    c.Covers now v'.evaluator r := by
  cases moves with
  | ready => simpa [reported, Constraint.Covers] using h
  | clear => exact ConstraintEvaluator.covers_cleared hold past _ _ h
  | holdElapses _ until_ due => exact ConstraintEvaluator.covers_endHold until_ due h
  | delayOver | checkEnds | timeout | readyWakes | neverReady | take | stop | cleanup => exact h

/-- The updates that are taken come from the actual state. -/
theorem Moves.taken (moves : v.Moves c now v') {state : ConstraintState} (h : v'.taken = some state) :
    v.taken = some state ∨ v.evaluator.stateUpdated ∧ v.evaluator.actualState = state := by
  cases moves with
  | take _ _ updated => exact .inr ⟨updated, by simpa using h⟩
  | _ => exact .inl h

end Evaluation

/-! ## The supervisor -/

namespace Supervisor

/-- Each reading recorded while the constraint was counted is covered, and a clear state on
its way to the manager comes after every hold. -/
structure Held (c : Constraint) (now : ℚ) (s : Supervisor) : Prop where
  first : s.evaluation = none → s.readings = []
  past : ∀ r ∈ s.readings, r ≤ now
  settled : ∀ v ∈ s.evaluation, v.evaluator.Settled c
  covered : ∀ v ∈ s.evaluation, ∀ r ∈ s.readings, c.Covers now v.evaluator r
  taken : ∀ v ∈ s.evaluation, ∀ state ∈ v.taken, state.state = .clear → ∀ r ∈ s.readings, c.HoldOver now r

/-- The step neither restarts an optional evaluator that still has a hold to keep nor calls
`constrain()` after a clear state was taken and before it is consumed. -/
def KeepsHold (c : Constraint) (now : ℚ) (counted : Bool) (s : Supervisor) : SupervisorLabel → Prop
  | .restart => counted → c.optional → ∀ v ∈ s.evaluation, v.evaluator.holdRemaining c now ≤ 0
  | .call (.constrain _ _) => counted → ∀ v ∈ s.evaluation, ∀ state ∈ v.taken, state.state ≠ .clear
  | _ => True

instance (c : Constraint) (now : ℚ) (counted : Bool) (s : Supervisor) :
    (label : SupervisorLabel) → Decidable (s.KeepsHold c now counted label)
  | .restart =>
    inferInstanceAs (Decidable (counted → c.optional → ∀ v ∈ s.evaluation, v.evaluator.holdRemaining c now ≤ 0))
  | .call (.constrain _ _) =>
    inferInstanceAs (Decidable (counted → ∀ v ∈ s.evaluation, ∀ state ∈ v.taken, state.state ≠ .clear))
  | .call .ready | .call (.clear _ _) | .start | .delayOver | .checkEnds | .holdElapses | .timeout
  | .readyWakes | .take | .consume | .stop | .cleanup => .isTrue trivial

variable {c : Constraint} {now : ℚ} {counted : Bool} {s s' : Supervisor} {label : SupervisorLabel}
  {state : Option ConstraintState}

theorem Held.later {now' : ℚ} (later : now ≤ now') (h : s.Held c now) : s.Held c now' where
  first := h.first
  past r hr := (h.past r hr).trans later
  settled := h.settled
  covered v hv r hr := (h.covered v hv r hr).mono later
  taken v hv state hs clear r hr := (h.taken v hv state hs clear r hr).trans later

/-- A new evaluation covers what the one before it covered, by the hold it starts with. -/
theorem Held.fresh {initialHold : ℚ} {restarting : Bool} (h : s.Held c now)
    (resumes : ∀ r ∈ s.readings, r + c.hold ≤ now + initialHold) :
    Held c now { s with evaluation := some (.fresh c now initialHold restarting) } where
  first := by simp
  past := h.past
  settled := by simpa using Evaluation.settled_fresh
  covered v hv r hr := by
    cases hv
    exact Evaluation.covers_fresh (resumes r hr)
  taken v hv state hs := by
    cases hv
    cases hs

theorem Held.resumes {v : Evaluation} (hold : 0 < c.hold) (h : s.Held c now) (current : s.evaluation = some v) :
    ∀ r ∈ s.readings, r + c.hold ≤ now + v.evaluator.holdRemaining c now := fun r hr =>
  ConstraintEvaluator.holdRemaining_covers hold (h.settled v current) (h.past r hr) (h.covered v current r hr)

theorem Moves.held (hold : 0 < c.hold) (keeps : s.KeepsHold c now counted label) (h : s.Held c now)
    (moves : Moves c now counted s label s' state) : s'.Held c now := by
  cases moves with
  | start first => exact h.fresh (by simp [h.first first])
  | restart current => exact h.fresh (h.resumes hold current)
  | raise => exact ⟨h.first, h.past, h.settled, h.covered, h.taken⟩
  | @goOn _ v v' current moves =>
    refine ⟨by simp, h.past, ?_, ?_, ?_⟩ <;> rintro _ ⟨⟩
    · exact moves.settled (h.settled v current)
    · exact fun r hr => moves.covers hold (h.past r hr) (h.covered v current r hr)
    · intro state hs clear r hr
      rcases moves.taken hs with taken | ⟨updated, rfl⟩
      · exact h.taken v current state taken clear r hr
      · rw [(h.settled v current).updated updated] at clear
        exact ConstraintEvaluator.holdOver_of_derivedState_clear (h.covered v current r hr) clear
  | @consume v current =>
    refine ⟨by simp, h.past, ?_, ?_, ?_⟩ <;> rintro _ ⟨⟩
    · exact h.settled v current
    · exact h.covered v current
    · simp
  | @constrain v current checking reason details =>
    refine ⟨by simp, ?_, ?_, ?_, ?_⟩
    · intro r hr
      cases counted with
      | true => exact (List.mem_cons.1 hr).elim le_of_eq (h.past r)
      | false => exact h.past r hr
    · rintro _ ⟨⟩
      exact ConstraintEvaluator.settled_constrain reason details
    · rintro _ ⟨⟩ r -
      exact ConstraintEvaluator.covers_constrain reason details
    · rintro _ ⟨⟩ state hs clear r hr
      cases counted with
      | true => exact absurd clear (keeps rfl v current state hs)
      | false => exact h.taken v current state hs clear r hr

/-- **The step that stops counting the constraint comes after every hold.** -/
theorem Moves.released (hold : 0 < c.hold) (keeps : s.KeepsHold c now true label) (h : s.Held c now)
    (moves : Moves c now true s label s' state) (released : Constraints.countedAfter true state = false) :
    ∀ r ∈ s'.readings, c.HoldOver now r := by
  cases moves with
  | start first => simp [h.first first]
  | goOn | constrain | raise => simp [Constraints.countedAfter] at released
  | @consume v current =>
    cases hs : v.taken with
    | none => simp [hs, Constraints.countedAfter] at released
    | some state =>
      exact h.taken v current state hs (by simpa [hs, Constraints.countedAfter] using released)
  | @restart v current =>
    cases optional : c.optional with
    | false => simp [ConstraintEvaluator.initialState, optional, Constraints.countedAfter] at released
    | true =>
      intro r hr
      have nothing := keeps rfl optional v current
      exact (h.resumes hold current r hr).trans (by linarith)

end Supervisor

/-! ## Runs -/

namespace Constraints

/-- The step, if it is one of the constraint `idx`, keeps its hold. -/
def KeepsHold (constraints : List Constraint) (idx : ℕ) (s : Constraints) : ConstraintsLabel → Prop
  | .task i own => i = idx → ∀ c ∈ constraints[idx]?, (s.supervisors idx).KeepsHold c s.now (s.counted idx) own
  | .tick _ => True

instance (constraints : List Constraint) (idx : ℕ) (s : Constraints) :
    (label : ConstraintsLabel) → Decidable (KeepsHold constraints idx s label)
  | .task i own =>
    inferInstanceAs (Decidable (i = idx → ∀ c ∈ constraints[idx]?,
      (s.supervisors idx).KeepsHold c s.now (s.counted idx) own))
  | .tick _ => inferInstanceAs (Decidable True)

/-- In every run under `keeps`, a step after which a constraint with a hold is no longer
counted comes after the hold of every `constrain()` reading recorded while it was counted. -/
def HoldsOutliveEvaluators (constraints : List Constraint) (keeps : ℕ → Constraints → ConstraintsLabel → Prop) :
    Prop :=
  ∀ start idx c s label t, constraints[idx]? = some c → 0 < c.hold →
    Reaches (step constraints) (keeps idx) (started constraints start) s → keeps idx s label →
    step constraints s label = some t → s.counted idx → ¬ t.counted idx →
    ∀ r ∈ (t.supervisors idx).readings, c.HoldOver t.now r

variable {constraints : List Constraint} {c : Constraint} {idx : ℕ} {start : ℚ} {s t : Constraints}

theorem held_of_keepsHold (hc : constraints[idx]? = some c) (hold : 0 < c.hold)
    (run : Reaches (step constraints) (KeepsHold constraints idx) (started constraints start) s) :
    (s.supervisors idx).Held c s.now := by
  have first : ((started constraints start).supervisors idx).Held c start := by
    constructor <;> simp [started]
  refine run.invariant (I := fun s => (s.supervisors idx).Held c s.now) first fun t label u h keeps hs => ?_
  rcases step_cases hc hs with ⟨later, same, -⟩ | ⟨own, state, rfl, now, moved, -⟩
  · rw [same]
    exact h.later later
  · rw [now]
    exact (Supervisor.moves_of_step moved).held hold (keeps rfl c hc) h

/-- **A hold outlives the evaluator**, in every run whose steps keep the hold. -/
theorem holdsOutliveEvaluators_of_keepsHold (constraints : List Constraint) :
    HoldsOutliveEvaluators constraints (KeepsHold constraints) := by
  intro start idx c s label t hc hold run keeps hs counted released
  have held := held_of_keepsHold hc hold run
  rcases step_cases hc hs with ⟨-, -, same⟩ | ⟨own, state, rfl, now, moved, after⟩
  · exact absurd (same ▸ counted) released
  · rw [now]
    rw [counted] at moved after
    have keeps := keeps rfl c hc
    rw [counted] at keeps
    exact (Supervisor.moves_of_step moved).released hold keeps held (by simpa [after] using released)

/-- An optional constraint that is held for ten seconds. -/
def optionalConstraint : Constraint := { kind := "weather", hold := 10, optional := true }

/-- It is constrained twice, and its check ends with the second reading still active. -/
def optionalConstraintEnds : List ConstraintsLabel :=
  [.start, .readyWakes, .call (.constrain "rain" none), .take, .consume, .call (.constrain "rain" none),
    .checkEnds, .consume].map (.task 0)

/-- The restart releases the constraint at the time of its second reading. -/
theorem not_holdsOutliveEvaluators_optional :
    ¬ HoldsOutliveEvaluators [optionalConstraint] fun _ => always := by
  intro h
  have elapsed := h 0 0 optionalConstraint
    ((exec (step [optionalConstraint]) (started [optionalConstraint] 0) optionalConstraintEnds).get
      (by decide +kernel))
    (.task 0 .restart) (Option.get (step [optionalConstraint] _ (.task 0 .restart)) (by decide +kernel))
    rfl (by decide +kernel) (reaches_of_exec (Option.some_get _).symm okAlong_always) trivial
    (Option.some_get _).symm (by decide +kernel) (by decide +kernel) 0 (by decide +kernel)
  exact absurd elapsed (by unfold Constraint.HoldOver; decide +kernel)

/-- The same constraint, cleared after its second reading and left to its hold. -/
def optionalConstraintHolds : List ConstraintsLabel :=
  [.start, .readyWakes, .call (.constrain "rain" none), .take, .consume, .call (.constrain "rain" none),
    .call (.clear "dry" none)].map (.task 0) ++ [.tick 10] ++ [.holdElapses, .take].map (.task 0)

/-- It is released when the ten seconds are over. -/
theorem holdsOutliveEvaluators_example :
    ∃ s t : Constraints, Reaches (step [optionalConstraint]) (KeepsHold [optionalConstraint] 0)
        (started [optionalConstraint] 0) s ∧
      step [optionalConstraint] s (.task 0 .consume) = some t ∧ s.counted 0 ∧ ¬ t.counted 0 ∧
      (t.supervisors 0).readings = [0] ∧ ∀ r ∈ (t.supervisors 0).readings, optionalConstraint.HoldOver t.now r := by
  have run : Reaches (step [optionalConstraint]) (KeepsHold [optionalConstraint] 0)
      (started [optionalConstraint] 0)
      ((exec (step [optionalConstraint]) (started [optionalConstraint] 0) optionalConstraintHolds).get
        (by decide +kernel)) :=
    reaches_of_exec (Option.some_get _).symm (by decide +kernel)
  exact ⟨_, (step [optionalConstraint] _ (.task 0 .consume)).get (by decide +kernel), run,
    (Option.some_get _).symm, by decide +kernel, by decide +kernel, by decide +kernel,
    holdsOutliveEvaluators_of_keepsHold [optionalConstraint] 0 0 optionalConstraint _ _ _ rfl (by decide +kernel)
      run (by decide +kernel) (Option.some_get _).symm (by decide +kernel) (by decide +kernel)⟩

end Constraints

end SensorKit.Auto
