import SensorKit.Common.DagCancellation

/-!
# Where a run stands

A run that may be cancelled at any of its steps waits, drains or is over, and the answers that the caller
has given so far say which of these it is and, at its end, how it ended. Programs that run several graphs
rest on this: what they do next depends on the ending alone.
-/

namespace SensorKit.Common

open Lib

variable {π : Type}

namespace Execution

open RunState

variable {g : Graph π} {e f : Execution π} {seen : List Bool}

/-- How a run ends after the caller has given the answers. -/
def endsAs (seen : List Bool) : Ending :=
  if seen = [] then .returned false else endingOf seen

/-- The run after the answers `seen`. -/
inductive After (g : Graph π) (seen : List Bool) (e : Execution π) : Prop where
  | waits (waits : Waits g e) (unasked : seen = []) (counted : e.cancellations = 0)
  | drains (live : Live g e) (hard : Bool) (declined : Option ℕ) (draining : e.phase = .draining hard declined)
      (told : Told seen hard declined e.cancellations)
  | done (finished : e.phase = .finished (endsAs seen)) (counted : e.cancellations = seen.length)
      (idle : ∀ n, ¬ e.state.InFlight n) (resolved : ∀ n, (e.state.results n).isSome ↔ n ∈ g.nodes.map Node.id)

theorem cancellations_proceed (e : Execution π) : (proceed e).cancellations = e.cancellations := by
  unfold proceed
  dsimp only
  split_ifs <;> rfl

/-- Each step counts the cancellation that it is. -/
theorem cancellations_of_step {label : RunLabel} (hs : e.step label = some f) :
    f.cancellations = e.cancellations + label.answer.toList.length := by
  cases takes_of_step hs with
  | wake => exact cancellations_proceed _
  | _ => rfl

namespace After

theorem counted (h : After g seen e) : e.cancellations = seen.length := by
  cases h with
  | waits _ unasked counted => rw [counted, unasked, List.length_nil]
  | drains _ _ _ _ told => exact told.counted
  | done _ counted => exact counted

/-- A run that waits or is complete has not been cancelled. -/
theorem of_next (next : Waits g e ∨ Complete g e) (after : Live g e ∨ Over e) (counted : e.cancellations = 0) :
    After g [] e := by
  rcases next with waits | done
  · exact .waits waits rfl counted
  · have after : Over e := after.resolve_left fun live => live.going _ done.returned
    exact .done done.returned counted after.idle done.resolved

theorem start (valid : g.Valid) : After g [] (start g) :=
  of_next (waits_start valid) (live_start valid.ids valid.hard_deps) (cancellations_proceed _)

/-- **One step of a run**, cancelled or not. -/
theorem step {label : RunLabel} (valid : g.Valid) (h : After g seen e) (hs : e.step label = some f) :
    After g (seen ++ label.answer.toList) f := by
  have count := cancellations_of_step hs
  cases h with
  | waits waits unasked counted =>
    subst unasked
    cases answer : label.answer with
    | none =>
      have uncancelled : Uncancelled e label := fun absorbed same => by
        rw [same] at answer
        cases answer
      apply of_next (waits.step valid uncancelled hs).1 (waits.toLive.step hs)
      simpa [answer, counted] using count
    | some absorbed =>
      obtain rfl : label = .cancel absorbed := by
        cases label with
        | cancel absorbed' => exact congrArg RunLabel.cancel (Option.some.inj answer)
        | _ => cases answer
      have going := waits.toLive.step hs
      simp only [Execution.step, waits.waiting] at hs
      cases hs
      refine .drains (live_of_unfinished going (by simp)) (!absorbed) none rfl ⟨by simp [counted], by simp, ?_⟩
      intro soft
      cases absorbed with
      | true => rfl
      | false => simp at soft
  | drains live hard declined draining told =>
    have going := live.step hs
    cases label with
    | dispatch n => simp [Execution.step, draining] at hs
    | wake => simp [Execution.step, draining] at hs
    | ends n outcome =>
      obtain ⟨-, rfl⟩ := ends_draining hs
      have live' := live_of_unfinished going (by simp [setTask, draining])
      exact .drains live' hard declined draining (by simpa [RunLabel.answer, setTask] using told)
    | cancel absorbed =>
      have told' := told.more absorbed
      simp only [Execution.step, draining] at hs
      cases hs
      exact .drains (live_of_unfinished going (by simp)) hard _ rfl (by cases declined <;> exact told')
    | drained =>
      have drains := live.drained draining told hs
      have asked : seen ≠ [] := by
        rintro rfl
        simpa using told.first
      have unanswered : seen ++ (RunLabel.drained).answer.toList = seen := List.append_nil seen
      obtain ⟨-, rfl⟩ := drained_eq draining hs
      rw [unanswered]
      have after := going.resolve_left fun live => live.going _ rfl
      refine .done ?_ told.counted after.idle (drains.resolved _ rfl)
      rw [endsAs, if_neg asked, ← told.ending]
  | done finished =>
    cases label <;> simp [Execution.step, finished] at hs

/-- A run is not stuck before its end. -/
theorem goes_on (h : After g seen e) (unfinished : ∀ ending, e.phase ≠ .finished ending) :
    ∃ label, (∀ absorbed, label ≠ .cancel absorbed) ∧ (e.step label).isSome := by
  cases h with
  | waits waits => exact waits.goes_on
  | drains live hard declined draining =>
    by_cases flight : ∃ n, e.state.InFlight n
    · obtain ⟨n, flight⟩ := flight
      exact ⟨.ends n .cancelled, by simp, ends_enabled draining flight⟩
    · exact ⟨.drained, by simp, drained_enabled draining (not_exists.1 flight)⟩
  | done finished => exact absurd finished (unfinished _)

/-- Until it is over, a run can be cancelled. -/
theorem cancellable (h : After g seen e) (unfinished : ∀ ending, e.phase ≠ .finished ending) (absorbed : Bool) :
    (e.step (.cancel absorbed)).isSome := by
  cases h with
  | waits waits => simp [Execution.step, waits.waiting]
  | drains live hard declined draining => simp [Execution.step, draining]
  | done finished => exact absurd finished (unfinished _)

/-- How the run ended, and that nothing is left of it. -/
theorem ended {ending : Ending} (h : After g seen e) (finished : e.phase = .finished ending) :
    ending = endsAs seen ∧ (∀ n, ¬ e.state.InFlight n) ∧ ∀ n, (e.state.results n).isSome ↔ n ∈ g.nodes.map Node.id := by
  cases h with
  | waits waits => simp [waits.waiting] at finished
  | drains live hard declined draining => simp [draining] at finished
  | done finished' _ idle resolved =>
    rw [finished] at finished'
    exact ⟨RunnerPhase.finished.inj finished', idle, resolved⟩

end After

/-- No answer declines a cancellation. -/
theorem undeclined_iff : seen.findIdx? (!·) = none ↔ false ∉ seen := by
  rw [List.findIdx?_eq_none_iff]
  constructor
  · intro absorbed mem
    have := absorbed false mem
    simp at this
  · intro absorbed answer mem
    cases answer with
    | true => rfl
    | false => exact absurd mem absorbed

theorem endsAs_ne_deadlock (seen : List Bool) : endsAs seen ≠ .deadlock := by
  unfold endsAs endingOf
  split_ifs
  · simp
  · split <;> simp

/-- A run whose every cancellation was absorbed returns, aborted if there was one. -/
theorem endsAs_absorbed (absorbed : false ∉ seen) : endsAs seen = .returned (!seen.isEmpty) := by
  unfold endsAs endingOf
  rw [undeclined_iff.2 absorbed]
  cases seen <;> rfl

/-- A run in which one was declined raises the first that was. -/
theorem endsAs_declined {cancellation : ℕ} (declined : seen.findIdx? (!·) = some cancellation) :
    endsAs seen = .raised cancellation := by
  unfold endsAs endingOf
  rw [if_neg, declined]
  rintro rfl
  simp at declined

end Execution

end SensorKit.Common
