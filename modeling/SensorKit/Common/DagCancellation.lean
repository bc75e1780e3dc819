import SensorKit.Common.DagSafety

/-!
# Runs that are cancelled

The first cancellation ends the loop of the runner. From there on nothing is dispatched: the tasks in
the run are cancelled and waited for, again after every further cancellation, and when all have ended
they are recorded and what is pending is cancelled. The answers that the caller gave as the cancellations
arrived say how the run ends.
-/

namespace SensorKit.Common

open Lib

variable {π : Type}

/-- The caller's answer to a cancellation. -/
def RunLabel.answer : RunLabel → Option Bool
  | .cancel absorbed => some absorbed
  | _ => none

namespace Execution

open RunState

variable {g : Graph π} {d e f : Execution π} {seen : List Bool} {hard : Bool} {declined : Option ℕ}

/-- The answers to the cancellations of a run, as they arrived. -/
def answers (labels : List RunLabel) : List Bool :=
  labels.filterMap RunLabel.answer

/-- How a run ends that was cancelled: it returns if every cancellation was absorbed, and raises the
first that was declined if not. -/
def endingOf (answers : List Bool) : Ending :=
  match answers.findIdx? (!·) with
  | none => .returned true
  | some cancellation => .raised cancellation

/-- What the runner knows of the answers while it drains. -/
structure Told (seen : List Bool) (hard : Bool) (declined : Option ℕ) (count : ℕ) : Prop where
  counted : count = seen.length
  first : seen.head? = some (!hard)
  later : hard = false → declined = seen.findIdx? (!·)

theorem Told.ending {count : ℕ} (h : Told seen hard declined count) :
    Execution.ending hard declined = endingOf seen := by
  cases hard with
  | false =>
    rw [h.later rfl]
    rfl
  | true =>
    obtain ⟨rest, rfl⟩ : ∃ rest, seen = false :: rest := by
      cases seen with
      | nil => simpa using h.first
      | cons answer rest => exact ⟨rest, by simpa using h.first⟩
    simp [Execution.ending, endingOf, List.findIdx?_cons]

/-- One more answer, asked for only if none has been declined. -/
theorem Told.more {count : ℕ} (h : Told seen hard declined count) (absorbed : Bool) :
    Told (seen ++ [absorbed]) hard (declined.or (if !hard && absorbed then none else some count)) (count + 1) := by
  refine ⟨by simp [h.counted], ?_, fun soft => ?_⟩
  · rw [List.head?_append, h.first]
    rfl
  · subst soft
    rw [List.findIdx?_append, ← h.later rfl, h.counted]
    cases declined <;> cases absorbed <;> simp

/-- What a drain that began at `d`, after the answers `seen`, has come to. -/
structure Drains (g : Graph π) (d : Execution π) (seen : List Bool) (labels : List RunLabel) (e : Execution π) :
    Prop where
  /-- Nothing is dispatched. -/
  dispatched : e.dispatched = d.dispatched
  /-- No result is ever replaced. -/
  kept : ∀ n r, d.state.results n = some r → e.state.results n = some r
  /-- The drain is not stuck before its end. -/
  goes_on : (∀ ending, e.phase ≠ .finished ending) →
    ∃ label, (∀ absorbed, label ≠ .cancel absorbed) ∧ (e.step label).isSome
  /-- It ends as the answers say, with no task left. -/
  answered : ∀ ending, e.phase = .finished ending → ending = endingOf (seen ++ answers labels)
  idle : ∀ ending, e.phase = .finished ending → ∀ n, e.state.running n = none
  resolved : ∀ ending, e.phase = .finished ending →
    ∀ n, (e.state.results n).isSome ↔ n ∈ g.nodes.map Node.id
  /-- What was in flight has ended, and is recorded as it ended. -/
  flown : ∀ ending, e.phase = .finished ending → ∀ n, d.state.InFlight n →
    ∃ outcome, .ends n outcome ∈ labels ∧ e.state.results n = some (result outcome)
  ended : ∀ ending, e.phase = .finished ending → ∀ n outcome, d.state.running n = some (.ended outcome) →
    e.state.results n = some (result outcome)
  /-- What was pending is recorded cancelled. -/
  left : ∀ ending, e.phase = .finished ending → ∀ n ∈ d.state.pending,
    e.state.results n = some { status := .cancelled }

/-- A task ends during the drain. -/
theorem ends_draining {n : ℕ} {outcome : TaskEnd} (hs : d.step (.ends n outcome) = some f) : d.state.InFlight n ∧ f = d.setTask n (.ended outcome) := by
  cases takes_of_step hs with
  | ends _ running called =>
    refine ⟨?_, rfl⟩
    rcases called with rfl | ⟨rfl, -⟩
    · exact .inr running
    · exact .inl running

section

variable (draining : d.phase = .draining hard declined)
include draining

theorem ends_enabled {n : ℕ} (flight : d.state.InFlight n) : (d.step (.ends n .cancelled)).isSome := by
  rcases flight with running | running <;> simp [Execution.step, draining, running]

/-- The drain is over when no task is in flight. -/
theorem drained_enabled (idle : ∀ n, ¬ d.state.InFlight n) : (d.step .drained).isSome := by
  simp only [Execution.step, draining]
  rw [if_pos]
  · rfl
  · refine List.all_eq_true.2 fun nd _ => ?_
    cases running : d.state.running nd.id with
    | none => rfl
    | some task =>
      cases task with
      | created => exact absurd (.inl running) (idle nd.id)
      | dispatched => exact absurd (.inr running) (idle nd.id)
      | ended outcome => rfl

theorem drained_eq (hs : d.step .drained = some f) : (∀ nd ∈ d.state.graph.nodes, ¬ d.state.InFlight nd.id) ∧
      f = { d with state := d.state.recordAll.cancelPending, phase := .finished (ending hard declined) } := by
  cases takes_of_step hs with
  | drained draining' idle =>
    obtain ⟨⟩ := draining.symm.trans draining'
    exact ⟨idle, rfl⟩

end

/-- The end of a drain. -/
theorem Live.drained {count : ℕ} (h : Live g d) (draining : d.phase = .draining hard declined)
    (told : Told seen hard declined count) (hs : d.step .drained = some e) : Drains g d seen [.drained] e := by
  obtain ⟨done, rfl⟩ := drained_eq draining hs
  obtain ⟨sound, records⟩ := h.sound.recordAll
  obtain rfl := h.graph
  have flight (n : ℕ) : ¬ d.state.InFlight n := by
    intro flight
    obtain ⟨nd, node, rfl⟩ := h.sound.nodes_only n (.inr (running_of_inFlight flight))
    exact done nd node flight
  have idle (n : ℕ) : d.state.recordAll.running n = none := by
    cases running : d.state.recordAll.running n with
    | none => rfl
    | some task =>
      cases task with
      | created => exact absurd (.inl (records.running n _ running)) (flight n)
      | dispatched => exact absurd (.inr (records.running n _ running)) (flight n)
      | ended outcome => exact absurd running (h.sound.not_ended_recordAll n outcome)
  have moves := records.moves.trans sound.moves_cancelPending
  refine ⟨rfl, moves.results, fun unfinished => absurd rfl (unfinished _), fun ending finished => ?_, fun _ _ => idle,
    fun _ _ n => ?_, fun _ _ n fly => absurd fly (flight n), fun _ _ n outcome ended => ?_, fun _ _ n mem => ?_⟩
  · rw [← RunnerPhase.finished.inj finished, told.ending]
    exact congrArg endingOf (by simp [answers, RunLabel.answer])
  · rw [sound.isSome_cancelPending (fun n ⟨task, running⟩ => by simp [idle n] at running), records.graph]
  · exact sound.moves_cancelPending.results n _ (h.sound.recordAll_results ended)
  · have mem : n ∈ d.state.recordAll.pending := records.pending ▸ mem
    simp [cancelPending, mem]

/-- **A run after its first cancellation.** By induction on what happens from there on. -/
theorem Live.drains (labels : List RunLabel) : ∀ {d : Execution π} {seen : List Bool} {declined : Option ℕ}, Live g d →
    d.phase = .draining hard declined → Told seen hard declined d.cancellations →
    exec Execution.step d labels = some e → Drains g d seen labels e := by
  induction labels with
  | nil =>
    intro d seen declined h draining _ run
    obtain rfl := Option.some.inj run
    have unfinished {ending : Ending} (finished : d.phase = .finished ending) : False := by simp [draining] at finished
    refine ⟨rfl, fun _ _ => id, fun _ => ?_, fun _ finished => (unfinished finished).elim,
      fun _ finished => (unfinished finished).elim, fun _ finished => (unfinished finished).elim,
      fun _ finished => (unfinished finished).elim, fun _ finished => (unfinished finished).elim,
      fun _ finished => (unfinished finished).elim⟩
    by_cases flight : ∃ n, d.state.InFlight n
    · obtain ⟨n, flight⟩ := flight
      exact ⟨.ends n .cancelled, by simp, ends_enabled draining flight⟩
    · exact ⟨.drained, by simp, drained_enabled draining (not_exists.1 flight)⟩
  | cons label labels ih =>
    intro d seen declined h draining told run
    obtain ⟨m, hs, rest⟩ := exec_cons_eq_some.1 run
    have going := h.step hs
    cases label with
    | dispatch n => simp [Execution.step, draining] at hs
    | wake => simp [Execution.step, draining] at hs
    | ends n outcome =>
      obtain ⟨flight, rfl⟩ := ends_draining hs
      have live : Live g (d.setTask n (.ended outcome)) := live_of_unfinished going (by simp [setTask, draining])
      have drains := ih live draining told rest
      have here : (d.setTask n (.ended outcome)).state.running n = some (.ended outcome) := by simp [setTask]
      have others {m : ℕ} (other : m ≠ n) : (d.setTask n (.ended outcome)).state.running m = d.state.running m := by
        simp [setTask, Function.update_of_ne other]
      refine ⟨drains.dispatched, drains.kept, drains.goes_on, drains.answered, drains.idle, drains.resolved,
        fun ending finished m fly => ?_, fun ending finished m outcome' ended => ?_, drains.left⟩
      · by_cases same : m = n
        · exact ⟨outcome, by simp [same], drains.ended ending finished m outcome (same ▸ here)⟩
        · obtain ⟨outcome', mem, result⟩ := drains.flown ending finished m (by
            simpa only [InFlight, others same] using fly)
          exact ⟨outcome', List.mem_cons_of_mem _ mem, result⟩
      · have other : m ≠ n := by
          rintro rfl
          rcases flight with running | running <;> simp [running] at ended
        exact drains.ended ending finished m outcome' ((others other).trans ended)
    | cancel absorbed =>
      simp only [Execution.step, draining] at hs
      cases hs
      have live := live_of_unfinished going (by simp)
      have drains := ih live (by cases declined <;> rfl) (told.more absorbed) rest
      refine ⟨drains.dispatched, drains.kept, drains.goes_on, fun ending finished => ?_, drains.idle, drains.resolved,
        fun ending finished n fly => ?_, drains.ended, drains.left⟩
      · simpa [answers, RunLabel.answer] using drains.answered ending finished
      · obtain ⟨outcome, mem, result⟩ := drains.flown ending finished n fly
        exact ⟨outcome, List.mem_cons_of_mem _ mem, result⟩
    | drained =>
      have done := going.resolve_left fun live => by
        obtain ⟨-, rfl⟩ := drained_eq draining hs
        exact live.going _ rfl
      cases labels with
      | nil =>
        cases rest
        exact h.drained draining told hs
      | cons label labels =>
        rw [exec_cons, done.step] at rest
        simp at rest

/-- Before its first cancellation a run does not drain. -/
theorem undrained_of_reaches (run : Reaches Execution.step Uncancelled (start g) e) :
    (∀ hard declined, e.phase ≠ .draining hard declined) ∧ e.cancellations = 0 := by
  have kept (e : Execution π) : (proceed e).cancellations = e.cancellations ∧
      ((∀ hard declined, e.phase ≠ .draining hard declined) →
        ∀ hard declined, (proceed e).phase ≠ .draining hard declined) := by
    unfold proceed
    dsimp only
    split_ifs <;> simp
  refine run.invariant
    (I := fun e => (∀ hard declined, e.phase ≠ .draining hard declined) ∧ e.cancellations = 0) ?_
    fun e label f h uncancelled hs => ?_
  · exact ⟨(kept _).2 (by simp), (kept _).1⟩
  cases takes_of_step hs with
  | wake => exact ⟨(kept _).2 h.1, (kept _).1.trans h.2⟩
  | cancel => exact absurd rfl (uncancelled _)
  | drained draining => exact absurd draining (h.1 _ _)
  | _ => exact h

/-- **The cancellation protocol.** A run that reached `d` without a cancellation gets a first one there,
and any others later, while tasks end as they like. It dispatches nothing more, ends only when every task
has ended and is recorded and what was pending is recorded cancelled, and returns if the caller absorbed
every cancellation, or raises the first that the caller declined. -/
theorem cancellationProtocol {before after : List RunLabel} {first : Bool} (ids : (g.nodes.map Node.id).Nodup)
    (hard_deps : ∀ n, ∀ d ∈ g.hard n, d ∈ g.deps n) (uncancelled : ∀ absorbed, .cancel absorbed ∉ before)
    (begun : exec Execution.step (start g) before = some d)
    (run : exec Execution.step d (.cancel first :: after) = some e) :
    Drains g d [] (.cancel first :: after) e := by
  have reached : Reaches Execution.step Uncancelled (start g) d :=
    reaches_of_exec begun (okAlong_of_forall fun label mem _ absorbed => by
      rintro rfl
      exact uncancelled absorbed mem)
  obtain ⟨undrained, none⟩ := undrained_of_reaches reached
  obtain ⟨m, hs, rest⟩ := exec_cons_eq_some.1 run
  have live : Live g d := by
    rcases live_of_reaches ids hard_deps (reached.mono fun _ _ _ => trivial) with live | done
    · exact live
    · simp [done.step] at hs
  have waiting : d.phase = .waiting := by
    cases phase : d.phase with
    | waiting => rfl
    | draining hard declined => exact absurd phase (undrained hard declined)
    | finished ending => exact absurd phase (live.going ending)
  have going := live.step hs
  simp only [Execution.step, waiting] at hs
  cases hs
  have live' := live_of_unfinished going (by simp)
  have told : Told [first] (!first) Option.none (d.cancellations + 1) :=
    ⟨by simp [none], by simp, by cases first <;> simp⟩
  have drains := live'.drains after rfl told rest
  refine ⟨drains.dispatched, drains.kept, drains.goes_on, fun ending finished => ?_, drains.idle, drains.resolved,
    fun ending finished n fly => ?_, drains.ended, drains.left⟩
  · simpa [answers, RunLabel.answer] using drains.answered ending finished
  · obtain ⟨outcome, mem, result⟩ := drains.flown ending finished n fly
    exact ⟨outcome, List.mem_cons_of_mem _ mem, result⟩

theorem cancellationProtocol_example : ∃ d e, exec Execution.step (start pair.frozen) [.dispatch 0] = some d ∧
    exec Execution.step d [.cancel true, .cancel false, .ends 0 .ok, .cancel true, .drained] = some e ∧
    e.phase = .finished (.raised 1) ∧
    Drains pair.frozen d [] [.cancel true, .cancel false, .ends 0 .ok, .cancel true, .drained] e := by
  obtain ⟨d, begun⟩ : ∃ d, exec Execution.step (start pair.frozen) [.dispatch 0] = some d :=
    Option.isSome_iff_exists.1 (by decide +kernel)
  have whole : ((exec Execution.step (start pair.frozen) [.dispatch 0]).bind fun d =>
      exec Execution.step d [.cancel true, .cancel false, .ends 0 .ok, .cancel true, .drained]).map
        Execution.phase = some (.finished (.raised 1)) := by decide +kernel
  rw [begun, Option.bind_some] at whole
  obtain ⟨e, run, ended⟩ := Option.map_eq_some_iff.1 whole
  exact ⟨d, e, begun, run, ended,
    cancellationProtocol (by decide) pair.frozen_hard (by simp) begun run⟩

end Execution

end SensorKit.Common
