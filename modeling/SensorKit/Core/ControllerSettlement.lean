import SensorKit.Core.ControllerRuns

/-!
# Settlement and latches

The resolver changes in two places: a report is recorded, and a lifecycle run settles when its finish
holds the lock. Every other step leaves it, and the record of every settled run, as it was. What a
settlement leaves is read off the finish it records, and a latch stays until one records a success.
-/

namespace SensorKit.Core

open Lib

variable {K : Type}

/-- The records of a run agree on all that settling reads and writes. -/
structure TaskRun.SameRecord (r r' : TaskRun K) : Prop where
  task : r'.task = r.task
  submittedContext : r'.submittedContext = r.submittedContext
  started : r'.started = r.started
  finishInfo : r'.finishInfo = r.finishInfo

theorem TaskRun.SameRecord.trans {r r' r'' : TaskRun K} (h : r.SameRecord r') (h' : r'.SameRecord r'') :
    r.SameRecord r'' :=
  ⟨h'.task.trans h.task, h'.submittedContext.trans h.submittedContext, h'.started.trans h.started,
    h'.finishInfo.trans h.finishInfo⟩

theorem TaskRun.SameRecord.lifecycle {r r' : TaskRun K} (h : r.SameRecord r') : r'.lifecycle = r.lifecycle := by
  unfold TaskRun.lifecycle
  rw [h.task]

namespace Controller

variable {s t u : Controller K} {n : ℕ} {r r' : TaskRun K}

/-! ## Steps that settle nothing -/

/-- Each run that is settled in `t` was settled in `s`, with the same record. -/
def Settled (s t : Controller K) (n : ℕ) : Prop :=
  ∀ r', t.runs n = some r' → r'.phase = .finished → ∃ r, s.runs n = some r ∧ r.phase = .finished ∧ r.SameRecord r'

/-- A step that leaves the resolver and the settled runs alone. -/
structure Undisturbed (s t : Controller K) : Prop where
  states : t.states = s.states
  runs : ∀ n, s.Settled t n

theorem settled_of_eq (runs : t.runs n = s.runs n) : s.Settled t n :=
  fun r' run phase => ⟨r', runs ▸ run, phase, rfl, rfl, rfl, rfl⟩

theorem Settled.trans (h : s.Settled t n) (h' : t.Settled u n) : s.Settled u n := by
  intro r'' run phase
  obtain ⟨r', run', phase', same'⟩ := h' r'' run phase
  obtain ⟨r, run, phase, same⟩ := h r' run' phase'
  exact ⟨r, run, phase, same.trans same'⟩

theorem Undisturbed.of_eq (states : t.states = s.states) (runs : t.runs = s.runs) : s.Undisturbed t :=
  ⟨states, fun n => settled_of_eq (congrFun runs n)⟩

theorem Undisturbed.trans (h : s.Undisturbed t) (h' : t.Undisturbed u) : s.Undisturbed u :=
  ⟨h'.states.trans h.states, fun n => (h.runs n).trans (h'.runs n)⟩

/-- The change of a run that is not settled after, or was before and keeps its record. -/
theorem undisturbed_setRun (hr : s.runs n = some r)
    (h : r'.phase = .finished → r.phase = .finished ∧ r.SameRecord r') : s.Undisturbed (s.setRun n r') := by
  refine ⟨rfl, fun m rm run phase => ?_⟩
  rcases runs_setRun run with ⟨rfl, rfl⟩ | ⟨-, run⟩
  · obtain ⟨phase, same⟩ := h phase
    exact ⟨r, hr, phase, same⟩
  · exact ⟨rm, run, phase, rfl, rfl, rfl, rfl⟩

theorem undisturbed_release (s : Controller K) : s.Undisturbed s.release :=
  .of_eq rfl rfl

theorem undisturbed_emitAll [DecidableEq K] (s : Controller K) (events : List (Event K)) :
    s.Undisturbed (s.emitAll events) :=
  .of_eq (by simp) (by simp)

theorem undisturbed_cancel [DecidableEq K] (s : Controller K) (n : ℕ) : s.Undisturbed (s.cancel n) := by
  rcases s.cancel_cases n with ⟨same, -⟩ | ⟨r, r', lock, hr, -, moves, -, eq⟩
  · rw [same]
    exact .of_eq rfl rfl
  · rw [eq]
    have changed : Undisturbed { s with lock } (setRun { s with lock } n r') := by
      apply undisturbed_setRun (s := { s with lock }) hr
      intro phase
      cases moves <;> exact ⟨phase, rfl, rfl, rfl, rfl⟩
    exact ⟨changed.states, changed.runs⟩

/-- A run that is attached has yet to begin. -/
theorem undisturbed_attach (phase : r.phase ≠ .finished) : s.Undisturbed (s.attach r).release := by
  refine ⟨rfl, fun m rm run settled => ?_⟩
  rcases runs_setRun run with ⟨rfl, rfl⟩ | ⟨-, run⟩
  · exact absurd settled phase
  · exact ⟨rm, run, settled, rfl, rfl, rfl, rfl⟩

theorem undisturbed_finished (s : Controller K) (n : ℕ) (raised : Option String) :
    s.Undisturbed (s.finished n raised).release := by
  refine Undisturbed.trans ?_ (undisturbed_release _)
  unfold Controller.finished
  split
  · rename_i r run
    split
    · exact undisturbed_setRun run fun phase => ⟨phase, rfl, rfl, rfl, rfl⟩
    · exact .of_eq rfl rfl
  · exact .of_eq rfl rfl

/-- The end of a finish keeps each record. -/
theorem exists_finished {m : ℕ} (run : s.runs m = some r) (n : ℕ) (raised : Option String) :
    ∃ r', (s.finished n raised).release.runs m = some r' ∧ r'.phase = r.phase ∧ r.SameRecord r' := by
  unfold Controller.finished
  cases run₀ : s.runs n with
  | none => exact ⟨r, run, rfl, rfl, rfl, rfl, rfl⟩
  | some r₀ =>
    dsimp only
    split
    · by_cases same : m = n
      · subst same
        obtain rfl : r₀ = r := by simpa [run] using run₀.symm
        exact ⟨_, Function.update_self .., rfl, rfl, rfl, rfl, rfl⟩
      · exact ⟨r, (Function.update_of_ne same ..).trans run, rfl, rfl, rfl, rfl, rfl⟩
    · exact ⟨r, run, rfl, rfl, rfl, rfl, rfl⟩

/-- What a runner does to its own run settles nothing. -/
theorem undisturbed_moves (c : s.Consistent) (hr : s.runs n = some r) (moves : s.RunnerMoves r r') :
    r'.phase = .finished → r.phase = .finished ∧ r.SameRecord r' := by
  have record := c.runs n r hr
  intro phase
  -- A run at work is not finished, so its record may still change.
  have working (stage : r.stage = .joining ∨ r.stage = .handling ∨ r.stage = .confirming)
      (phase : r.phase = .finished) : False := by
    rcases stage with stage | stage | stage <;> simp [TaskRun.Consistent, stage, phase] at record
  cases moves with
  | cancelledBefore => exact ⟨phase, rfl, rfl, rfl, rfl⟩
  | executes => cases phase
  | joinFails stage => exact (working (.inl stage) phase).elim
  | joinCancelled => exact ⟨phase, rfl, rfl, rfl, rfl⟩
  | handlerCancelled => exact ⟨phase, rfl, rfl, rfl, rfl⟩
  | fails stage => exact (working (.inr stage) phase).elim
  | succeeds stage => exact (working (.inr stage) phase).elim
  | confirms => exact ⟨phase, rfl, rfl, rfl, rfl⟩
  | finishes => exact ⟨phase, rfl, rfl, rfl, rfl⟩
  | ends => exact ⟨phase, rfl, rfl, rfl, rfl⟩

theorem undisturbed_recover {events : List (Event K)} {next : Next K} (c : s.Consistent) (o : s.Ordered)
    (pub : s.publication = some ⟨events, next⟩) (message : String) : s.Undisturbed (s.recover message next) := by
  cases next with
  | attach r prior => exact .of_eq rfl rfl
  | start n behind =>
    simp only [Controller.recover]
    split
    · rename_i r run
      refine Undisturbed.trans (undisturbed_setRun run fun phase => ?_) (undisturbed_release _)
      obtain ⟨⟨r₀, run₀, stage⟩, -⟩ := o.starting events n behind pub
      obtain rfl : r₀ = r := by simpa [run] using run₀.symm
      have record := c.runs n r₀ run
      have phase : r₀.phase = .finished := phase
      simp [TaskRun.Consistent, stage, phase] at record
    · exact .of_eq rfl rfl
  | finish n mismatch => exact undisturbed_finished s n _
  | abort n => exact undisturbed_release s
  | release => exact undisturbed_release s

/-! ## What a step does to the resolver -/

/-- The step settles the run, recorded as `r`. -/
structure Settles (s t : Controller K) (n : ℕ) (r : TaskRun K) : Prop where
  before : ∃ r₀, s.runs n = some r₀ ∧ r₀.phase ≠ .finished
  run : t.runs n = some r
  phase : r.phase = .finished

variable [DecidableEq K]

/-- A step leaves the resolver alone, records a report, or settles a run. -/
inductive Resolves (s t : Controller K) : Prop where
  | same (undisturbed : s.Undisturbed t)
  | reported (state : InternalControllerState) (context : Option K)
      (states : t.states = s.states.recordObserved state context) (runs : ∀ n, s.Settled t n)
  | settled (n : ℕ) (r r' : TaskRun K) (run : s.runs n = some r) (unfinished : r.phase ≠ .finished)
      (run' : t.runs n = some r') (phase : r'.phase = .finished) (states : t.states = (s.settle r).2.1)
      (same : (s.settle r).1.SameRecord r') (others : ∀ m, m ≠ n → s.Settled t m)

theorem Resolves.finish (hr : s.runs n = some r) (unfinished : r.phase ≠ .finished) : s.Resolves (s.finish n r) := by
  -- The record is written before anything is published.
  have settle : Resolves s ({ s with states := (s.settle r).2.1 }.setRun n { (s.settle r).1 with phase := .finished }) := by
    refine .settled n r _ hr unfinished (Function.update_self ..) rfl rfl ⟨rfl, rfl, rfl, rfl⟩ fun m other => ?_
    exact settled_of_eq (Function.update_of_ne other ..)
  have onward {t u : Controller K} (h : s.Resolves t) (h' : t.Undisturbed u)
      (kept : ∀ m rm, t.runs m = some rm → rm.phase = .finished →
        ∃ rm', u.runs m = some rm' ∧ rm'.phase = .finished ∧ rm.SameRecord rm') : s.Resolves u := by
    cases h with
    | same undisturbed => exact .same (undisturbed.trans h')
    | reported state context states runs =>
      exact .reported state context (h'.states.trans states) fun m => (runs m).trans (h'.runs m)
    | settled m rm rm' run unfinished run' phase states same others =>
      obtain ⟨rm'', run'', phase', same'⟩ := kept m rm' run' phase
      exact .settled m rm rm'' run unfinished run'' phase' (h'.states.trans states) (same.trans same')
        fun i other => (others i other).trans (h'.runs i)
  unfold Controller.finish
  dsimp only
  split
  · apply onward settle (undisturbed_finished _ n _)
    intro m rm run phase
    obtain ⟨rm', run', phase', same⟩ := exists_finished run n (s.settle r).2.2
    exact ⟨rm', run', phase'.trans phase, same⟩
  · exact onward settle (.of_eq rfl rfl) fun m rm run phase => ⟨rm, run, phase, rfl, rfl, rfl, rfl⟩

theorem Resolves.enter {job : Job K} (c : s.Consistent) (free : s.publication = none) : s.Resolves (s.enter job) := by
  have publishes (events : List (Event K)) (next : Next K) : s.Undisturbed (s.publish events next) := .of_eq rfl rfl
  cases job with
  | admission msg =>
    simp only [Controller.enter, Controller.admitRequest]
    apply Resolves.same
    split
    · exact undisturbed_release s
    · split
      · split
        · exact undisturbed_attach (by simp)
        · exact publishes ..
      · exact undisturbed_attach (by simp)
  | start n =>
    simp only [Controller.enter]
    apply Resolves.same
    split
    · split
      · rename_i r run stage
        have changed : s.Undisturbed (s.setRun n { r with stage := .startPublishing }) :=
          undisturbed_setRun run fun phase => ⟨phase, rfl, rfl, rfl, rfl⟩
        exact changed.trans (.of_eq rfl rfl)
      · exact .of_eq rfl rfl
    · exact .of_eq rfl rfl
  | finish n =>
    simp only [Controller.enter]
    split
    · split
      · rename_i r run finishing
        apply Resolves.finish run
        intro phase
        obtain ⟨body, stage⟩ : ∃ body, r.stage = .finishing body := by
          cases stage : r.stage <;> simp [TaskRun.isFinishing, stage] at finishing ⊢
        obtain ⟨events, mismatch, publishing⟩ := c.publishes n r body run stage phase
        simp [free] at publishing
      · exact .same (.of_eq rfl rfl)
    · exact .same (.of_eq rfl rfl)
  | abort requested =>
    simp only [Controller.enter, Controller.abort]
    apply Resolves.same
    split
    · exact undisturbed_release s
    · split
      · exact undisturbed_release s
      · split
        · exact publishes ..
        · exact (undisturbed_cancel s _).trans (undisturbed_release _)
  | report state context =>
    simp only [Controller.enter, Controller.report]
    split
    · exact .reported state context rfl fun n => settled_of_eq rfl
    · exact .reported state context rfl fun n => settled_of_eq rfl
  | enable enabled => exact .same (publishes ..)
  | updateContext =>
    simp only [Controller.enter, Controller.updateContext]
    apply Resolves.same
    split
    · split
      · exact publishes ..
      · exact undisturbed_release s
    · exact undisturbed_release s

theorem undisturbed_proceed {events : List (Event K)} {next : Next K} (c : s.Consistent) (o : s.Ordered)
    (pub : s.publication = some ⟨events, next⟩) : s.Undisturbed (s.proceed next) := by
  cases next with
  | attach r prior =>
    apply undisturbed_attach
    have record := c.attaching events r prior pub
    have stage := (o.attaching events r prior pub).1
    simp only [TaskRun.Consistent, stage] at record
    simp [record.1]
  | start n behind =>
    simp only [Controller.proceed]
    split
    · rename_i r run
      refine Undisturbed.trans (undisturbed_setRun run fun phase => ?_) (undisturbed_release _)
      split at phase <;> rename_i deferred
      · rw [if_pos deferred]
        exact ⟨phase, rfl, rfl, rfl, rfl⟩
      · rw [if_neg deferred]
        exact ⟨phase, rfl, rfl, rfl, rfl⟩
    · exact .of_eq rfl rfl
  | finish n mismatch => exact undisturbed_finished s n _
  | abort n => exact (undisturbed_cancel s n).trans (undisturbed_release _)
  | release => exact undisturbed_release s

/-- **What one step does to the resolver.** -/
theorem resolves_of_step {label : ControllerLabel K} (o : s.Ordered) (c : s.Consistent) (hs : s.step label = some t) :
    s.Resolves t := by
  cases moves_of_step hs with
  | @runner _ n r r' lock run _ moves =>
    have changed : Undisturbed { s with lock } (setRun { s with lock } n r') :=
      undisturbed_setRun (s := { s with lock }) run (undisturbed_moves c run moves)
    exact .same ⟨changed.states, changed.runs⟩
  | @interrupts n p r run stage pred =>
    have joins : s.Undisturbed (s.setRun n { r with phase := .interrupting, stage := .joining }) :=
      undisturbed_setRun run fun phase => by cases phase
    exact .same (joins.trans (undisturbed_cancel _ p))
  | enters holder free => exact .enter c free
  | @publishes events next outcome pub =>
    have emitted (events' : List (Event K)) : (s.emitAll events').publication = some ⟨events, next⟩ := by simpa using pub
    cases outcome with
    | succeeded =>
      exact .same ((undisturbed_emitAll s events).trans
        (undisturbed_proceed (c.emitAll events) (o.emitAll events) (emitted events)))
    | interrupted =>
      exact .same ((undisturbed_emitAll s events).trans
        (undisturbed_recover (c.emitAll events) (o.emitAll events) (emitted events) _))
    | failed applied message =>
      exact .same ((undisturbed_emitAll s _).trans (undisturbed_recover (c.emitAll _) (o.emitAll _) (emitted _) _))
  | queues => exact .same (.of_eq rfl rfl)
  | wakes => exact .same (.of_eq rfl rfl)
  | succeeds => exact .same (.of_eq rfl rfl)
  | closes => exact .same (.of_eq rfl rfl)
  | @abandons n r run call =>
    apply Resolves.same
    cases done : r.done with
    | true => exact .of_eq rfl rfl
    | false => exact (undisturbed_cancel s n).trans (.of_eq rfl rfl)

end Controller

end SensorKit.Core
