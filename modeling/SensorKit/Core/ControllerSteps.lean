import SensorKit.Core.Controller

/-!
# What a step of the controller can do

`RunnerMoves` lists what a runner does to its own run, and `Moves` the steps of the machine in
the terms the invariants need: a runner's own move, the interruption of a predecessor, what
happens under the lock, and the steps that leave every run alone.
-/

namespace SensorKit.Core

open Lib

variable {K : Type} {r' : TaskRun K}

theorem TaskRun.done_iff {r : TaskRun K} : r.done = true ↔ ∃ outcome, r.stage = .done outcome := by
  cases h : r.stage <;> simp [TaskRun.done, h]

namespace Controller

/-! ## Reading the updates -/

section Lemmas

variable (s : Controller K) (n m : ℕ) (r : TaskRun K)

@[simp] theorem setRun_runs : (s.setRun n r).runs = Function.update s.runs n (some r) := rfl
@[simp] theorem setRun_calls : (s.setRun n r).calls = s.calls := rfl
@[simp] theorem setRun_admitted : (s.setRun n r).admitted = s.admitted := rfl
@[simp] theorem setRun_execution : (s.setRun n r).execution = s.execution := rfl
@[simp] theorem setRun_states : (s.setRun n r).states = s.states := rfl
@[simp] theorem setRun_state : (s.setRun n r).state = s.state := rfl
@[simp] theorem setRun_lock : (s.setRun n r).lock = s.lock := rfl
@[simp] theorem setRun_publication : (s.setRun n r).publication = s.publication := rfl
@[simp] theorem setRun_events : (s.setRun n r).events = s.events := rfl

@[simp] theorem release_runs : s.release.runs = s.runs := rfl
@[simp] theorem release_calls : s.release.calls = s.calls := rfl
@[simp] theorem release_admitted : s.release.admitted = s.admitted := rfl
@[simp] theorem release_execution : s.release.execution = s.execution := rfl
@[simp] theorem release_states : s.release.states = s.states := rfl
@[simp] theorem release_state : s.release.state = s.state := rfl
@[simp] theorem release_publication : s.release.publication = none := rfl
@[simp] theorem release_events : s.release.events = s.events := rfl

theorem setRun_release : (s.setRun n r).release = s.release.setRun n r := rfl

variable {s n m r}

theorem setRun_comm (h : m ≠ n) : (s.setRun n r).setRun m r' = (s.setRun m r').setRun n r := by
  simp [setRun, Function.update_comm h]

theorem runs_setRun {r₀ : TaskRun K} (h : (s.setRun n r').runs m = some r₀) :
    m = n ∧ r₀ = r' ∨ m ≠ n ∧ s.runs m = some r₀ := by
  by_cases same : m = n
  · subst same
    exact .inl ⟨rfl, by simpa using h.symm⟩
  · exact .inr ⟨same, by simpa [Function.update_of_ne same] using h⟩

end Lemmas

section Emit

variable (s : Controller K) (events : List (Event K))

/-- Emitting events changes the published state and the log of execution events. -/
theorem emitAll_eq : ∃ state log, s.emitAll events = { s with state, events := log } := by
  induction events generalizing s with
  | nil => exact ⟨s.state, s.events, rfl⟩
  | cons event events ih =>
    obtain ⟨state, log, h⟩ := ih (s.emit event)
    refine ⟨state, log, h.trans ?_⟩
    cases event <;> rfl

@[simp] theorem emitAll_runs : (s.emitAll events).runs = s.runs := by
  obtain ⟨state, log, h⟩ := s.emitAll_eq events
  rw [h]

@[simp] theorem emitAll_calls : (s.emitAll events).calls = s.calls := by
  obtain ⟨state, log, h⟩ := s.emitAll_eq events
  rw [h]

@[simp] theorem emitAll_admitted : (s.emitAll events).admitted = s.admitted := by
  obtain ⟨state, log, h⟩ := s.emitAll_eq events
  rw [h]

@[simp] theorem emitAll_execution : (s.emitAll events).execution = s.execution := by
  obtain ⟨state, log, h⟩ := s.emitAll_eq events
  rw [h]

@[simp] theorem emitAll_states : (s.emitAll events).states = s.states := by
  obtain ⟨state, log, h⟩ := s.emitAll_eq events
  rw [h]

@[simp] theorem emitAll_publication : (s.emitAll events).publication = s.publication := by
  obtain ⟨state, log, h⟩ := s.emitAll_eq events
  rw [h]

end Emit

/-! ## The moves -/

/-- The lock keeps its holder while that publishes. -/
def KeepsHolder (s : Controller K) (lock : Lock (Job K)) : Prop :=
  s.publication ≠ none → s.lock.holder ≠ none → lock.holder = s.lock.holder

theorem keepsHolder_acquire (s : Controller K) (job : Job K) : s.KeepsHolder (s.lock.acquire job) := by
  intro _ held
  obtain ⟨holder, h⟩ := Option.ne_none_iff_exists'.1 held
  simp [h]

/-- The run may execute: it has no predecessor, or has joined one that did not fail and no
cancellation was deferred meanwhile. -/
def ReadyToExecute (s : Controller K) (r : TaskRun K) : Prop :=
  r.stage = .received ∧ r.predecessor = none ∨
    r.stage = .joining ∧ r.deferred = false ∧
      ∃ p rp outcome, r.predecessor = some p ∧ s.runs p = some rp ∧ rp.stage = .done outcome ∧
        ∀ message, outcome ≠ .failed message

/-- What a runner does to its own run in one step. -/
inductive RunnerMoves (s : Controller K) (r : TaskRun K) : TaskRun K → Prop where
  | cancelledBefore (ready : s.ReadyToExecute r) (requested : r.cancelRequested = true) :
      RunnerMoves s r (r.endBody .cancelled)
  | executes (ready : s.ReadyToExecute r) (free : r.cancelRequested = false) :
      RunnerMoves s r { r with phase := .executing, started := true, stage := .startWaiting }
  | joinFails {p : ℕ} {rp : TaskRun K} {message : String} (stage : r.stage = .joining)
      (pred : r.predecessor = some p) (run : s.runs p = some rp) (failed : rp.stage = .done (.failed message)) :
      RunnerMoves s r (r.fail message)
  | joinCancelled {p : ℕ} {rp : TaskRun K} {outcome : Outcome} (stage : r.stage = .joining)
      (pred : r.predecessor = some p) (run : s.runs p = some rp) (ended : rp.stage = .done outcome)
      (deferred : r.deferred = true) : RunnerMoves s r (r.endBody .cancelled)
  | handlerCancelled (stage : r.stage = .handling) : RunnerMoves s r (r.endBody .cancelled)
  | fails (stage : r.stage = .handling ∨ r.stage = .confirming) (message : String) :
      RunnerMoves s r (r.fail message)
  | succeeds (stage : r.stage = .handling ∨ r.stage = .confirming) (latched : Option ℕ) :
      RunnerMoves s r { r with handlerLatchedState := latched }.succeed
  | confirms (stage : r.stage = .handling) (latched : Option ℕ) :
      RunnerMoves s r { r with handlerLatchedState := latched, stage := .confirming }
  | finishes {body : Outcome} (stage : r.stage = .ending body) :
      RunnerMoves s r { r with stage := .finishing body }
  | ends {body : Outcome} {raised : Option String} (stage : r.stage = .settled body raised) :
      RunnerMoves s r { r with stage := .done (r.result body raised) }

/-- What a first cancellation does to a run. -/
inductive CancelMoves (r : TaskRun K) : TaskRun K → Prop where
  /-- Nothing yet, or nothing any more, or whatever the handler makes of it. -/
  | flags (stage : r.stage = .received ∨ r.stage = .handling ∨ r.done = true) :
      CancelMoves r { r with cancelRequested := true }
  | ends (stage : r.stage = .startWaiting ∨ r.stage = .confirming) :
      CancelMoves r ({ r with cancelRequested := true }.endBody .cancelled)
  | defers (received : r.stage ≠ .received) (waiting : r.stage ≠ .startWaiting) (handling : r.stage ≠ .handling)
      (confirming : r.stage ≠ .confirming) (done : r.done = false) :
      CancelMoves r { r with cancelRequested := true, deferred := true }

theorem CancelMoves.requested {r : TaskRun K} (moves : CancelMoves r r') : r'.cancelRequested = true := by
  cases moves <;> rfl

section Execute

variable {s : Controller K}

theorem runnerMoves_execute {n : ℕ} {r : TaskRun K} (ready : s.ReadyToExecute r) :
    ∃ lock r', s.execute n r = { s with lock }.setRun n r' ∧ s.KeepsHolder lock ∧ s.RunnerMoves r r' := by
  cases free : r.cancelRequested with
  | true => exact ⟨s.lock, _, by simp [execute, free], fun _ _ => rfl, .cancelledBefore ready free⟩
  | false =>
    exact ⟨s.lock.acquire (.start n), _, by simp [execute, free], s.keepsHolder_acquire _, .executes ready free⟩

theorem runnerMoves_join {n p : ℕ} {r rp : TaskRun K} {outcome : Outcome} (stage : r.stage = .joining)
    (pred : r.predecessor = some p) (run : s.runs p = some rp) (ended : rp.stage = .done outcome) :
    ∃ lock r', s.join n r outcome = { s with lock }.setRun n r' ∧ s.KeepsHolder lock ∧ s.RunnerMoves r r' := by
  have proceeds (h : ∀ message, outcome ≠ .failed message) :
      ∃ lock r', (if r.deferred then s.setRun n (r.endBody .cancelled) else s.execute n r) =
        { s with lock }.setRun n r' ∧ s.KeepsHolder lock ∧ s.RunnerMoves r r' := by
    cases deferred : r.deferred with
    | true => exact ⟨s.lock, _, by simp, fun _ _ => rfl, .joinCancelled stage pred run ended deferred⟩
    | false =>
      simpa using runnerMoves_execute (n := n) (.inr ⟨stage, deferred, p, rp, outcome, pred, run, ended, h⟩)
  cases outcome with
  | failed message => exact ⟨s.lock, _, rfl, fun _ _ => rfl, .joinFails stage pred run ended⟩
  | succeeded => exact proceeds (by simp)
  | cancelled => exact proceeds (by simp)

end Execute

variable [DecidableEq K]

/-- What one step does. -/
inductive Moves (s : Controller K) : ControllerLabel K → Controller K → Prop where
  /-- A runner goes on; it may ask for the lock. -/
  | runner {label : ControllerLabel K} {n : ℕ} {r r' : TaskRun K} {l : Lock (Job K)}
      (run : s.runs n = some r) (held : s.KeepsHolder l) (moves : s.RunnerMoves r r') :
      Moves s label ({ s with lock := l }.setRun n r')
  /-- A runner starts to interrupt its predecessor. -/
  | interrupts {n p : ℕ} {r : TaskRun K} (run : s.runs n = some r) (stage : r.stage = .received)
      (pred : r.predecessor = some p) :
      Moves s (.begin n) ((s.setRun n { r with phase := .interrupting, stage := .joining }).cancel p)
  /-- The holder of the lock goes on. -/
  | enters {job : Job K} (holder : s.lock.holder = some job) (free : s.publication = none) :
      Moves s .enter (s.enter job)
  /-- The publication under the lock ends. -/
  | publishes {events : List (Event K)} {next : Next K} (outcome : PublishOutcome)
      (pub : s.publication = some ⟨events, next⟩) (ready : s.ready next = true)
      (defers : next.defers = true → outcome ≠ .interrupted) :
      Moves s (.published outcome) (s.published events next outcome)
  /-- A task asks for the lock, or gives up waiting for it. -/
  | queues {label : ControllerLabel K} {lock : Lock (Job K)} (held : s.KeepsHolder lock) :
      Moves s label { s with lock }
  /-- A request goes on from the end of its runner. -/
  | wakes {n : ℕ} {r : TaskRun K} {outcome : Outcome} (run : s.runs n = some r) (ended : r.stage = .done outcome)
      (call : (s.calls n).stage = .progressing) :
      Moves s (.woken n) (s.setCall n
        { s.calls n with stage := if outcome = .succeeded then .succeeding else .joining })
  /-- A request has published its success, or failed to. -/
  | succeeds {n : ℕ} (published : Bool) (call : (s.calls n).stage = .succeeding) :
      Moves s (.succeeded n published)
        (s.setCall n { stage := .joining, ends := (s.calls n).ends ++ if published then [true] else [] })
  /-- A request is over, with its runner. -/
  | closes {n : ℕ} {r : TaskRun K} (published : Bool) (run : s.runs n = some r) (done : r.done = true)
      (call : (s.calls n).stage = .joining) :
      Moves s (.closed n published)
        ({ s with execution := if s.execution = some n then none else s.execution }.setCall n
          { stage := .ended, ends := if (s.calls n).ends = [] ∧ published then [false] else (s.calls n).ends })
  /-- A request gives up on its run. -/
  | abandons {n : ℕ} {r : TaskRun K} (run : s.runs n = some r) (call : (s.calls n).stage = .progressing) :
      Moves s (.abandon n) ((if r.done then s else s.cancel n).setCall n { s.calls n with stage := .joining })

variable {s t : Controller K}

theorem withdraw_eq (s : Controller K) (job : Job K) :
    ∃ lock, s.withdraw job = { s with lock } ∧ s.KeepsHolder lock := by
  unfold withdraw
  split
  · rename_i h
    exact ⟨s.lock.release, by simp [release, h.2], fun publishing => absurd h.2 publishing⟩
  · exact ⟨_, rfl, fun _ _ => rfl⟩

theorem cancelRunner_cases (s : Controller K) (n : ℕ) (r : TaskRun K) :
    ∃ r' lock, CancelMoves r r' ∧ s.KeepsHolder lock ∧
      s.cancelRunner n { r with cancelRequested := true } = { s with lock }.setRun n r' := by
  simp only [cancelRunner]
  split
  · rename_i stage
    exact ⟨_, s.lock, .flags (.inl stage), fun _ _ => rfl, rfl⟩
  · rename_i outcome stage
    exact ⟨_, s.lock, .flags (.inr (.inr (by simp [TaskRun.done, stage]))), fun _ _ => rfl, rfl⟩
  · rename_i stage
    exact ⟨_, s.lock, .flags (.inr (.inl stage)), fun _ _ => rfl, rfl⟩
  · rename_i stage
    obtain ⟨lock, eq, held⟩ := s.withdraw_eq (.start n)
    exact ⟨_, lock, .ends (.inl stage), held, by rw [eq]⟩
  · rename_i stage
    exact ⟨_, s.lock, .ends (.inr stage), fun _ _ => rfl, rfl⟩
  all_goals
    rename_i stage
    refine ⟨_, s.lock, .defers ?_ ?_ ?_ ?_ ?_, fun _ _ => rfl, rfl⟩ <;> simp [TaskRun.done, stage]

/-- **What `cancel` does**: nothing a second time, and otherwise one of the moves above. -/
theorem cancel_cases (s : Controller K) (n : ℕ) :
    (s.cancel n = s ∧ ∀ r, s.runs n = some r → r.cancelRequested = true) ∨
      ∃ r r' lock, s.runs n = some r ∧ r.cancelRequested = false ∧ CancelMoves r r' ∧ s.KeepsHolder lock ∧
        s.cancel n = { s with lock }.setRun n r' := by
  cases run : s.runs n with
  | none => exact .inl ⟨by simp only [cancel, run], by simp⟩
  | some r =>
    cases requested : r.cancelRequested with
    | true => exact .inl ⟨by simp only [cancel, run, requested, if_true], by simp [requested]⟩
    | false =>
      obtain ⟨r', lock, moves, held, eq⟩ := s.cancelRunner_cases n r
      exact .inr ⟨r, r', lock, rfl, requested, moves, held, by simpa [cancel, run, requested] using eq⟩

theorem runnerMoves_afterHandler {r : TaskRun K} (stage : r.stage = .handling) (outcome : Outcome) :
    s.RunnerMoves r (s.afterHandler r outcome) := by
  cases outcome with
  | cancelled => exact .handlerCancelled stage
  | failed message => exact .fails (.inl stage) message
  | succeeded =>
    simp only [afterHandler]
    split
    · split
      · exact .succeeds (.inl stage) _
      · exact .confirms stage _
    · exact .succeeds (.inl stage) _

theorem runnerMoves_afterReport {r : TaskRun K} {target : InternalControllerState}
    (stage : r.stage = .confirming) (h : s.afterReport r target = some r') : s.RunnerMoves r r' := by
  simp only [afterReport] at h
  split at h
  · cases h
    exact .fails (.inr stage) _
  · split at h
    · cases h
      exact .succeeds (.inr stage) r.handlerLatchedState
    · cases h

/-- **The moves are all there is.** -/
theorem moves_of_step {label : ControllerLabel K} (h : s.step label = some t) : s.Moves label t := by
  cases label with
  | arrive job =>
    simp only [step, Option.ite_none_right_eq_some, Option.some.injEq] at h
    obtain ⟨-, rfl⟩ := h
    exact .queues (s.keepsHolder_acquire job)
  | withdraw job =>
    simp only [step, Option.ite_none_right_eq_some, Option.some.injEq] at h
    obtain ⟨-, rfl⟩ := h
    obtain ⟨lock, eq, held⟩ := s.withdraw_eq job
    rw [eq]
    exact .queues held
  | enter =>
    simp only [step] at h
    split at h
    · rename_i job holder free
      cases h
      exact .enters holder free
    · cases h
  | published outcome =>
    simp only [step] at h
    split at h
    · rename_i events next pub
      simp only [Option.ite_none_right_eq_some, Option.some.injEq] at h
      obtain ⟨⟨ready, defers⟩, rfl⟩ := h
      exact .publishes outcome pub ready (fun d i => defers ⟨d, i⟩)
    · cases h
  | begin n =>
    simp only [step, Option.bind_eq_bind, Option.bind_eq_some_iff] at h
    obtain ⟨r, run, h⟩ := h
    simp only [Option.ite_none_right_eq_some] at h
    obtain ⟨stage, h⟩ := h
    split at h
    · rename_i p pred
      cases h
      exact .interrupts run stage pred
    · rename_i pred
      cases h
      obtain ⟨lock, r', eq, held, moves⟩ := runnerMoves_execute (s := s) (n := n) (.inl ⟨stage, pred⟩)
      rw [eq]
      exact .runner run held moves
  | joined n =>
    simp only [step, Option.bind_eq_bind, Option.bind_eq_some_iff] at h
    obtain ⟨r, run, p, pred, rp, runp, h⟩ := h
    split at h
    · rename_i outcome stage ended
      cases h
      obtain ⟨lock, r', eq, held, moves⟩ := runnerMoves_join (n := n) stage pred runp ended
      rw [eq]
      exact .runner run held moves
    · cases h
  | handled n outcome =>
    simp only [step, Option.bind_eq_bind, Option.bind_eq_some_iff, Option.ite_none_right_eq_some,
      Option.some.injEq] at h
    obtain ⟨r, run, stage, rfl⟩ := h
    exact .runner (l := s.lock) run (fun _ _ => rfl) (runnerMoves_afterHandler stage outcome)
  | reported n =>
    simp only [step, Option.bind_eq_bind, Option.bind_eq_some_iff, Option.ite_none_right_eq_some,
      Option.some.injEq] at h
    obtain ⟨r, run, target, -, stage, r', after, rfl⟩ := h
    exact .runner (l := s.lock) run (fun _ _ => rfl) (runnerMoves_afterReport stage after)
  | unconfirmed n =>
    simp only [step, Option.bind_eq_bind, Option.bind_eq_some_iff, Option.ite_none_right_eq_some,
      Option.some.injEq] at h
    obtain ⟨r, run, target, -, stage, rfl⟩ := h
    exact .runner (l := s.lock) run (fun _ _ => rfl) (.fails (.inr stage) _)
  | finish n =>
    simp only [step, Option.bind_eq_bind, Option.bind_eq_some_iff] at h
    obtain ⟨r, run, h⟩ := h
    split at h
    · rename_i body stage
      cases h
      exact .runner run (s.keepsHolder_acquire _) (.finishes stage)
    · cases h
  | ends n =>
    simp only [step, Option.bind_eq_bind, Option.bind_eq_some_iff] at h
    obtain ⟨r, run, h⟩ := h
    split at h
    · rename_i body raised stage
      cases h
      exact .runner (l := s.lock) run (fun _ _ => rfl) (.ends stage)
    · cases h
  | woken n =>
    simp only [step, Option.bind_eq_bind, Option.bind_eq_some_iff] at h
    obtain ⟨r, run, h⟩ := h
    split at h
    · rename_i outcome ended progressing
      cases h
      exact .wakes run ended progressing
    · cases h
  | succeeded n published =>
    simp only [step, Option.ite_none_right_eq_some, Option.some.injEq] at h
    obtain ⟨call, rfl⟩ := h
    exact .succeeds published call
  | closed n published =>
    simp only [step, Option.bind_eq_bind, Option.bind_eq_some_iff, Option.ite_none_right_eq_some,
      Option.some.injEq] at h
    obtain ⟨r, run, ⟨done, call⟩, rfl⟩ := h
    exact .closes published run done call
  | abandon n =>
    simp only [step, Option.bind_eq_bind, Option.bind_eq_some_iff, Option.ite_none_right_eq_some,
      Option.some.injEq] at h
    obtain ⟨r, run, call, rfl⟩ := h
    exact .abandons run call

end Controller

end SensorKit.Core
