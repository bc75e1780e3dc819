import SensorKit.Core.ControllerHandlers

/-!
# The published operating state is exact

What a controller should publish depends on its newest run, while that is a lifecycle run that
has not finished, and otherwise on the settled state. Every path that changes either does so
under the update lock and leaves a publication that makes up for it, and a restored admission
publishes what was there before.
-/

namespace SensorKit.Core

open Lib

variable {K : Type}

/-- What a controller asserts about its operation: state, target and lifecycle input. -/
structure Assertion (K : Type) where
  current : InternalControllerState
  target : Option InternalControllerState
  context : K
deriving DecidableEq, Repr

def ControllerOperatingState.assertion (o : ControllerOperatingState K) : Assertion K :=
  ⟨o.current, o.target, o.context⟩

/-- The step is not the failure of a publication. -/
def ControllerLabel.publishes : ControllerLabel K → Bool
  | .published (.failed _ _) => false
  | _ => true

namespace Controller

/-- What to publish for the newest run: its transition, with the settled input if it has no
target, or the settled state once it is not in transition. -/
def expected (s : Controller K) (newest : Option (TaskRun K)) : Assertion K :=
  match newest.filter (·.transition) with
  | some run =>
    { current := .transition
      target := run.task.targetState
      context := if run.task.targetState.isSome then run.submittedContext else s.states.settled.context }
  | none => { current := s.states.settled.state, target := none, context := s.states.settled.context }

/-- The newest admitted run. -/
def newest (s : Controller K) : Option (TaskRun K) :=
  s.runs (s.admitted - 1)

/-- What to publish for the run that `_execution` names. -/
def wanted (s : Controller K) : Assertion K :=
  s.expected (s.current.map (·.2))

variable (s : Controller K)

theorem assertion_deriveOperatingState (newest : Option (TaskRun K)) :
    (s.deriveOperatingState newest).assertion = s.expected newest := by
  simp only [deriveOperatingState, expected]
  cases newest.filter (·.transition) <;> rfl

/-- The operating state once the events are out. -/
def operatingAfter (o : ControllerOperatingState K) : List (Event K) → ControllerOperatingState K
  | [] => o
  | .operating o' :: events => operatingAfter o' events
  | .enable _ :: events | .execution _ :: events => operatingAfter o events

theorem emitAll_operatingState (events : List (Event K)) :
    (s.emitAll events).state.operatingState = operatingAfter s.state.operatingState events := by
  induction events generalizing s with
  | nil => rfl
  | cons event events ih => cases event <;> exact ih _

/-- A publication after which the published state asserts `a`. -/
def Leaves (events : List (Event K)) (a : Assertion K) : Prop :=
  (operatingAfter s.state.operatingState events).assertion = a

section Leaves

variable [DecidableEq K]

/-- `_publish_operating_state` leaves what is expected, with or without an event of its own. -/
theorem leaves_operatingEvents (newest : Option (TaskRun K)) : s.Leaves (s.operatingEvents newest) (s.expected newest) := by
  rw [← assertion_deriveOperatingState]
  simp only [operatingEvents]
  split
  · rename_i same
    simp only [Prod.mk.injEq] at same
    simp [Leaves, operatingAfter, ControllerOperatingState.assertion, same]
  · rfl

end Leaves

variable {s} {t : Controller K}

/-- Between publications the published state is the wanted one, and a publication in progress
brings it there. -/
structure Published (s : Controller K) : Prop where
  locked : s.publication ≠ none → s.lock.holder ≠ none
  idle : s.publication = none → s.state.operatingState.assertion = s.wanted
  attaching : ∀ events r prior, s.publication = some ⟨events, .attach r prior⟩ →
    prior.assertion = s.wanted ∧ s.Leaves events (s.expected (some r))
  pending : ∀ events next, s.publication = some ⟨events, next⟩ → (∀ r prior, next ≠ .attach r prior) →
    s.Leaves events s.wanted

/-! ## What changes the wanted state -/

theorem expected_congr {r r' : TaskRun K} (states : t.states = s.states) (task : r'.task = r.task)
    (context : r'.submittedContext = r.submittedContext) (phase : r'.phase = .finished ↔ r.phase = .finished) :
    t.expected (some r') = s.expected (some r) := by
  have transition : r'.transition = r.transition := by
    have finished : (r'.phase == .finished) = (r.phase == .finished) := by
      rw [Bool.eq_iff_iff]
      simpa using phase
    simp [TaskRun.transition, TaskRun.lifecycle, task, bne, finished]
  cases h : r.transition <;> simp [expected, Option.filter, transition, h, states, task, context]

theorem wanted_congr (states : t.states = s.states) (runs : t.runs = s.runs) (execution : t.execution = s.execution) :
    t.wanted = s.wanted := by
  simp only [wanted, current, runs, execution, expected, states]

/-- The wanted state sees of a run what it submitted and whether it is finished. -/
theorem wanted_setRun {n : ℕ} {r r' : TaskRun K} (hr : s.runs n = some r) (task : r'.task = r.task)
    (context : r'.submittedContext = r.submittedContext) (phase : r'.phase = .finished ↔ r.phase = .finished) :
    (s.setRun n r').wanted = s.wanted := by
  simp only [wanted, current, setRun_execution, setRun_runs]
  cases newest : s.execution with
  | none => rfl
  | some e =>
    by_cases same : e = n
    · subst same
      simpa [hr] using expected_congr (s := s) (t := s.setRun e r') rfl task context phase
    · simp only [Option.bind_some, Function.update_of_ne same]
      rfl

/-- With no run in transition the settled state is wanted. -/
theorem wanted_of_settled (h : ∀ n r, s.current = some (n, r) → r.transition = false) : s.wanted = s.expected none := by
  cases newest : s.current with
  | none => simp [wanted, newest]
  | some p => simp [wanted, newest, expected, h p.1 p.2 newest, Option.filter]

/-! ## Steps -/

namespace Published

variable {n : ℕ} {r r' : TaskRun K}

theorem release (h : s.state.operatingState.assertion = s.wanted) : s.release.Published where
  locked := by simp
  idle _ := h
  attaching := by simp
  pending := by simp

theorem publish {events : List (Event K)} {next : Next K} (held : s.lock.holder ≠ none)
    (leaves : s.Leaves events s.wanted) (attach : ∀ r prior, next ≠ .attach r prior) :
    (s.publish events next).Published where
  locked _ := held
  idle := by simp [Controller.publish]
  attaching := by
    rintro _ r prior ⟨⟩
    exact absurd rfl (attach r prior)
  pending := by
    rintro _ _ ⟨⟩ -
    exact leaves

/-- A run that keeps what it submitted and whether it is finished, and a lock that keeps its
holder. -/
theorem setRun {l : Lock (Job K)} (h : s.Published) (held : s.KeepsHolder l) (hr : s.runs n = some r)
    (task : r'.task = r.task) (context : r'.submittedContext = r.submittedContext)
    (phase : r'.phase = .finished ↔ r.phase = .finished) : ({ s with lock := l }.setRun n r').Published := by
  have same : ({ s with lock := l }.setRun n r').wanted = s.wanted :=
    wanted_setRun (s := { s with lock := l }) hr task context phase
  refine ⟨fun publishing => ?_, fun idle => ?_, fun events ra prior pub => ?_, fun events next pub other => ?_⟩
  · have holder := h.locked publishing
    rw [← held publishing holder] at holder
    exact holder
  · rw [same]
    exact h.idle idle
  · rw [same]
    exact h.attaching events ra prior pub
  · rw [same]
    exact h.pending events next pub other

theorem congr (h : s.Published) (state : t.state = s.state) (states : t.states = s.states) (wanted : t.wanted = s.wanted)
    (publication : t.publication = s.publication)
    (held : s.publication ≠ none → s.lock.holder ≠ none → t.lock.holder = s.lock.holder) : t.Published where
  locked publishing := by
    rw [publication] at publishing
    rw [held publishing (h.locked publishing)]
    exact h.locked publishing
  idle idle := by
    rw [state, wanted]
    exact h.idle (publication ▸ idle)
  attaching events r prior pub := by
    rw [wanted]
    obtain ⟨same, leaves⟩ := h.attaching events r prior (publication ▸ pub)
    refine ⟨same, ?_⟩
    simpa only [Leaves, expected, state, states] using leaves
  pending events next pub other := by
    rw [wanted]
    simpa only [Leaves, state] using h.pending events next (publication ▸ pub) other

theorem cancel [DecidableEq K] (h : s.Published) (n : ℕ) : (s.cancel n).Published := by
  rcases s.cancel_cases n with ⟨same, -⟩ | ⟨r, r', lock, hr, -, moves, held, eq⟩
  · rwa [same]
  · rw [eq]
    refine h.setRun held hr ?_ ?_ ?_ <;> cases moves <;> rfl

/-- The admitted run is the newest one from here on. -/
theorem attach (h : s.state.operatingState.assertion = s.expected (some r)) : (s.attach r).release.Published := by
  refine release (h.trans ?_)
  simp [wanted, current, Controller.attach, expected]

theorem finished (h : s.state.operatingState.assertion = s.wanted) (n : ℕ) (raised : Option String) :
    (s.finished n raised).release.Published := by
  simp only [Controller.finished]
  split
  · rename_i r run
    split
    · refine release (h.trans (wanted_setRun run ?_ ?_ ?_).symm) <;> rfl
    · exact release h
  · exact release h

/-- A runner's own move leaves its run as finished as it was. -/
theorem phase_of_moves (record : r.Consistent) (moves : s.RunnerMoves r r') :
    r'.phase = .finished ↔ r.phase = .finished := by
  cases moves with
  | executes ready =>
    rcases (Ordered.ready_stage ready).1 with stage | stage <;>
      simp only [TaskRun.Consistent, stage] at record <;> simp [record.1]
  | _ => exact .rfl

/-- The end of a request lets go of a run that is finished. -/
theorem wanted_close (c : s.Consistent) (hr : s.runs n = some r) (done : r.done = true) (call : Call) :
    (Controller.setCall { s with execution := if s.execution = some n then none else s.execution } n call).wanted =
      s.wanted := by
  by_cases newest : s.execution = some n
  · have settled : r.transition = false := by simp [TaskRun.transition, c.finished_of_done hr done]
    simp [wanted, current, setCall, expected, newest, hr, Option.filter, settled]
  · simp [wanted, current, setCall, expected, newest]

theorem started (taskHandlers : List String) (recovered : ControllerState K) (legacy : Bool) :
    (started taskHandlers recovered legacy).Published := by
  have settled : (Controller.started taskHandlers recovered legacy).wanted =
      ⟨.unknown, none, recovered.operatingState.context⟩ := by
    cases latched : ControllerState.latched recovered.operatingState <;>
      simp [Controller.started, wanted, current, expected, ControllerStateResolver.init, latched,
        ControllerStateResolver.hold, ControllerStateResolver.settled]
  have normalized : (recovered.normalize legacy).operatingState.assertion =
      ⟨.unknown, none, recovered.operatingState.context⟩ := by
    simp only [ControllerState.normalize]
    split
    · rename_i unsettled
      simp [ControllerOperatingState.assertion, unsettled.1, unsettled.2.1]
    · rfl
  exact ⟨by simp [Controller.started], fun _ => normalized.trans settled.symm, by simp [Controller.started],
    by simp [Controller.started]⟩

/-- A controller that admits beside its newest run is not in transition. -/
theorem wanted_of_admitted {msg : ExecuteRequest K} (c : s.Consistent)
    (admitted : s.rejection msg r (s.running.map (·.2)) = none) (direct : r.lifecycle = false) :
    s.wanted = s.expected (some r) := by
  have settled : s.wanted = s.expected none := by
    refine wanted_of_settled fun n rn newest => ?_
    cases done : rn.done with
    | true =>
      have run : s.runs n = some rn := by
        simp only [current, Option.bind_eq_some_iff, Option.map_eq_some_iff, Prod.mk.injEq] at newest
        obtain ⟨_, -, _, run, rfl, rfl⟩ := newest
        exact run
      simp [TaskRun.transition, c.finished_of_done run done]
    | false =>
      have running : s.running = some (n, rn) := by simp [Controller.running, newest, done, Option.filter]
      by_contra between
      simp only [Bool.not_eq_false] at between
      cases enabled : s.state.enabled <;> simp [rejection, running, direct, between, enabled] at admitted
  rw [settled]
  simp [expected, Option.filter, TaskRun.transition, direct]

section Locked

variable [DecidableEq K]

theorem cancelled (h : s.state.operatingState.assertion = s.wanted) (n : ℕ) : (s.cancel n).release.Published := by
  rcases s.cancel_cases n with ⟨same, -⟩ | ⟨r, r', lock, hr, -, moves, -, eq⟩
  · rw [same]
    exact release h
  · rw [eq]
    refine release (h.trans (wanted_setRun (s := { s with lock }) hr ?_ ?_ ?_).symm) <;> cases moves <;> rfl

theorem admission (h : s.state.operatingState.assertion = s.wanted) (c : s.Consistent) (held : s.lock.holder ≠ none)
    (msg : ExecuteRequest K) : (s.admitRequest msg).Published := by
  simp only [Controller.admitRequest]
  split
  · exact release h
  · rename_i admitted
    split
    · split
      · rename_i nothing
        have leaves := s.leaves_operatingEvents (some
          { task := msg.task, submittedContext := msg.context, predecessor := s.running.map (·.1) })
        rw [nothing] at leaves
        exact attach leaves
      · refine ⟨fun _ => held, by simp [Controller.publish], ?_, ?_⟩
        · rintro _ _ _ ⟨⟩
          exact ⟨h, s.leaves_operatingEvents _⟩
        · rintro _ _ ⟨⟩ other
          exact absurd rfl (other _ _)
    · rename_i direct
      exact attach (h.trans (wanted_of_admitted c admitted (by simpa using direct)))

/-- A publication of `_publish_operating_state` for the run that `_execution` names. -/
theorem leaves_recorded {w : List (Event K)}
    (same : ∀ o events, operatingAfter o (w ++ events) = operatingAfter o events) :
    s.Leaves (w ++ s.operatingEvents (s.current.map (·.2))) s.wanted := by
  rw [Leaves, same]
  exact s.leaves_operatingEvents (s.current.map (·.2))

theorem finish (held : s.lock.holder ≠ none) (n : ℕ) (r : TaskRun K) : (s.finish n r).Published := by
  simp only [Controller.finish]
  have leaves := leaves_recorded
    (s := { s with states := (s.settle r).2.1 }.setRun n { (s.settle r).1 with phase := .finished })
    (w := if (s.settle r).1.started then [.execution (.finished n (s.settle r).1.finishInfo)] else [])
    (by split <;> simp [operatingAfter])
  split
  · rename_i nothing
    rw [nothing] at leaves
    exact finished leaves n _
  · exact publish held leaves (by simp)

theorem enter {job : Job K} (h : s.Published) (c : s.Consistent) (holder : s.lock.holder = some job)
    (free : s.publication = none) : (s.enter job).Published := by
  have held : s.lock.holder ≠ none := by simp [holder]
  have exact_ := h.idle free
  cases job with
  | admission msg => exact admission exact_ c held msg
  | start n =>
    simp only [Controller.enter]
    split
    · split
      · rename_i r run stage
        refine publish held (exact_.trans (wanted_setRun run ?_ ?_ ?_).symm) (by simp) <;> rfl
      · exact h
    · exact h
  | finish n =>
    simp only [Controller.enter]
    split
    · split
      · exact finish held _ _
      · exact h
    · exact h
  | abort requested =>
    simp only [Controller.enter, Controller.abort]
    split
    · exact release exact_
    · split
      · exact release exact_
      · split
        · exact publish held exact_ (by simp)
        · exact cancelled exact_ _
  | report state context =>
    have leaves := leaves_recorded (s := { s with states := s.states.recordObserved state context })
      (w := []) (by simp)
    simp only [Controller.enter, Controller.report]
    split
    · rename_i nothing
      rw [List.nil_append, nothing] at leaves
      exact release leaves
    · exact publish held leaves (by simp)
  | enable enabled => exact publish held exact_ (by simp)
  | updateContext =>
    simp only [Controller.enter, Controller.updateContext]
    split
    · split
      · exact publish held exact_ (by simp)
      · exact release exact_
    · exact release exact_

/-- The end of a publication whose events are all out. -/
theorem published {events : List (Event K)} {next : Next K} {outcome : PublishOutcome} (o : s.Ordered)
    (h : s.Published) (pub : s.publication = some ⟨events, next⟩) (out : ∀ applied message, outcome ≠ .failed applied message)
    (defers : next.defers = true → outcome ≠ .interrupted) : (s.published events next outcome).Published := by
  have wanted : (s.emitAll events).wanted = s.wanted := wanted_congr (by simp) (by simp) (by simp)
  have leaves (other : ∀ r prior, next ≠ .attach r prior) :
      (s.emitAll events).state.operatingState.assertion = (s.emitAll events).wanted := by
    rw [wanted, emitAll_operatingState]
    exact h.pending events next pub other
  have held : (s.emitAll events).lock.holder ≠ none := by
    obtain ⟨state, log, eq⟩ := s.emitAll_eq events
    rw [eq]
    exact h.locked (by simp [pub])
  cases outcome with
  | failed applied message => exact absurd rfl (out applied message)
  | succeeded =>
    cases next with
    | attach r prior =>
      refine attach ?_
      rw [emitAll_operatingState, (h.attaching events r prior pub).2]
      simp [expected]
    | start n behind =>
      simp only [Controller.published, Controller.proceed]
      obtain ⟨⟨r, run, -⟩, -⟩ := o.starting events n behind pub
      simp only [emitAll_runs, run]
      refine release ((leaves (by simp)).trans (wanted_setRun (by simpa using run) ?_ ?_ ?_).symm) <;>
        cases deferred : r.deferred <;> simp [TaskRun.endBody]
    | finish n mismatch => exact finished (leaves (by simp)) n _
    | abort n => exact cancelled (leaves (by simp)) n
    | release => exact release (leaves (by simp))
  | interrupted =>
    cases next with
    | attach r prior => exact publish held ((h.attaching events r prior pub).1.trans wanted.symm) (by simp)
    | start n behind => exact absurd rfl (defers rfl)
    | finish n mismatch => exact absurd rfl (defers rfl)
    | abort n => exact release (leaves (by simp))
    | release => exact release (leaves (by simp))

/-- **Every step whose publication succeeds, if it ends one, keeps the published state exact.** -/
theorem step {label : ControllerLabel K} (o : s.Ordered) (c : s.Consistent) (h : s.Published)
    (out : ∀ applied message, label ≠ .published (.failed applied message)) (hs : s.step label = some t) :
    t.Published := by
  cases moves_of_step hs with
  | @runner _ n r r' lock run held moves =>
    refine h.setRun held run ?_ ?_ (phase_of_moves (c.runs n r run) moves) <;> cases moves <;> rfl
  | @interrupts n p r run stage pred =>
    have record := c.runs n r run
    simp only [TaskRun.Consistent, stage] at record
    have keeps : (s.setRun n { r with phase := .interrupting, stage := .joining }).Published :=
      h.setRun (l := s.lock) (fun _ _ => rfl) run rfl rfl (by simp [record.1])
    exact keeps.cancel p
  | enters holder free => exact h.enter c holder free
  | publishes outcome pub ready defers =>
    exact h.published o pub (fun applied message failed => out applied message (by rw [failed])) defers
  | queues held => exact h.congr rfl rfl (wanted_congr rfl rfl rfl) rfl held
  | wakes => exact h.congr rfl rfl (wanted_congr rfl rfl rfl) rfl fun _ _ => rfl
  | succeeds => exact h.congr rfl rfl (wanted_congr rfl rfl rfl) rfl fun _ _ => rfl
  | @closes n r published run done call => exact h.congr rfl rfl (wanted_close c run done _) rfl fun _ _ => rfl
  | @abandons n r run call =>
    cases done : r.done with
    | true => exact h.congr rfl rfl (wanted_congr rfl rfl rfl) rfl fun _ _ => rfl
    | false => exact (h.cancel n).congr rfl rfl (wanted_congr rfl rfl rfl) rfl fun _ _ => rfl

end Locked

end Published

/-! ## Runs whose publications succeed -/

/-- The run that `_execution` names is the newest one, and with none the newest one is over. -/
theorem wanted_eq (o : s.Ordered) (c : s.Consistent) : s.wanted = s.expected s.newest := by
  cases newest : s.execution with
  | some e =>
    have last := o.newest e newest
    have index : s.admitted - 1 = e := by omega
    cases run : s.runs e <;> simp [wanted, current, Controller.newest, newest, index, run]
  | none =>
    have settled : (s.newest.filter (·.transition)) = none := by
      rw [Option.filter_eq_none_iff]
      intro r run
      have lt := (o.admitted _).1 ⟨r, run⟩
      have finished := c.finished_of_done run (o.idle newest _ lt r run)
      simp [TaskRun.transition, finished]
    simp [wanted, current, newest, expected, settled]

/-- The publications that end succeed. -/
def publishes (_ : Controller K) (label : ControllerLabel K) : Prop :=
  label.publishes = true

instance (s : Controller K) (label : ControllerLabel K) : Decidable (s.publishes label) :=
  inferInstanceAs (Decidable (label.publishes = true))

variable [DecidableEq K] {taskHandlers : List String} {recovered : ControllerState K} {legacy : Bool}

theorem published_of_run (run : Reaches step publishes (started taskHandlers recovered legacy) s) : s.Published := by
  refine run.invariant₂ (I := fun s => s.Ordered ∧ s.Consistent) (fun _ r => ⟨ordered_of_run r, consistent_of_run r⟩)
    (Published.started ..) fun t label u ⟨o, c⟩ h ok hs => h.step o c ?_ hs
  rintro applied message rfl
  simp [publishes, ControllerLabel.publishes] at ok

/-- **The published operating state is exact.** In every run whose publications succeed,
whenever the lock is free the controller asserts the transition of its newest run, while that is
a lifecycle run that has not finished, and the settled state otherwise. -/
theorem operatingStateExact (run : Reaches step publishes (started taskHandlers recovered legacy) s)
    (free : s.lock.holder = none) : s.state.operatingState.assertion = s.expected s.newest := by
  have h := published_of_run run
  have idle : s.publication = none := by
    by_contra publishing
    exact h.locked publishing free
  exact (h.idle idle).trans (wanted_eq (ordered_of_run run) (consistent_of_run run))

/-- An initialization is admitted. -/
def admittedInit : List (ControllerLabel Unit) :=
  [.arrive (.admission ⟨{ taskType := "init", targetState := some .operate }, (), false⟩), .enter, .published .succeeded]

theorem operatingStateExact_example : ∃ s : Controller Unit, s.lock.holder = none ∧
    s.state.operatingState.assertion = ⟨.transition, some .operate, ()⟩ := by
  have run : Reaches step publishes (exampleController ["init"])
      ((exec step (exampleController ["init"]) admittedInit).get (by decide +kernel)) :=
    reaches_of_exec (Option.some_get _).symm (by decide +kernel)
  exact ⟨_, by decide +kernel, (operatingStateExact run (by decide +kernel)).trans (by decide +kernel)⟩

end Controller

end SensorKit.Core
