import SensorKit.Auto.Agent

/-!
# No lost configuration

The configuration of an agent state is what configure requests set. An update that is not
interleaved carries it from one value to the next, and a publication carries it to itself.
The invariant follows the update that holds the lock toward its target and the queued one
toward the target after that.

The exception is a publication that derives its events in the middle of a configure update,
after the scheduler event is set and before the operating event is: it reads half of the
request and, when its turn comes, writes the other half back. `Whole` excludes it.
-/

namespace SensorKit.Auto

open Lib

/-- What configure requests set in the operating state. -/
structure OperatingConfiguration where
  globalControlEnabled : Bool
  controllers : List (String × Bool × Option Bool)
deriving DecidableEq, Repr

/-- What configure requests set in the scheduler state. -/
structure SchedulerConfiguration where
  schedulingEnabled : Bool
  excludedPrograms : Finset String
deriving DecidableEq

/-- The part of the agent state that belongs to configure requests. -/
structure AgentConfiguration where
  operating : OperatingConfiguration
  scheduler : SchedulerConfiguration
deriving DecidableEq

/-- One configure request, applied to a configuration. -/
def AgentConfiguration.apply (c : AgentConfiguration) (req : AgentConfigureRequest) : AgentConfiguration where
  operating :=
    { globalControlEnabled := req.globalControlEnabled.getD c.operating.globalControlEnabled
      controllers := c.operating.controllers.map fun (name, enabled, override) =>
        (name, (req.controllerControlEnabled.lookup name).getD enabled,
          (req.controllerDemandOverride.lookup name).getD override) }
  scheduler :=
    { schedulingEnabled := req.schedulingEnabled.getD c.scheduler.schedulingEnabled
      excludedPrograms :=
        (c.scheduler.excludedPrograms ∪ req.addProgramExclusions) \ req.removeProgramExclusions }

def AgentOperatingState.configuration (state : AgentOperatingState) : OperatingConfiguration where
  globalControlEnabled := state.globalControlEnabled
  controllers := state.controllers.map fun (name, info) => (name, info.controlEnabled, info.demandOverride)

variable {S R : Type} {held : AgentState S R}

def AgentSchedulerState.configuration (state : AgentSchedulerState S) : SchedulerConfiguration where
  schedulingEnabled := state.schedulingEnabled
  excludedPrograms := state.excludedPrograms

def AgentState.configuration (state : AgentState S R) : AgentConfiguration where
  operating := state.operatingState.configuration
  scheduler := state.schedulerState.configuration

/-- The event carries the configuration `c`. -/
def AgentEvent.Agrees (c : AgentConfiguration) : AgentEvent S R → Prop
  | .operating event => event.configuration = c.operating
  | .scheduler event => event.configuration = c.scheduler
  | .runtime _ => True

theorem configuration_deriveForRequest (state : AgentState S R) (req : AgentConfigureRequest) :
    (state.operatingState.deriveForRequest req).configuration = (state.configuration.apply req).operating ∧
    (state.schedulerState.deriveForRequest req).configuration = (state.configuration.apply req).scheduler := by
  refine ⟨?_, rfl⟩
  simp [AgentOperatingState.deriveForRequest, AgentOperatingState.configuration,
    AgentConfiguration.apply, AgentState.configuration]

theorem configuration_deriveForStatus (state : AgentState S R) (schedule : List (String × S))
    (votes : List (String × Bool)) :
    (state.operatingState.deriveForStatus votes).configuration = state.configuration.operating ∧
    (state.schedulerState.deriveForStatus schedule).configuration = state.configuration.scheduler := by
  refine ⟨?_, rfl⟩
  simp [AgentOperatingState.deriveForStatus, AgentOperatingState.configuration, AgentState.configuration]

/-! ## Events on their way to a configuration -/

/-- Once `events` are set in `held`, it has the configuration `c`. -/
structure Toward (c : AgentConfiguration) (events : List (AgentEvent S R)) (held : AgentState S R) : Prop where
  agree : ∀ event ∈ events, event.Agrees c
  operating : held.operatingState.configuration = c.operating ∨ ∃ e, .operating e ∈ events
  scheduler : held.schedulerState.configuration = c.scheduler ∨ ∃ e, .scheduler e ∈ events

theorem Toward.set {c : AgentConfiguration} {event : AgentEvent S R} {rest : List (AgentEvent S R)}
    (h : Toward c (event :: rest) held) : Toward c rest (held.set event) := by
  have head := h.agree event (by simp)
  refine ⟨fun e he => h.agree e (by simp [he]), ?_, ?_⟩
  · cases event with
    | operating e => exact .inl head
    | scheduler e => simpa [AgentState.set] using h.operating
    | runtime e => simpa [AgentState.set] using h.operating
  · cases event with
    | operating e => simpa [AgentState.set] using h.scheduler
    | scheduler e => exact .inl head
    | runtime e => simpa [AgentState.set] using h.scheduler

theorem Toward.done {c : AgentConfiguration} (h : Toward c [] held) :
    held.configuration = c := by
  have ho := h.operating
  have hs := h.scheduler
  simp at ho hs
  simp [AgentState.configuration, ho, hs]

/-- Where the events left to set agree with what is held, the target is what is held. -/
theorem Toward.whole {c : AgentConfiguration} {events : List (AgentEvent S R)}
    (h : Toward c events held) (hw : ∀ event ∈ events, event.Agrees held.configuration) :
    held.configuration = c := by
  have ho : held.operatingState.configuration = c.operating := by
    rcases h.operating with h' | ⟨e, he⟩
    · exact h'
    · exact (hw _ he).symm.trans (h.agree _ he)
  have hs : held.schedulerState.configuration = c.scheduler := by
    rcases h.scheduler with h' | ⟨e, he⟩
    · exact h'
    · exact (hw _ he).symm.trans (h.agree _ he)
  simp [AgentState.configuration, ho, hs]

/-- Setting all of `events` gives the configuration `c`, whatever is held before. -/
def Complete (c : AgentConfiguration) (events : List (AgentEvent S R)) : Prop :=
  ∀ held, Toward c events held

theorem complete_configureEvents (state : AgentState S R) (req : AgentConfigureRequest) :
    Complete (state.configuration.apply req) (state.configureEvents req) := by
  obtain ⟨ho, hs⟩ := configuration_deriveForRequest state req
  refine fun held => ⟨?_, .inr ⟨_, by simp [AgentState.configureEvents]; rfl⟩,
    .inr ⟨_, by simp [AgentState.configureEvents]; rfl⟩⟩
  simp [AgentState.configureEvents, AgentEvent.Agrees, ho, hs]

theorem complete_statusEvents (state : AgentState S R) (schedule : List (String × S))
    (votes : List (String × Bool)) (runtime : R) :
    Complete state.configuration (state.statusEvents schedule votes runtime) := by
  obtain ⟨ho, hs⟩ := configuration_deriveForStatus state schedule votes
  refine fun held => ⟨?_, .inr ⟨_, by simp [AgentState.statusEvents]; rfl⟩,
    .inr ⟨_, by simp [AgentState.statusEvents]; rfl⟩⟩
  simp [AgentState.statusEvents, AgentEvent.Agrees, ho, hs]

/-! ## The invariant -/

namespace Agent

/-- The configuration after the applied requests, from the one the service started with. -/
def expected (base : AgentConfiguration) (s : Agent S R) : AgentConfiguration :=
  s.applied.foldl AgentConfiguration.apply base

/-- What a writer's update makes of the configuration `c`. -/
def target (s : Agent S R) (w : Writer) (c : AgentConfiguration) : AgentConfiguration :=
  match w, s.handler with
  | .handler, .updating request _ => c.apply request
  | _, _ => c

/-- A publication that derives its events now reads a whole configuration: what an applying
configure update still has to set, the state already has. -/
def Whole (s : Agent S R) : Prop :=
  ∀ request rest, s.handler = .updating request (.emitting rest) →
    ∀ event ∈ rest, event.Agrees s.held.configuration

/-- The side condition of a run: status events are derived from a whole configuration. -/
def WholeStatus (s : Agent S R) : AgentLabel S R → Prop
  | .status _ _ _ => s.Whole
  | _ => True

/-- Both the held and the stored configuration are those of the applied requests. -/
def Exact (base : AgentConfiguration) (s : Agent S R) : Prop :=
  s.held.configuration = s.expected base ∧ s.persisted.configuration = s.expected base

end Agent

def Writer.other : Writer → Writer
  | .handler => .publisher
  | .publisher => .handler

/-- An update that has the lock is on its way to `c`. -/
def Update.Toward (c : AgentConfiguration) (held : AgentState S R) : Update S R → Prop
  | .waiting events => Complete c events
  | .emitting rest => Auto.Toward c rest held
  | .persisting => held.configuration = c

namespace Agent

/-- The writer that does not hold the lock is idle or queued, on its way to its target from `c`. -/
def Queued (s : Agent S R) (w : Writer) (c : AgentConfiguration) : Prop :=
  s.lock.waiters = [] ∧ s.update w = none ∨
    s.lock.waiters = [w] ∧ ∃ events, s.update w = some (.waiting events) ∧ Complete (s.target w c) events

/-- Writer `w` has the lock and `u` is its update. A publication changes no configuration. -/
structure Holds (base : AgentConfiguration) (s : Agent S R) (w : Writer) (u : Update S R) : Prop where
  lock : s.lock.holder = some w
  update : s.update w = some u
  toward : u.Toward (s.target w (s.expected base)) s.held
  steady : w = .publisher → s.held.configuration = s.expected base
  queued : s.Queued w.other (s.target w (s.expected base))

/-- The lock is free and the state exact, or one writer applies its update. -/
inductive Inv (base : AgentConfiguration) (s : Agent S R) : Prop where
  | free (lock : s.lock = {}) (idle : ∀ w, s.update w = none) (exact : s.Exact base)
  | held (w : Writer) (u : Update S R) (entered : ∀ events, u ≠ .waiting events) (holds : s.Holds base w u)

variable {base c : AgentConfiguration} {s t : Agent S R} {w : Writer} {u v : Update S R}
  {events rest : List (AgentEvent S R)} {event : AgentEvent S R}

/-! ### What the parts of a step change -/

@[simp] theorem setUpdate_lock : (s.setUpdate w v).lock = s.lock := by
  unfold setUpdate; split <;> rfl

@[simp] theorem setUpdate_held : (s.setUpdate w v).held = s.held := by
  unfold setUpdate; split <;> rfl

@[simp] theorem setUpdate_expected : (s.setUpdate w v).expected base = s.expected base := by
  unfold setUpdate; split <;> rfl

@[simp] theorem setUpdate_target (w' : Writer) : (s.setUpdate w v).target w' c = s.target w' c := by
  cases w <;> cases w' <;> cases hh : s.handler <;> simp [setUpdate, target, hh]

theorem setUpdate_update (h : s.update w = some u) : (s.setUpdate w v).update w = some v := by
  cases w <;> cases hh : s.handler <;> simp_all [setUpdate, update]

@[simp] theorem setUpdate_other : (s.setUpdate w v).update w.other = s.update w.other := by
  cases w <;> cases hh : s.handler <;> simp [setUpdate, update, hh, Writer.other]

theorem Queued.setUpdate (h : s.Queued w.other c) : (s.setUpdate w v).Queued w.other c := by
  simpa [Queued] using h

theorem configuration_set {state : AgentState S R} (hc : state.configuration = c) (he : event.Agrees c) :
    (state.set event).configuration = c := by
  subst hc
  cases event <;> simp_all [AgentState.set, AgentState.configuration, AgentEvent.Agrees]

/-- A writer that has the lock sets its next event or starts to store the state. -/
theorem Holds.advance (h : s.Holds base w u)
    (ht : Toward (s.target w (s.expected base)) events s.held) : Inv base (s.advance w events) := by
  cases events with
  | nil =>
    exact .held w .persisting (by simp)
      { lock := by simpa [Agent.advance] using h.lock
        update := setUpdate_update h.update
        toward := by simpa [Agent.advance, Update.Toward] using ht.done
        steady := by simpa [Agent.advance] using h.steady
        queued := by simpa [Agent.advance] using h.queued.setUpdate }
  | cons event rest =>
    have steady : w = .publisher → (s.held.set event).configuration = s.expected base := by
      rintro rfl
      exact configuration_set (h.steady rfl) (ht.agree event (by simp))
    exact .held w (.emitting rest) (by simp)
      { lock := by simpa [Agent.advance] using h.lock
        update := setUpdate_update (u := u) h.update
        toward := by
          simp only [Agent.advance, setUpdate_target, setUpdate_expected, setUpdate_held]
          exact ht.set
        steady := by
          simp only [Agent.advance, setUpdate_expected, setUpdate_held]
          exact steady
        queued := by
          simp only [Agent.advance, setUpdate_target, setUpdate_expected]
          exact Queued.setUpdate (s := { s with held := s.held.set event }) h.queued }

/-- A writer that has just got the lock goes on at once. -/
theorem Holds.enter (h : s.Holds base w (.waiting events)) : Inv base s.enter := by
  have he : s.enter = s.advance w events := by simp [Agent.enter, h.lock, h.update]
  rw [he]
  exact h.advance (h.toward s.held)

/-- Asking for a lock that another writer holds changes nothing else. -/
theorem enter_of_entered (hl : s.lock.holder = some w) (hu : s.update w = some u)
    (entered : ∀ events, u ≠ .waiting events) : s.enter = s := by
  simp only [Agent.enter, hl, hu]
  split
  · rename_i events he
    exact absurd (Option.some.inj he) (entered events)
  · rfl

/-- The invariant reads the lock, the states, the applied requests and the updates only. -/
theorem Inv.congr (h : Inv base s) (lock : t.lock = s.lock) (held : t.held = s.held)
    (persisted : t.persisted = s.persisted) (applied : t.applied = s.applied)
    (update : ∀ w, t.update w = s.update w) (target : ∀ w c, t.target w c = s.target w c) : Inv base t := by
  have expected : t.expected base = s.expected base := by simp [Agent.expected, applied]
  cases h with
  | free l idle exact =>
    exact .free (lock ▸ l) (fun w => (update w).trans (idle w))
      (by simpa [Exact, held, persisted, expected] using exact)
  | held w u entered holds =>
    exact .held w u entered
      { lock := by rw [lock]; exact holds.lock
        update := by rw [update]; exact holds.update
        toward := by rw [target, expected, held]; exact holds.toward
        steady := by rw [held, expected]; exact holds.steady
        queued := by
          have := holds.queued
          simpa only [Queued, lock, update, target, expected] using this }

theorem Whole.target (hw : s.Whole) (h : s.Holds base .handler u)
    (entered : ∀ events, u ≠ .waiting events) :
    s.held.configuration = s.target .handler (s.expected base) := by
  have hu := h.update
  cases hh : s.handler with
  | idle => simp [Agent.update, hh] at hu
  | configuring => simp [Agent.update, hh] at hu
  | updating request v =>
    simp only [Agent.update, hh, Option.some.injEq] at hu
    subst hu
    cases v with
    | waiting events => exact absurd rfl (entered events)
    | emitting rest => exact h.toward.whole (hw request rest hh)
    | persisting => exact h.toward

/-! ### The steps -/

/-- A configure handler derives its events from an exact configuration. -/
theorem Inv.configure {request : AgentConfigureRequest} {requests : List AgentConfigureRequest}
    (h : Inv base s) (hh : s.handler = .idle) :
    Inv base ({ s with
      requests
      handler := .updating request (.waiting (s.held.configureEvents request))
      lock := s.lock.acquire .handler } : Agent S R).enter := by
  cases h with
  | free lock idle exact =>
    refine Holds.enter (show Holds base _ .handler (.waiting (s.held.configureEvents request)) from
      { lock := by simp [lock]
        update := rfl
        toward := ?_
        steady := by simp
        queued := .inl ⟨by simp [lock], idle .publisher⟩ })
    have := complete_configureEvents s.held request
    rwa [exact.1] at this
  | held w u entered holds =>
    have hw : w = .publisher := by
      cases w with
      | handler => have := holds.update; simp [Agent.update, hh] at this
      | publisher => rfl
    subst hw
    have waiters : s.lock.waiters = [] := by
      rcases holds.queued with ⟨hq, -⟩ | ⟨-, events, hu, -⟩
      · exact hq
      · simp [Writer.other, Agent.update, hh] at hu
    set t : Agent S R := { s with
      requests
      handler := .updating request (.waiting (s.held.configureEvents request))
      lock := s.lock.acquire .handler } with ht
    have he : t.enter = t := enter_of_entered (w := .publisher) (u := u) (by simp [ht, holds.lock]) holds.update entered
    rw [he]
    refine .held .publisher u entered
      { lock := by simp [ht, holds.lock]
        update := holds.update
        toward := holds.toward
        steady := holds.steady
        queued := .inr ⟨by simp [ht, holds.lock, waiters, Writer.other], _, rfl, ?_⟩ }
    have := complete_configureEvents s.held request
    rwa [holds.steady rfl] at this

/-- A publication that reads a whole configuration is on its way to the configuration the
state will have when its turn comes. -/
theorem Inv.status {schedule : List (String × S)} {votes : List (String × Bool)} {runtime : R}
    (h : Inv base s) (hp : s.publisher = .publishingVotes) (whole : s.Whole) :
    Inv base ({ s with
      publisher := .updating (.waiting (s.held.statusEvents schedule votes runtime))
      lock := s.lock.acquire .publisher } : Agent S R).enter := by
  cases h with
  | free lock idle exact =>
    refine Holds.enter (show Holds base _ .publisher (.waiting (s.held.statusEvents schedule votes runtime)) from
      { lock := by simp [lock]
        update := rfl
        toward := ?_
        steady := fun _ => exact.1
        queued := .inl ⟨by simp [lock], idle .handler⟩ })
    have := complete_statusEvents s.held schedule votes runtime
    rwa [exact.1] at this
  | held w u entered holds =>
    have hw : w = .handler := by
      cases w with
      | handler => rfl
      | publisher => have := holds.update; simp [Agent.update, hp] at this
    subst hw
    have waiters : s.lock.waiters = [] := by
      rcases holds.queued with ⟨hq, -⟩ | ⟨-, events, hu, -⟩
      · exact hq
      · simp [Writer.other, Agent.update, hp] at hu
    set t : Agent S R := { s with
      publisher := .updating (.waiting (s.held.statusEvents schedule votes runtime))
      lock := s.lock.acquire .publisher } with ht
    have he : t.enter = t := enter_of_entered (w := .handler) (u := u) (by simp [ht, holds.lock]) holds.update entered
    rw [he]
    refine .held .handler u entered
      { lock := by simp [ht, holds.lock]
        update := holds.update
        toward := holds.toward
        steady := by simp
        queued := .inr ⟨by simp [ht, holds.lock, waiters, Writer.other], _, rfl, ?_⟩ }
    have := complete_statusEvents s.held schedule votes runtime
    rwa [whole.target holds entered] at this

/-- Only the holder of the lock is past the queue. -/
theorem Inv.holder (h : Inv base s) (hu : s.update w = some u) (entered : ∀ events, u ≠ .waiting events) :
    s.Holds base w u := by
  cases h with
  | free _ idle _ => rw [idle w] at hu; cases hu
  | held w' u' entered' holds =>
    by_cases hw : w = w'
    · subst hw
      have := holds.update
      rw [hu] at this
      cases this
      exact holds
    · have other : w = w'.other := by cases w <;> cases w' <;> simp_all [Writer.other]
      subst other
      rcases holds.queued with ⟨-, hn⟩ | ⟨-, events, hq, -⟩
      · rw [hn] at hu; cases hu
      · rw [hq] at hu
        cases hu
        exact absurd rfl (entered events)

theorem Writer.other_other : w.other.other = w := by cases w <;> rfl

/-- The end of an update leaves an exact state, and the lock to the other writer. -/
theorem Holds.release (h : s.Holds base w .persisting) :
    Inv base ({ s.finish w with persisted := s.held, lock := s.lock.release } : Agent S R).enter := by
  have hu := h.update
  have hc : s.held.configuration = s.target w (s.expected base) := h.toward
  set t : Agent S R := { s.finish w with persisted := s.held, lock := s.lock.release } with ht
  have held : t.held = s.held := by
    cases w <;> cases hh : s.handler <;> simp [ht, finish, hh]
  have expected : t.expected base = s.target w (s.expected base) := by
    cases w <;> cases hh : s.handler <;> simp_all [finish, Agent.expected, target, Agent.update]
  have own : t.update w = none := by
    cases w <;> cases hh : s.handler <;> simp_all [finish, Agent.update]
  have other : t.update w.other = s.update w.other := by
    cases w <;> cases hh : s.handler <;> simp [ht, finish, Agent.update, Writer.other, hh]
  have target : ∀ c, t.target w.other c = s.target w.other c := by
    intro c
    cases w <;> cases hh : s.handler <;> simp [ht, finish, Agent.target, Writer.other, hh]
  have exact : t.Exact base := ⟨by rw [held, expected, hc], by rw [expected, ← hc]⟩
  rcases h.queued with ⟨hq, hn⟩ | ⟨hq, events, hw, hcomplete⟩
  · have lock : t.lock = {} := by simp [ht, Lock.release, hq]
    have hentered : t.enter = t := by simp [Agent.enter, lock]
    rw [hentered]
    refine .free lock (fun w' => ?_) exact
    by_cases hw : w' = w
    · rw [hw, own]
    · have : w' = w.other := by cases w <;> cases w' <;> simp_all [Writer.other]
      rw [this, other, hn]
  · refine Holds.enter (show Holds base _ w.other (.waiting events) from
      { lock := by simp [ht, Lock.release, hq]
        update := by rw [other, hw]
        toward := by rw [target, expected]; exact hcomplete
        steady := fun _ => exact.1
        queued := .inl ⟨by simp [ht, Lock.release, hq], by rw [Writer.other_other, own]⟩ })

/-- Every step keeps the invariant, a publication's if it reads a whole configuration. -/
theorem Inv.step (h : Inv base s) {label : AgentLabel S R} (ok : s.WholeStatus label)
    (hs : s.step label = some t) : Inv base t := by
  cases label with
  | request request =>
    cases hs
    exact h.congr rfl rfl rfl rfl (fun _ => rfl) (fun _ _ => rfl)
  | configure =>
    simp only [Agent.step] at hs
    split at hs
    · rename_i hh _
      cases hs
      exact h.configure hh
    · cases hs
  | wake =>
    simp only [Agent.step] at hs
    split at hs
    · rename_i hp
      cases hs
      refine h.congr rfl rfl rfl rfl (fun w => ?_) (fun _ _ => rfl)
      cases w <;> simp [Agent.update, hp]
    · cases hs
  | status schedule votes runtime =>
    simp only [Agent.step] at hs
    split at hs
    · rename_i hp
      cases hs
      exact h.status hp ok
    · cases hs
  | resume w =>
    simp only [Agent.step] at hs
    split at hs
    · rename_i rest hu
      cases hs
      have holds := h.holder hu (by simp)
      exact holds.advance holds.toward
    · rename_i hu
      cases hs
      exact (h.holder hu (by simp)).release
    · cases hs
  | configured =>
    simp only [Agent.step] at hs
    split at hs
    · rename_i hh
      cases hs
      refine h.congr rfl rfl rfl rfl (fun w => ?_) (fun w c => ?_)
      · cases w <;> simp [Agent.update, hh]
      · cases w <;> simp [Agent.target, hh]
    · cases hs

end Agent

end SensorKit.Auto
