import SensorKit.Core.ProgramSound

/-!
# The order of the published events

A session publishes its active state, then its tasking states, then the cleared state and the inactive state, and only
then does the next session begin, across restarts too. What is stored lags behind by the update at hand, and never by
the end of a session.
-/

namespace SensorKit.Core.Tasking

open Lib

namespace Event

/-- Where the event stands: in the order of the sessions, and within its session. -/
def place : Event → Option ℕ
  | .enable _ => none
  | .active event =>
    if event.active && event.stopping then none
    else event.session.map fun i => if event.active then 4 * i else 4 * i + 3
  | .tasking event => event.session.map fun i => if event.loopState.isSome then 4 * i + 1 else 4 * i + 2

@[simp] theorem session_withId (event : Event) (id : ℕ) : (event.withId id).session = event.session := by
  cases event <;> rfl

@[simp] theorem eventId_withId (event : Event) (id : ℕ) : (event.withId id).eventId = id := by
  cases event <;> rfl

end Event

/-- All events up to where the loop stands are before this place. -/
def TaskingLoop.frontier (loop : TaskingLoop) (i : ℕ) : ℕ :=
  if loop.started = false then 4 * i + 1
  else
    match loop.finalizer with
    | .waiting => 4 * i + 2
    | .clearing => 4 * i + 3
    | _ => 4 * i + 4

namespace ProgramImpl

variable (s : ProgramImpl) {event : Event} {ok : Bool} {state : ProgramState} {contexts : TaskContextMap}
  {request : EnableRequest} {rest : List Update}

def frontier : ℕ :=
  match s.taskLoop with
  | none => 4 * s.loops.length
  | some i =>
    match s.loops[i]? with
    | none => 0
    | some loop => loop.frontier i

/-- Every event so far stands before the place. -/
def Below (place : ℕ) : Prop :=
  ∀ event ∈ s.entered, ∀ k ∈ event.place, k < place

/-- What is known of a tasking state of the program, in memory or stored. -/
structure TaskingOk (state : ProgramTaskingState) : Prop where
  below : ∀ loopState, state.loopState = some loopState →
    .tasking state ∈ s.entered ∧ state.session = some loopState.sessionId ∧ s.Below (4 * loopState.sessionId + 3)
  /-- It is about the current session, which does not publish its end yet. -/
  fresh : s.mode = .attached → ∀ loopState, state.loopState = some loopState →
    s.taskLoop = some loopState.sessionId ∧
      ∀ loop, s.loops[loopState.sessionId]? = some loop → loop.started = true ∧ loop.finalizer ≠ .ending

/-- What is known of an active state of the program, in memory or stored. -/
structure ActiveOk (state : ProgramActiveState) : Prop where
  below : state.active = true → ∃ i, state.session = some i ∧ s.Below (4 * i + 4)
  bounded : ∀ i ∈ state.session, i < s.loops.length
  current : s.mode = .attached → state.active = true → s.taskLoop = state.session

structure StateOk (state : ProgramState) : Prop where
  tasking : s.TaskingOk state.taskingState
  active : s.ActiveOk state.activeState

/-- The event that has been set and not been published. -/
def pending : List Event :=
  match s.updateStage with
  | .emitting event => [event]
  | _ => []

structure Ordered : Prop where
  below : s.Below s.frontier
  ordered : s.entered.Pairwise fun a b => ∀ k ∈ a.place, ∀ l ∈ b.place, k ≤ l
  bounded : ∀ event ∈ s.entered, ∀ i ∈ event.session, i < s.loops.length
  owned : ∀ event ∈ s.entered, event.session = none → ∃ state, event = .enable state
  tagged : ∀ event loopState, .tasking event ∈ s.entered → event.loopState = some loopState →
    event.session = some loopState.sessionId
  faults : ∀ event loopState, .tasking event ∈ s.entered → event.loopState = some loopState →
    loopState.fault ≠ none → ∃ loop, s.loops[loopState.sessionId]? = some loop ∧ loop.loopState = loopState
  published : (s.stream ++ s.pending).Sublist s.entered
  state : s.StateOk s.state
  stored : ∀ state, s.stored = some state → s.StateOk state
  quiet : ∀ u ∈ s.updates, u.job = .initEnd → s.state.taskingState.loopState = none
  /-- What a starting program ends is what it has restored. -/
  ends : s.mode = .starting → s.updateStage = .entering → ∀ u ∈ s.updates,
    (u.job = .initClear → s.stored = some s.state ∧ ∃ loopState, s.state.taskingState.loopState = some loopState ∧
      u.event.session = some loopState.sessionId) ∧
    (u.job = .initEnd → s.stored = some s.state ∧ s.state.taskingState.loopState = none ∧ s.state.activeState.active = true ∧
      u.event.session = s.state.activeState.session)

variable {s} {s' : ProgramImpl} {u : Update} {i : ℕ} {loop loop' : TaskingLoop}

theorem Below.mono {k l : ℕ} (h : s.Below k) (le : k ≤ l) : s.Below l :=
  fun event mem k' place => Nat.lt_of_lt_of_le (h event mem k' place) le

/-! ## The loops go on -/

/-- The program's state, in memory and stored, is about no session's progress. -/
def Cleared : Prop :=
  s.state.taskingState.loopState = none ∧ ∀ state, s.stored = some state → state.taskingState.loopState = none

/-- The loops go on, and nothing is published. -/
structure Onward (s s' : ProgramImpl) : Prop where
  entered : s'.entered = s.entered
  stream : s'.stream = s.stream
  state : s'.state = s.state
  stored : s'.stored = s.stored
  mode : s'.mode = s.mode
  stage : s'.updateStage = s.updateStage
  updates : ∀ u ∈ s'.updates, u.job = .initClear ∨ u.job = .initEnd → u ∈ s.updates
  taskLoop : s'.taskLoop = s.taskLoop
  length : s'.loops.length = s.loops.length
  loops : ∀ (i : ℕ) loop', s'.loops[i]? = some loop' → ∃ loop, s.loops[i]? = some loop ∧
    (loop.started = true → loop'.started = true) ∧ (loop'.finalizer = .ending → loop.finalizer = .ending ∨ s.Cleared)
  faults : ∀ (i : ℕ) loop, s.loops[i]? = some loop → ∃ loop', s'.loops[i]? = some loop' ∧
    (loop.loopState.fault ≠ none → loop'.loopState = loop.loopState)
  frontier : s.frontier ≤ s'.frontier

theorem StateOk.onward (h : s.StateOk state) (on : Onward s s')
    (here : s.state = state ∨ s.stored = some state) : s'.StateOk state where
  tasking := {
    below := fun loopState is => by
      obtain ⟨mem, session, below⟩ := h.tasking.below loopState is
      unfold Below
      rw [on.entered]
      exact ⟨mem, session, below⟩
    fresh := fun attached loopState is => by
      obtain ⟨current, stands⟩ := h.tasking.fresh (on.mode.symm.trans attached) loopState is
      refine ⟨on.taskLoop.trans current, fun loop' found => ?_⟩
      obtain ⟨loop, before, started, ending⟩ := on.loops _ loop' found
      obtain ⟨was, not⟩ := stands loop before
      refine ⟨started was, fun ends => ?_⟩
      rcases ending ends with ended | cleared
      · exact not ended
      · rcases here with rfl | stored
        · cases is.symm.trans cleared.1
        · cases is.symm.trans (cleared.2 state stored) }
  active := {
    below := fun is => by
      obtain ⟨i, session, below⟩ := h.active.below is
      unfold Below
      rw [on.entered]
      exact ⟨i, session, below⟩
    bounded := by
      rw [on.length]
      exact h.active.bounded
    current := fun attached is => on.taskLoop.trans (h.active.current (on.mode.symm.trans attached) is) }

theorem Ordered.onward (h : s.Ordered) (on : Onward s s') : s'.Ordered where
  below := by
    unfold Below
    rw [on.entered]
    exact h.below.mono on.frontier
  ordered := by
    rw [on.entered]
    exact h.ordered
  bounded := by
    rw [on.entered, on.length]
    exact h.bounded
  owned := by
    rw [on.entered]
    exact h.owned
  tagged := by
    rw [on.entered]
    exact h.tagged
  faults event loopState mem is fault := by
    rw [on.entered] at mem
    obtain ⟨loop, found, same⟩ := h.faults event loopState mem is fault
    obtain ⟨loop', there, kept⟩ := on.faults _ loop found
    refine ⟨loop', there, ?_⟩
    rw [← same] at fault
    exact (kept fault).trans same
  published := by
    unfold pending
    rw [on.entered, on.stream, on.stage]
    exact h.published
  state := by
    rw [on.state]
    exact h.state.onward on (.inl rfl)
  stored state is := by
    have before := on.stored.symm.trans is
    exact (h.stored state before).onward on (.inr before)
  quiet u mem job := by
    rw [on.state]
    exact h.quiet u (on.updates u mem (.inr job)) job
  ends starting entering u mem := by
    rw [on.state, on.stored]
    have before := h.ends (on.mode.symm.trans starting) (on.stage.symm.trans entering)
    exact ⟨fun job => (before u (on.updates u mem (.inl job))).1 job,
      fun job => (before u (on.updates u mem (.inr job))).2 job⟩

/-- Only the control lock, the updates of requests and the replies change. -/
theorem onward_of_eq (entered : s'.entered = s.entered) (stream : s'.stream = s.stream) (state : s'.state = s.state)
    (stored : s'.stored = s.stored) (mode : s'.mode = s.mode) (stage : s'.updateStage = s.updateStage)
    (updates : ∀ u ∈ s'.updates, u.job = .initClear ∨ u.job = .initEnd → u ∈ s.updates)
    (taskLoop : s'.taskLoop = s.taskLoop) (loops : s'.loops = s.loops) : Onward s s' where
  entered := entered
  stream := stream
  state := state
  stored := stored
  mode := mode
  stage := stage
  updates := updates
  taskLoop := taskLoop
  length := by rw [loops]
  loops i loop found := ⟨loop, by rw [← loops]; exact found, id, .inl⟩
  faults i loop found := ⟨loop, by rw [loops]; exact found, fun _ => rfl⟩
  frontier := by
    unfold frontier
    refine Nat.le_of_eq ?_
    rw [taskLoop, loops]

theorem onward_setLoop (found : s.loops[i]? = some loop) (started : loop.started = true → loop'.started = true)
    (ending : loop'.finalizer = .ending → loop.finalizer = .ending ∨ s.Cleared)
    (fault : loop.loopState.fault ≠ none → loop'.loopState = loop.loopState)
    (frontier : loop.frontier i ≤ loop'.frontier i) : Onward s (s.setLoop i loop') where
  entered := rfl
  stream := rfl
  state := rfl
  stored := rfl
  mode := rfl
  stage := rfl
  updates _ mem _ := mem
  taskLoop := rfl
  length := List.length_set
  loops k l there := by
    obtain ⟨rfl, rfl⟩ | ⟨-, before⟩ := found_set there
    · exact ⟨loop, found, started, ending⟩
    · exact ⟨l, before, id, .inl⟩
  faults k l there := by
    by_cases same : k = i
    · subst same
      rw [found] at there
      cases there
      exact ⟨loop', set_found found, fault⟩
    · exact ⟨l, found_set_of_ne there same, fun _ => rfl⟩
  frontier := by
    unfold ProgramImpl.frontier ProgramImpl.setLoop
    dsimp only
    cases s.taskLoop with
    | none =>
      dsimp only
      refine Nat.le_of_eq ?_
      rw [List.length_set]
    | some k =>
      dsimp only
      by_cases same : k = i
      · subst same
        rw [found, set_found found]
        exact frontier
      · refine Nat.le_of_eq ?_
        rw [List.getElem?_set_ne (Ne.symm same)]

theorem onward_update {guard : Option ℕ} {job : Job} (other : job ≠ .initClear ∧ job ≠ .initEnd) :
    Onward s (s.update event guard job) :=
  onward_of_eq rfl rfl rfl rfl rfl rfl
    (fun u mem init => by
      rcases mem_snoc.1 mem with mem | mem
      · exact mem
      · rw [mem] at init
        rcases init with rfl | rfl
        · exact absurd rfl other.1
        · exact absurd rfl other.2) rfl rfl

theorem onward_control {control : Control} {replies : List Reply} :
    Onward s { s with control, replies } :=
  onward_of_eq rfl rfl rfl rfl rfl rfl (fun _ mem _ => mem) rfl rfl

theorem Steps.onward (steps : Steps loop loop') (found : s.loops[i]? = some loop) : Onward s (s.setLoop i loop') := by
  refine onward_setLoop found (fun started => steps.started.trans started)
    (fun ending => .inl (steps.finalizer.symm.trans ending)) steps.fault ?_
  unfold TaskingLoop.frontier
  refine Nat.le_of_eq ?_
  rw [steps.started, steps.finalizer]

/-! ## Requests -/

/-- While no loop is current, the program's state is that of no session. -/
theorem StateOk.idle (h : s.StateOk state) (attached : s.mode = .attached)
    (none : s.taskLoop = none) : state.taskingState.loopState = Option.none ∧ state.activeState.active = false := by
  constructor
  · cases tasking : state.taskingState.loopState with
    | none => rfl
    | some loopState =>
      have current := (h.tasking.fresh attached loopState tasking).1
      rw [none] at current
      cases current
  · apply Bool.eq_false_iff.2
    intro active
    obtain ⟨i, session, -⟩ := h.active.below active
    have current := h.active.current attached active
    rw [none, session] at current
    cases current

theorem taskingOk_cleared {state : ProgramTaskingState} (cleared : state.loopState = none) : s.TaskingOk state where
  below loopState is := by
    rw [cleared] at is
    cases is
  fresh _ loopState is := by
    rw [cleared] at is
    cases is

theorem activeOk_inactive {state : ProgramActiveState} (inactive : state.active = false)
    (bounded : ∀ i ∈ state.session, i < s.loops.length) : s.ActiveOk state where
  below is := by
    rw [inactive] at is
    cases is
  bounded := bounded
  current _ is := by
    rw [inactive] at is
    cases is

/-- A state of no session stays one whatever the loops do. -/
theorem stateOk_idle (cleared : state.taskingState.loopState = none)
    (inactive : state.activeState.active = false) (bounded : ∀ i ∈ state.activeState.session, i < s.loops.length) :
    s.StateOk state :=
  ⟨taskingOk_cleared cleared, activeOk_inactive inactive bounded⟩

theorem Ordered.startLoop (h : s.Ordered) (attached : s.mode = .attached)
    (none : s.taskLoop = none) : (s.startLoop contexts).Ordered := by
  unfold ProgramImpl.startLoop
  refine Ordered.onward ?_ (onward_update ⟨by rintro ⟨⟩, by rintro ⟨⟩⟩)
  have grown : s.frontier ≤ 4 * s.loops.length := by
    unfold frontier
    refine Nat.le_of_eq ?_
    rw [none]
  have less : ∀ i : ℕ, i < s.loops.length → i < (s.loops ++ [({ loopState := { sessionId := s.loops.length } } : TaskingLoop)]).length := by
    intro i less
    rw [List.length_append]
    omega
  exact {
    below := by
      refine Below.mono (h.below.mono grown) ?_
      unfold frontier
      dsimp only
      rw [List.getElem?_concat_length]
      exact Nat.le_succ _
    ordered := h.ordered
    bounded := fun event mem i session => less i (h.bounded event mem i session)
    owned := h.owned
    tagged := h.tagged
    faults := fun event loopState mem is fault => by
      obtain ⟨loop, found, same⟩ := h.faults event loopState mem is fault
      exact ⟨loop, found_snoc_of_found found, same⟩
    published := h.published
    state := by
      obtain ⟨cleared, inactive⟩ := h.state.idle attached none
      exact stateOk_idle cleared inactive fun i session => less i (h.state.active.bounded i session)
    stored := fun state is => by
      obtain ⟨cleared, inactive⟩ := (h.stored state is).idle attached none
      exact stateOk_idle cleared inactive fun i session => less i ((h.stored state is).active.bounded i session)
    quiet := h.quiet
    ends := fun starting => by cases attached.symm.trans starting }

/-- Steps that publish nothing and end no loop keep the order. -/
theorem Ordered.goes (h : s.Ordered) (goes : Goes s s') : s'.Ordered := by
  cases goes with
  | stays => exact h
  | replies => exact h.onward onward_control
  | control => exact h.onward onward_control
  | startLoop attached _ none => exact h.startLoop attached none
  | stop _ found => exact (h.onward (requestStop_steps.onward found)).onward (onward_update ⟨by rintro ⟨⟩, by rintro ⟨⟩⟩)
  | @enableStop i loop request _ _ found =>
    have locked : ({ s with control := .enableStopping i request } : ProgramImpl).Ordered := h.onward onward_control
    exact (locked.onward (requestStop_steps.onward found)).onward (onward_update ⟨by rintro ⟨⟩, by rintro ⟨⟩⟩)
  | publishEnable => exact (h.onward onward_control).onward (onward_update ⟨by rintro ⟨⟩, by rintro ⟨⟩⟩)
  | works found _ steps => exact h.onward (steps.onward found)
  | @reports i loop found =>
    have on : Onward s (s.setLoop i { loop with publishing := true }) :=
      onward_setLoop found id .inl (fun _ => rfl) (Nat.le_refl _)
    exact (h.onward on).onward (onward_update ⟨by rintro ⟨⟩, by rintro ⟨⟩⟩)

/-! ## `init_impl` -/

/-- In a program that does not handle requests, a state says no more of the current loop. -/
theorem StateOk.away (h : s.StateOk state) (entered : s'.entered = s.entered)
    (length : s'.loops.length = s.loops.length) (away : s'.mode ≠ .attached) : s'.StateOk state where
  tasking := {
    below := by
      unfold Below
      rw [entered]
      exact h.tasking.below
    fresh := fun attached => absurd attached away }
  active := {
    below := by
      unfold Below
      rw [entered]
      exact h.active.below
    bounded := by
      rw [length]
      exact h.active.bounded
    current := fun attached => absurd attached away }

/-- A program of which neither tasking nor activity is known handles requests. -/
theorem Ordered.attach (h : s.Ordered) (stored : s.stored = some s.state)
    (cleared : s.state.taskingState.loopState = none) (inactive : s.state.activeState.active = false) :
    ({ s with mode := .attached } : ProgramImpl).Ordered :=
  { h with
    state := stateOk_idle cleared inactive h.state.active.bounded
    stored := fun state is => by
      cases stored.symm.trans is
      exact stateOk_idle cleared inactive h.state.active.bounded
    ends := by rintro ⟨⟩ }

theorem Ordered.initEnd (h : s.Ordered) (none : s.updates = []) (stored : s.stored = some s.state)
    (cleared : s.state.taskingState.loopState = Option.none) : s.initEnd.Ordered := by
  unfold ProgramImpl.initEnd
  split_ifs with active
  · unfold ProgramImpl.update
    dsimp only
    rw [none]
    exact { h with
      state := h.state.away rfl rfl (by rintro ⟨⟩)
      stored := fun state is => (h.stored state is).away rfl rfl (by rintro ⟨⟩)
      quiet := fun _ _ _ => cleared
      ends := fun _ _ u mem => by
        rw [List.mem_singleton.1 mem]
        exact ⟨(by rintro ⟨⟩), fun _ => ⟨stored, cleared, active, rfl⟩⟩ }
  · exact h.attach stored cleared (by simpa using active)

theorem Ordered.initClear (h : s.Ordered) (none : s.updates = []) (stored : s.stored = some s.state) :
    s.initClear.Ordered := by
  unfold ProgramImpl.initClear
  split
  · rename_i loopState tasking
    unfold ProgramImpl.update
    dsimp only
    rw [none]
    exact { h with
      state := h.state.away rfl rfl (by rintro ⟨⟩)
      stored := fun state is => (h.stored state is).away rfl rfl (by rintro ⟨⟩)
      quiet := fun u mem job => by
        rw [List.mem_singleton.1 mem] at job
        cases job
      ends := fun _ _ u mem => by
        rw [List.mem_singleton.1 mem]
        exact ⟨fun _ => ⟨stored, loopState, tasking, rfl⟩, by rintro ⟨⟩⟩ }
  · rename_i cleared
    exact h.initEnd none stored cleared

theorem Ordered.init {readable stored raises : Bool} (h : s.Ordered) (sound : s.Sound)
    (hs : s.step (.init readable stored raises) = some s') : s'.Ordered := by
  unfold ProgramImpl.step at hs
  dsimp only at hs
  obtain ⟨guard, hs⟩ := Option.ite_none_left_eq_some.1 hs
  have down : s.mode = .down := Classical.by_contradiction fun up => guard (.inl up)
  have none := sound.down down
  have fresh : ∀ state kept, s.StateOk state → (∀ st, kept = some st → s.StateOk st) →
      ({ s with state, stored := kept } : ProgramImpl).Ordered := by
    intro state kept stateOk storedOk
    have away : s.mode ≠ .attached := by rw [down]; rintro ⟨⟩
    exact { h with
      state := stateOk.away rfl rfl away
      stored := fun st is => (storedOk st is).away rfl rfl away
      quiet := by
        dsimp only
        rw [none]
        rintro u ⟨⟩
      ends := fun starting => by cases down.symm.trans starting }
  have blank : s.StateOk {} := stateOk_idle rfl rfl (by rintro i ⟨⟩)
  split at hs
  · rename_i state restored
    cases hs
    obtain ⟨-, restored⟩ := Option.ite_none_right_eq_some.1 restored
    exact (fresh state _ (h.stored state restored) h.stored).initClear none restored
  · split_ifs at hs with raised put put
    · cases hs
      refine fresh _ _ blank ?_
      rintro st ⟨⟩
      exact blank
    · cases hs
      exact fresh _ _ blank h.stored
    · cases hs
      refine Ordered.initClear (fresh _ _ blank ?_) none rfl
      rintro st ⟨⟩
      exact blank
    · simp [raised, put] at guard

theorem frontier_le (sound : s.Sound) : s.frontier ≤ 4 * s.loops.length := by
  unfold frontier
  split
  · exact Nat.le_refl _
  · rename_i i current
    have last := sound.current i current
    split
    · exact Nat.zero_le _
    · unfold TaskingLoop.frontier
      split_ifs
      · omega
      · split <;> omega

theorem Ordered.crash (h : s.Ordered) (sound : s.Sound) (hs : s.step .crash = some s') : s'.Ordered := by
  cases hs
  exact {
    below := h.below.mono (by
      refine Nat.le_trans (frontier_le sound) ?_
      unfold frontier
      dsimp only
      refine Nat.le_of_eq ?_
      rw [List.length_map])
    ordered := h.ordered
    bounded := by
      dsimp only
      rw [List.length_map]
      exact h.bounded
    owned := h.owned
    tagged := h.tagged
    faults := fun event loopState mem is fault => by
      obtain ⟨loop, found, same⟩ := h.faults event loopState mem is fault
      dsimp only
      rw [List.getElem?_map, found]
      refine ⟨_, rfl, ?_⟩
      dsimp only
      split_ifs
      · exact same
      · exact same
    published := by
      unfold pending
      dsimp only
      rw [List.append_nil]
      exact (List.sublist_append_left ..).trans h.published
    state := h.state.away rfl (List.length_map _) (by rintro ⟨⟩)
    stored := fun state is => (h.stored state is).away rfl (List.length_map _) (by rintro ⟨⟩)
    quiet := by rintro u ⟨⟩
    ends := by rintro ⟨⟩ }

/-! ## After an update -/

/-- The state has been stored with what the update has set. -/
def Put (u : Update) : Prop :=
  s.stored = some s.state ∧ ∃ id, s.state.set (u.event.withId id) = s.state

/-- The next step of a loop's task or finalizer takes the events so far no further than its place. -/
theorem frontier_started (unstarted : loop.started = false) (started : loop'.started = true) :
    loop.frontier i ≤ loop'.frontier i := by
  unfold TaskingLoop.frontier
  rw [unstarted, started]
  simp only [if_true, Bool.true_eq_false, if_false]
  split <;> omega

theorem frontier_ended (done : loop'.finalizer = .ending ∨ loop'.finalizer = .failed)
    (started : loop'.started = true) : loop.frontier i ≤ loop'.frontier i := by
  have last : loop'.frontier i = 4 * i + 4 := by
    unfold TaskingLoop.frontier
    rw [started]
    rcases done with ended | failed
    · rw [ended]
      rfl
    · rw [failed]
      rfl
  rw [last]
  unfold TaskingLoop.frontier
  split_ifs
  · omega
  · split <;> omega

section

variable (h : s.Ordered)
include h

theorem Ordered.proceed_start (at_hand : s.AtHand u) (job : u.job = .start i) : (s.proceed (.start i) ok).Ordered := by
  have expects := at_hand.expects
  unfold Expects at expects
  rw [job] at expects
  obtain ⟨-, -, ⟨loop, found, unstarted, waiting⟩, -⟩ := expects
  unfold ProgramImpl.proceed
  simp only [found]
  split_ifs
  · have on : Onward s (s.setLoop i { loop with started := true }) :=
      onward_setLoop found (fun _ => rfl) .inl (fun _ => rfl) (frontier_started unstarted rfl)
    exact (h.onward on).onward onward_control
  · have on : Onward s (s.setLoop i { loop.requestStop true with started := true }) :=
      onward_setLoop found (fun _ => rfl) .inl (fun _ => rfl) (frontier_started unstarted rfl)
    exact (h.onward on).onward onward_control

theorem Ordered.proceed_clear (at_hand : s.AtHand u) (job : u.job = .clear i) (done : ok = true → s.Put u) :
    (s.proceed (.clear i) ok).Ordered := by
  have expects := at_hand.expects
  unfold Expects at expects
  rw [job] at expects
  obtain ⟨-, ⟨loop, found, started, clearing⟩, executionState, event⟩ := expects
  unfold ProgramImpl.proceed
  simp only [found]
  split_ifs with ok
  · obtain ⟨stored, eventId, shown⟩ := done ok
    -- The cleared state is in memory and stored before the session ends.
    have cleared : s.state.taskingState.loopState = none := by
      rw [← shown, event]
      rfl
    have all : s.Cleared := by
      refine ⟨cleared, fun state is => ?_⟩
      cases stored.symm.trans is
      exact cleared
    have on : Onward s (s.setLoop i { loop with finalizer := .ending }) :=
      onward_setLoop found id (fun _ => .inr all) (fun _ => rfl) (frontier_ended (.inl rfl) started)
    exact (h.onward on).onward (onward_update ⟨by rintro ⟨⟩, by rintro ⟨⟩⟩)
  · exact h.onward (onward_setLoop found id (by rintro ⟨⟩) (fun _ => rfl) (frontier_ended (.inr rfl) started))

theorem Ordered.proceed_finish (sound : s.Sound) (at_hand : s.AtHand u) (job : u.job = .finish i)
    (done : ok = true → s.Put u) : (s.proceed (.finish i) ok).Ordered := by
  have expects := at_hand.expects
  unfold Expects at expects
  rw [job] at expects
  obtain ⟨-, ⟨loop, found, started, ending⟩, origin, event⟩ := expects
  have live := live_of ending (by decide)
  have current := (sound.live i loop found).2 live
  have attached := sound.attached_of_loop current
  unfold ProgramImpl.proceed
  simp only [found]
  split_ifs with ok
  · obtain ⟨stored, eventId, shown⟩ := done ok
    have inactive : s.state.activeState.active = false := by
      rw [← shown, event]
      rfl
    have cleared : s.state.taskingState.loopState = none := by
      cases tasking : s.state.taskingState.loopState with
      | none => rfl
      | some loopState =>
        obtain ⟨same, stands⟩ := h.state.tasking.fresh attached loopState tasking
        cases current.symm.trans same
        exact absurd ending (stands loop found).2
    have bounded : ∀ k ∈ s.state.activeState.session, k < (s.setLoop i { loop with finalizer := .done }).loops.length := by
      unfold ProgramImpl.setLoop
      rw [List.length_set]
      exact h.state.active.bounded
    exact {
      below := h.below.mono (by
        refine Nat.le_trans (frontier_le sound) ?_
        unfold frontier ProgramImpl.setLoop
        dsimp only
        refine Nat.le_of_eq ?_
        rw [List.length_set])
      ordered := h.ordered
      bounded := by
        unfold ProgramImpl.setLoop
        dsimp only
        rw [List.length_set]
        exact h.bounded
      owned := h.owned
      tagged := h.tagged
      faults := fun event loopState mem is fault => by
        obtain ⟨l, there, same⟩ := h.faults event loopState mem is fault
        by_cases here : loopState.sessionId = i
        · rw [here] at there ⊢
          rw [found] at there
          cases there
          exact ⟨_, set_found found, same⟩
        · exact ⟨l, found_set_of_ne there here, same⟩
      published := h.published
      state := stateOk_idle cleared inactive bounded
      stored := fun state is => by
        cases stored.symm.trans is
        exact stateOk_idle cleared inactive bounded
      quiet := h.quiet
      ends := fun starting => by cases attached.symm.trans starting }
  · exact h.onward (onward_setLoop found id (by rintro ⟨⟩) (fun _ => rfl) (frontier_ended (.inr rfl) started))

theorem Ordered.down : ({ s with mode := .down } : ProgramImpl).Ordered :=
  { h with
    state := h.state.away rfl rfl (by rintro ⟨⟩)
    stored := fun state is => (h.stored state is).away rfl rfl (by rintro ⟨⟩)
    ends := by rintro ⟨⟩ }

theorem Ordered.proceed (sound : s.Sound) (at_hand : s.AtHand u)
    (cleared : u.job = .initEnd → ok = true → s.state.taskingState.loopState = none)
    (done : ok = true → u.loop = none → s.Put u) : (s.proceed u.job ok).Ordered := by
  have expects := at_hand.expects
  unfold Expects at expects
  cases job : u.job with
  | start i => exact h.proceed_start at_hand job
  | report i =>
    rw [job] at expects
    obtain ⟨-, loop, found, -⟩ := expects
    unfold ProgramImpl.proceed
    simp only [found]
    exact h.onward (onward_setLoop found id .inl (fun _ => rfl) (Nat.le_refl _))
  | clear i =>
    rw [job] at expects
    exact h.proceed_clear at_hand job fun ok => done ok expects.1
  | finish i =>
    rw [job] at expects
    exact h.proceed_finish sound at_hand job fun ok => done ok expects.1
  | stop i => exact h
  | enableStop i =>
    unfold ProgramImpl.proceed
    dsimp only
    split
    · exact h.onward onward_control
    · exact h
  | enable => exact h.onward onward_control
  | initClear =>
    rw [job] at expects
    obtain ⟨starting, free, executionState, session, event⟩ := expects
    unfold ProgramImpl.proceed
    dsimp only
    split_ifs with ok
    · obtain ⟨stored, eventId, shown⟩ := done ok free
      refine h.initEnd (at_hand.last starting) stored ?_
      rw [← shown, event]
      rfl
    · exact h.down
  | initEnd =>
    rw [job] at expects
    obtain ⟨starting, free, session, event⟩ := expects
    unfold ProgramImpl.proceed
    dsimp only
    split_ifs with ok
    · obtain ⟨stored, eventId, shown⟩ := done ok free
      refine h.attach stored (cleared job ok) ?_
      rw [← shown, event]
      rfl
    · exact h.down

/-- The first update leaves the lock. -/
theorem Ordered.dropHead {stream : List Event} {stored : Option ProgramState} (sound : s.Sound)
    (head : s.updates = u :: rest) (published : stream.Sublist s.entered)
    (kept : ∀ state, stored = some state → s.StateOk state) :
    ({ s with updates := rest, updateStage := .entering, stream, stored } : ProgramImpl).Ordered where
  below := h.below
  ordered := h.ordered
  bounded := h.bounded
  owned := h.owned
  tagged := h.tagged
  faults := h.faults
  published := by
    unfold pending
    dsimp only
    rw [List.append_nil]
    exact published
  state := ⟨{ h.state.tasking with }, { h.state.active with }⟩
  stored state is := ⟨{ (kept state is).tasking with }, { (kept state is).active with }⟩
  quiet v mem := h.quiet v (by rw [head]; exact List.mem_cons_of_mem _ mem)
  ends starting _ v mem := by
    have length := sound.starting starting
    rw [head, List.length_cons] at length
    have none : rest = [] := List.length_eq_zero_iff.1 (by omega)
    rw [none] at mem
    cases mem

theorem Ordered.leave {stream : List Event} {stored : Option ProgramState} (sound : s.Sound)
    (head : s.updates = u :: rest) (published : stream.Sublist s.entered)
    (kept : ∀ state, stored = some state → s.StateOk state)
    (cleared : u.job = .initEnd → ok = true → s.state.taskingState.loopState = none)
    (done : ok = true → u.loop = none → stored = some s.state ∧ ∃ id, s.state.set (u.event.withId id) = s.state) :
    (({ s with stream, stored } : ProgramImpl).leave u rest ok).Ordered := by
  unfold ProgramImpl.leave
  have kept : ({ s with stream, stored } : ProgramImpl).Sound := { sound with }
  obtain ⟨sound', at_hand⟩ := kept.dropHead head
  exact (h.dropHead sound head published ‹_›).proceed sound' at_hand cleared done

end

/-! ## Setting the state -/

/-- What an update sets stands after all events so far, and before the frontier. -/
structure Enters (s : ProgramImpl) (event : Event) : Prop where
  place : ∀ k ∈ event.place, k < s.frontier ∧ s.Below (k + 1)
  bounded : ∀ i ∈ event.session, i < s.loops.length
  owned : event.session = none → ∃ state, event = .enable state
  tagged : ∀ state loopState, event = .tasking state → state.loopState = some loopState →
    state.session = some loopState.sessionId ∧
      (loopState.fault ≠ none → ∃ loop, s.loops[loopState.sessionId]? = some loop ∧ loop.loopState = loopState)
  /-- It does not end a session of which the state still tells. -/
  tasking : ∀ state, s.TaskingOk state → (s.state.taskingState = state ∨ ∃ kept, s.stored = some kept ∧
    kept.taskingState = state) → ∀ loopState, state.loopState = some loopState → ∀ k ∈ event.place,
      k < 4 * loopState.sessionId + 3
  active : ∀ state, s.ActiveOk state → (s.state.activeState = state ∨ ∃ kept, s.stored = some kept ∧
    kept.activeState = state) → state.active = true → ∀ i, state.session = some i → ∀ k ∈ event.place, k < 4 * i + 4
  /-- The event is about the current session. -/
  newTasking : ∀ state loopState, event = .tasking state → state.loopState = some loopState →
    s.Below (4 * loopState.sessionId + 3) ∧ (∀ k ∈ event.place, k < 4 * loopState.sessionId + 3) ∧
      (s.mode = .attached → s.taskLoop = some loopState.sessionId ∧
        ∀ loop, s.loops[loopState.sessionId]? = some loop → loop.started = true ∧ loop.finalizer ≠ .ending)
  newActive : ∀ state, event = .active state → state.active = true → ∃ i, state.session = some i ∧
    s.Below (4 * i + 4) ∧ (∀ k ∈ event.place, k < 4 * i + 4) ∧ (s.mode = .attached → s.taskLoop = some i)

/-- The program after the update has set the state. -/
def entered' (s : ProgramImpl) (event : Event) : ProgramImpl :=
  { s with state := s.state.set event, entered := s.entered ++ [event], updateStage := .emitting event }

theorem Below.entered {k : ℕ} (h : s.Below k) (new : ∀ l ∈ event.place, l < k) :
    (s.entered' event).Below k := by
  intro e mem l place
  rcases mem_snoc.1 mem with mem | mem
  · exact h e mem l place
  · rw [mem] at place
    exact new l place

theorem TaskingOk.entered {state : ProgramTaskingState} (h : s.TaskingOk state)
    (new : ∀ loopState, state.loopState = some loopState → ∀ k ∈ event.place, k < 4 * loopState.sessionId + 3) :
    (s.entered' event).TaskingOk state where
  below loopState is := by
    obtain ⟨mem, session, below⟩ := h.below loopState is
    exact ⟨List.mem_append_left _ mem, session, below.entered (new loopState is)⟩
  fresh := h.fresh

theorem ActiveOk.entered {state : ProgramActiveState} (h : s.ActiveOk state)
    (new : state.active = true → ∀ i, state.session = some i → ∀ k ∈ event.place, k < 4 * i + 4) :
    (s.entered' event).ActiveOk state where
  below is := by
    obtain ⟨i, session, below⟩ := h.below is
    exact ⟨i, session, below.entered (new is i session)⟩
  bounded := h.bounded
  current := h.current

theorem Ordered.entered (h : s.Ordered) (entering : s.updateStage = .entering) (enters : Enters s event)
    (quiet : ∀ u ∈ s.updates, u.job = .initEnd → (s.state.set event).taskingState.loopState = none) :
    (s.entered' event).Ordered where
  below := h.below.entered fun k place => (enters.place k place).1
  ordered := by
    refine List.pairwise_append.2 ⟨h.ordered, List.pairwise_singleton .., ?_⟩
    intro a mem b last k place l place'
    rw [List.mem_singleton.1 last] at place'
    exact Nat.le_of_lt_succ ((enters.place l place').2 a mem k place)
  bounded e mem := by
    rcases mem_snoc.1 mem with mem | mem
    · exact h.bounded e mem
    · rw [mem]
      exact enters.bounded
  owned e mem := by
    rcases mem_snoc.1 mem with mem | mem
    · exact h.owned e mem
    · rw [mem]
      exact enters.owned
  tagged state loopState mem is := by
    rcases List.mem_append.1 mem with mem | mem
    · exact h.tagged state loopState mem is
    · exact (enters.tagged state loopState (List.mem_singleton.1 mem).symm is).1
  faults state loopState mem is := by
    rcases List.mem_append.1 mem with mem | mem
    · exact h.faults state loopState mem is
    · exact (enters.tagged state loopState (List.mem_singleton.1 mem).symm is).2
  published := by
    have published := h.published
    unfold pending at published ⊢
    rw [entering, List.append_nil] at published
    exact published.append (List.Sublist.refl _)
  state := by
    have tasking := h.state.tasking.entered (enters.tasking _ h.state.tasking (.inl rfl))
    have active := h.state.active.entered (enters.active _ h.state.active (.inl rfl))
    cases event with
    | enable event => exact ⟨tasking, active⟩
    | active event =>
      refine ⟨tasking, ⟨fun is => ?_, enters.bounded, fun attached is => ?_⟩⟩
      · obtain ⟨i, session, below, new, -⟩ := enters.newActive event rfl is
        exact ⟨i, session, below.entered new⟩
      · obtain ⟨i, session, -, -, current⟩ := enters.newActive event rfl is
        exact (current attached).trans session.symm
    | tasking event =>
      refine ⟨⟨fun loopState is => ?_, fun attached loopState is => ?_⟩, active⟩
      · obtain ⟨below, new, -⟩ := enters.newTasking event loopState rfl is
        exact ⟨List.mem_append_right _ (List.mem_singleton.2 rfl), (enters.tagged event loopState rfl is).1,
          below.entered new⟩
      · exact (enters.newTasking event loopState rfl is).2.2 attached
  stored state is := by
    have kept := h.stored state is
    exact ⟨kept.tasking.entered (enters.tasking _ kept.tasking (.inr ⟨state, is, rfl⟩)),
      kept.active.entered (enters.active _ kept.active (.inr ⟨state, is, rfl⟩))⟩
  quiet := quiet
  ends _ entering := by cases entering

/-- The next event of the current session. -/
theorem Ordered.enters_current {event : Event} {k : ℕ} (h : s.Ordered) (sound : s.Sound)
    (found : s.loops[i]? = some loop) (live : loop.Live) (session : event.session = some i) (here : event.place = some k)
    (next : k + 1 = loop.frontier i) (early : k < 4 * i + 3 ∨ loop.finalizer = .ending)
    (tagged : ∀ state loopState, event = .tasking state → state.loopState = some loopState →
      loopState.sessionId = i ∧ (loopState.fault ≠ none → loop.loopState = loopState) ∧
        loop.started = true ∧ loop.finalizer = .waiting) :
    Enters s event := by
  have current := (sound.live i loop found).2 live
  have place : ∀ l ∈ event.place, l = k := fun l mem => Option.mem_unique mem here
  have last := sound.current i current
  have attached := sound.attached_of_loop current
  have frontier : s.frontier = loop.frontier i := by
    unfold ProgramImpl.frontier
    rw [current]
    dsimp only
    rw [found]
  have upper := frontier_le sound
  exact {
    place := fun l mem => by
      rw [place l mem]
      exact ⟨by omega, h.below.mono (by omega)⟩
    bounded := fun j mem => by
      rw [session] at mem
      cases mem
      exact lt_of_found found
    owned := fun none => by cases session.symm.trans none
    tagged := fun state loopState is tasking => by
      obtain ⟨same, fault, -⟩ := tagged state loopState is tasking
      subst is
      exact ⟨same ▸ session, fun faulty => ⟨loop, same ▸ found, fault faulty⟩⟩
    tasking := fun state ok _ loopState is l mem => by
      obtain ⟨now, stands⟩ := ok.fresh attached loopState is
      rw [current] at now
      have same := Option.some.inj now
      rw [← same] at stands ⊢
      rw [place l mem]
      rcases early with less | ending
      · exact less
      · exact absurd ending (stands loop found).2
    active := fun state ok _ is j mine l mem => by
      have now := ok.current attached is
      rw [current, mine] at now
      have same := Option.some.inj now
      rw [place l mem]
      omega
    newTasking := fun state loopState is tasking => by
      obtain ⟨rfl, -, started, waiting⟩ := tagged state loopState is tasking
      have reach : loop.frontier loopState.sessionId = 4 * loopState.sessionId + 2 := by
        unfold TaskingLoop.frontier
        rw [started, waiting]
        rfl
      refine ⟨h.below.mono (by omega), fun l mem => ?_, fun _ => ⟨current, fun l there => ?_⟩⟩
      · rw [place l mem]
        omega
      · rw [found] at there
        cases there
        exact ⟨started, by rw [waiting]; rintro ⟨⟩⟩
    newActive := fun state is active => by
      subst is
      refine ⟨i, session, h.below.mono (by omega), fun l mem => ?_, fun _ => current⟩
      rw [place l mem]
      omega }

/-- An event that has no place among the sessions' events. -/
theorem Ordered.enters_aside (h : s.Ordered) (sound : s.Sound) (aside : event.place = none)
    (session : ∀ i ∈ event.session, s.taskLoop = some i) (tasking : ∀ state, event ≠ .tasking state)
    (active : ∀ state, event = .active state → state.session ≠ none) : Enters s event where
  place k mem := by
    rw [aside] at mem
    cases mem
  bounded i mem := by
    have last := sound.current i (session i mem)
    omega
  owned none := by
    cases event with
    | enable state => exact ⟨state, rfl⟩
    | active state => exact absurd none (active state rfl)
    | tasking state => exact absurd rfl (tasking state)
  tagged state loopState is := absurd is (tasking state)
  tasking state ok here loopState is k mem := by
    rw [aside] at mem
    cases mem
  active state ok here is i mine k mem := by
    rw [aside] at mem
    cases mem
  newTasking state loopState is := absurd is (tasking state)
  newActive state is _ := by
    subst is
    obtain ⟨i, mine⟩ := Option.ne_none_iff_exists'.1 (active state rfl)
    have current := session i mine
    have last := sound.current i current
    have upper := frontier_le sound
    refine ⟨i, mine, h.below.mono (by omega), fun k mem => ?_, fun _ => current⟩
    rw [aside] at mem
    cases mem

/-- The end of what an earlier process has left. -/
theorem enters_init {c : ℕ}
    (stored : s.stored = some s.state) (session : event.session = some c) (less : c < s.loops.length)
    (place : ∀ k ∈ event.place, k < 4 * c + 4 ∧ s.Below (k + 1) ∧ (s.state.activeState.active = true →
      ∀ i, s.state.activeState.session = some i → k < 4 * i + 4) ∧
        ∀ loopState, s.state.taskingState.loopState = some loopState → k < 4 * loopState.sessionId + 3)
    (none : s.taskLoop = none) (cleared : ∀ state loopState, event = .tasking state → state.loopState ≠ some loopState)
    (inactive : ∀ state, event = .active state → state.active = false) : Enters s event where
  place k mem := by
    obtain ⟨upper, below, -⟩ := place k mem
    refine ⟨?_, below⟩
    unfold frontier
    rw [none]
    dsimp only
    omega
  bounded i mem := by
    rw [session] at mem
    cases mem
    exact less
  owned none := by cases session.symm.trans none
  tagged state loopState is tasking := absurd tasking (cleared state loopState is)
  tasking state _ here loopState is k mem := by
    have same : s.state.taskingState = state := by
      rcases here with here | ⟨kept, is', rfl⟩
      · exact here
      · cases stored.symm.trans is'
        rfl
    rw [← same] at is
    exact (place k mem).2.2.2 loopState is
  active state _ here is i mine k mem := by
    have same : s.state.activeState = state := by
      rcases here with here | ⟨kept, is', rfl⟩
      · exact here
      · cases stored.symm.trans is'
        rfl
    rw [← same] at is mine
    exact (place k mem).2.2.1 is i mine
  newTasking state loopState is tasking := absurd tasking (cleared state loopState is)
  newActive state is active := by
    rw [inactive state is] at active
    cases active

theorem Ordered.enters {eventId : ℕ} (h : s.Ordered) (sound : s.Sound)
    (head : s.updates = u :: rest) (entering : s.updateStage = .entering)
    (passes : ¬(u.loop ≠ none ∧ u.loop ≠ s.taskLoop)) : Enters s (u.event.withId eventId) := by
  have expects := sound.expects u (by simp [head])
  have ends := fun starting => h.ends starting entering u (by simp [head])
  have guarded : ∀ i, u.loop = some i → s.taskLoop = some i := by
    intro i guard
    by_contra other
    exact passes ⟨by rw [guard]; rintro ⟨⟩, by rw [guard]; exact fun same => other same.symm⟩
  unfold Expects at expects
  cases job : u.job with
  | start i =>
    rw [job] at expects
    obtain ⟨-, -, ⟨loop, found, unstarted, waiting⟩, contexts, event⟩ := expects
    rw [event]
    exact h.enters_current sound found (live_of waiting (by decide)) rfl (k := 4 * i) rfl
      (by simp [TaskingLoop.frontier, unstarted]) (.inl (by omega)) (by rintro state loopState ⟨⟩)
  | report i =>
    rw [job] at expects
    obtain ⟨-, loop, found, reporting, loopState, executionState, event, named, kept⟩ := expects
    rw [event]
    refine h.enters_current sound found (live_of reporting.waiting (by decide)) rfl (k := 4 * i + 1) rfl
      (by simp [TaskingLoop.frontier, reporting.started, reporting.waiting]) (.inl (by omega)) ?_
    rintro state loopState ⟨⟩ ⟨⟩
    exact ⟨named, kept, reporting.started, reporting.waiting⟩
  | clear i =>
    rw [job] at expects
    obtain ⟨-, ⟨loop, found, started, clearing⟩, executionState, event⟩ := expects
    rw [event]
    exact h.enters_current sound found (live_of clearing (by decide)) rfl (k := 4 * i + 2) rfl
      (by simp [TaskingLoop.frontier, started, clearing]) (.inl (by omega)) (by rintro state loopState ⟨⟩ ⟨⟩)
  | finish i =>
    rw [job] at expects
    obtain ⟨-, ⟨loop, found, started, ending⟩, origin, event⟩ := expects
    rw [event]
    exact h.enters_current sound found (live_of ending (by decide)) rfl (k := 4 * i + 3) rfl
      (by simp [TaskingLoop.frontier, started, ending]) (.inr ending) (by rintro state loopState ⟨⟩)
  | stop i =>
    rw [job] at expects
    obtain ⟨-, guard, -, origin, contexts, event⟩ := expects
    rw [event]
    refine h.enters_aside sound rfl ?_ (by rintro state ⟨⟩) (by rintro state ⟨⟩ ⟨⟩)
    rintro k ⟨⟩
    exact guarded i guard
  | enableStop i =>
    rw [job] at expects
    obtain ⟨-, guard, -, origin, contexts, event⟩ := expects
    rw [event]
    refine h.enters_aside sound rfl ?_ (by rintro state ⟨⟩) (by rintro state ⟨⟩ ⟨⟩)
    rintro k ⟨⟩
    exact guarded i guard
  | enable =>
    rw [job] at expects
    obtain ⟨-, -, enabled, controller, event⟩ := expects
    rw [event]
    exact h.enters_aside sound rfl (by rintro k ⟨⟩) (by rintro state ⟨⟩) (by rintro state ⟨⟩)
  | initClear =>
    rw [job] at expects
    obtain ⟨starting, -, executionState, session, event⟩ := expects
    obtain ⟨stored, loopState, tasking, mine⟩ := (ends starting).1 job
    obtain ⟨mem, tagged, below⟩ := h.state.tasking.below loopState tasking
    rw [event] at mine
    cases mine
    rw [event]
    have noLoop := (sound.detached (by rw [starting]; rintro ⟨⟩)).2
    -- The session has reported its tasking state before, so it is no later than the active state's.
    have reported : (4 * loopState.sessionId + 1) ∈ (Event.tasking s.state.taskingState).place := by
      show (s.state.taskingState.session.map _) = _
      rw [tagged, tasking]
      rfl
    refine enters_init stored rfl (h.bounded _ mem _ tagged) ?_ noLoop (by rintro state other ⟨⟩ ⟨⟩)
      (by rintro state ⟨⟩)
    intro k at_k
    obtain rfl : k = 4 * loopState.sessionId + 2 := (Option.some.inj at_k).symm
    refine ⟨by omega, below, ?_, ?_⟩
    · intro active i mine
      obtain ⟨j, mine', later⟩ := h.state.active.below active
      rw [mine] at mine'
      cases mine'
      have less := later _ mem _ reported
      omega
    · intro other same
      rw [tasking] at same
      cases same
      omega
  | initEnd =>
    rw [job] at expects
    obtain ⟨starting, -, session, event⟩ := expects
    obtain ⟨stored, cleared, active, mine⟩ := (ends starting).2 job
    obtain ⟨i, mine', below⟩ := h.state.active.below active
    rw [event, mine'] at mine
    cases mine
    rw [event]
    have noLoop := (sound.detached (by rw [starting]; rintro ⟨⟩)).2
    refine enters_init stored rfl (h.state.active.bounded i mine') ?_ noLoop (by rintro state other ⟨⟩) ?_
    · intro k at_k
      obtain rfl : k = 4 * i + 3 := (Option.some.inj at_k).symm
      refine ⟨by omega, below, ?_, ?_⟩
      · intro _ j mine
        rw [mine'] at mine
        cases mine
        omega
      · intro other same
        rw [cleared] at same
        cases same
    · rintro state ⟨⟩
      rfl

/-! ## The system -/

section

variable (h : s.Ordered) (sound : s.Sound)
include h sound

theorem Ordered.enter {eventId : ℕ} (hs : s.step (.enter eventId) = some s') : s'.Ordered := by
  unfold ProgramImpl.step at hs
  dsimp only at hs
  split at hs
  · rename_i u rest head entering
    have published := h.published
    unfold pending at published
    rw [entering, List.append_nil] at published
    split_ifs at hs with replaced
    · cases hs
      have expects := sound.expects u (by simp [head])
      unfold Expects at expects
      refine h.leave sound head published h.stored ?_ fun _ free => absurd free replaced.1
      intro job
      rw [job] at expects
      exact absurd expects.2.1 replaced.1
    · cases hs
      refine h.entered entering (h.enters sound head entering replaced) ?_
      intro v mem job
      -- The update is the only one.
      have expects := sound.expects v mem
      unfold Expects at expects
      rw [job] at expects
      obtain ⟨starting, -, session, event⟩ := expects
      have alone := sound.starting starting
      rw [head, List.length_cons] at alone
      have none : rest = [] := List.length_eq_zero_iff.1 (by omega)
      rw [head, none] at mem
      rw [List.mem_singleton.1 mem] at event job
      rw [event]
      exact h.quiet u (by simp [head]) job
  · cases hs

theorem Ordered.emit {published raises : Bool} (hs : s.step (.emit published raises) = some s') : s'.Ordered := by
  unfold ProgramImpl.step at hs
  dsimp only at hs
  split at hs
  · rename_i u rest event head emitting
    have all := h.published
    unfold pending at all
    rw [emitting] at all
    dsimp only at all
    have before : s.stream.Sublist s.entered := (List.sublist_append_left ..).trans all
    split_ifs at hs with raised out out
    · cases hs
      exact h.leave sound head all h.stored (by rintro _ ⟨⟩) (by rintro ⟨⟩)
    · cases hs
      exact h.leave sound head before h.stored (by rintro _ ⟨⟩) (by rintro ⟨⟩)
    · cases hs
      exact { h with
        published := by
          unfold pending
          dsimp only
          rw [List.append_nil]
          exact all
        state := ⟨{ h.state.tasking with }, { h.state.active with }⟩
        stored := fun state is => ⟨{ (h.stored state is).tasking with }, { (h.stored state is).active with }⟩
        ends := by rintro _ ⟨⟩ }
  · cases hs

theorem Ordered.put {stored raises : Bool} (hs : s.step (.put stored raises) = some s') : s'.Ordered := by
  unfold ProgramImpl.step at hs
  dsimp only at hs
  split at hs
  · rename_i u rest head putting
    have published := h.published
    unfold pending at published
    rw [putting, List.append_nil] at published
    obtain ⟨either, ⟨⟩⟩ := Option.ite_none_right_eq_some.1 hs
    refine h.leave sound head published ?_ ?_ ?_
    · intro state is
      split_ifs at is
      · cases is
        exact h.state
      · exact h.stored state is
    · exact fun job _ => h.quiet u (by simp [head]) job
    · intro ok _
      have done : stored = true := by
        rcases either with done | raised
        · exact done
        · rw [raised] at ok
          cases ok
      obtain ⟨v, rest', eventId, head', shown, -⟩ := sound.stage (by rw [putting]; rintro ⟨⟩)
      rw [head] at head'
      cases head'
      exact ⟨if_pos done, eventId, shown⟩
  · cases hs

theorem Ordered.cancel {k : ℕ} (hs : s.step (.cancel k) = some s') : s'.Ordered := by
  unfold ProgramImpl.step at hs
  dsimp only at hs
  obtain ⟨behind, hs⟩ := Option.ite_none_right_eq_some.1 hs
  split at hs
  · rename_i u found
    cases hs
    obtain ⟨sound', at_hand⟩ := sound.dropWaiting found behind
    have on : Onward s { s with updates := s.updates.eraseIdx k } :=
      onward_of_eq rfl rfl rfl rfl rfl rfl (fun v mem _ => List.mem_of_mem_eraseIdx mem) rfl rfl
    exact (h.onward on).proceed sound' at_hand (by rintro _ ⟨⟩) (by rintro ⟨⟩)
  · cases hs

theorem Ordered.step {a : ProgramLabel} (hs : s.step a = some s') : s'.Ordered := by
  by_cases quiet : a.loud = false
  · exact h.goes (sound.goes hs quiet)
  cases a with
  | init readable stored raises => exact h.init sound hs
  | crash => exact h.crash sound hs
  | enter eventId => exact h.enter sound hs
  | emit published raises => exact h.emit sound hs
  | put stored raises => exact h.put sound hs
  | cancel k => exact h.cancel sound hs
  | clear i =>
    obtain ⟨loop, found, hs⟩ := Option.bind_eq_some_iff.1 hs
    obtain ⟨⟨-, waiting⟩, ⟨⟩⟩ := Option.ite_none_right_eq_some.1 hs
    have on : Onward s (s.setLoop i { loop with finalizer := .clearing }) := by
      refine onward_setLoop found id (by rintro ⟨⟩) (fun _ => rfl) ?_
      unfold TaskingLoop.frontier
      rw [waiting]
      dsimp only
      split_ifs <;> omega
    exact (h.onward on).onward (onward_update ⟨by rintro ⟨⟩, by rintro ⟨⟩⟩)
  | _ => exact absurd rfl quiet

end

theorem ordered_start : Ordered {} where
  below _ mem := by cases mem
  ordered := .nil
  bounded _ mem := by cases mem
  owned _ mem := by cases mem
  tagged _ _ mem := by cases mem
  faults _ _ mem := by cases mem
  published := .slnil
  state := stateOk_idle rfl rfl (by rintro i ⟨⟩)
  stored _ is := by cases is
  quiet _ mem := by cases mem
  ends starting := by cases starting

/-- The invariants hold in every reachable state. -/
theorem sound_and_ordered {ok : ProgramImpl → ProgramLabel → Prop} (run : Reaches ProgramImpl.step ok {} s) :
    s.Sound ∧ s.Ordered :=
  run.invariant (I := fun s => s.Sound ∧ s.Ordered) ⟨sound_start, ordered_start⟩ fun _ _ _ before _ hs =>
    ⟨before.1.step hs, before.2.step before.1 hs⟩

/-! ## What has been published stays -/

theorem initEnd_grows : s.initEnd.stream = s.stream ∧ s.initEnd.entered = s.entered := by
  unfold ProgramImpl.initEnd
  split_ifs
  · exact ⟨rfl, rfl⟩
  · exact ⟨rfl, rfl⟩

theorem initClear_grows : s.initClear.stream = s.stream ∧ s.initClear.entered = s.entered := by
  unfold ProgramImpl.initClear
  split
  · exact ⟨rfl, rfl⟩
  · exact initEnd_grows

theorem proceed_grows {job : Job} :
    (s.proceed job ok).stream = s.stream ∧ (s.proceed job ok).entered = s.entered := by
  unfold ProgramImpl.proceed
  cases job with
  | stop => exact ⟨rfl, rfl⟩
  | enable => exact ⟨rfl, rfl⟩
  | initEnd => exact ⟨rfl, rfl⟩
  | initClear =>
    dsimp only
    split_ifs
    · exact initEnd_grows
    · exact ⟨rfl, rfl⟩
  | enableStop =>
    dsimp only
    split
    · exact ⟨rfl, rfl⟩
    · exact ⟨rfl, rfl⟩
  | report =>
    dsimp only
    split
    · exact ⟨rfl, rfl⟩
    · exact ⟨rfl, rfl⟩
  | start | clear | finish =>
    dsimp only
    split
    · exact ⟨rfl, rfl⟩
    · split_ifs
      · exact ⟨rfl, rfl⟩
      · exact ⟨rfl, rfl⟩

/-- The state grows by what is published and entered. -/
def Grows (s s' : ProgramImpl) : Prop :=
  s.stream <+: s'.stream ∧ s.entered <+: s'.entered

/-- What a step publishes and enters. -/
structure StepGrows (s s' : ProgramImpl) (a : ProgramLabel) : Prop where
  grows : Grows s s'
  entered : s'.entered = s.entered ∨ ∃ event, a = .enter event.eventId ∧ s'.entered = s.entered ++ [event]

theorem grows_of_eq {a : ProgramLabel} (same : s'.stream = s.stream ∧ s'.entered = s.entered) : StepGrows s s' a := by
  refine ⟨?_, .inl same.2⟩
  unfold Grows
  rw [same.1, same.2]
  exact ⟨List.prefix_refl _, List.prefix_refl _⟩

theorem Goes.grows (goes : Goes s s') : s'.stream = s.stream ∧ s'.entered = s.entered := by
  cases goes <;> exact ⟨rfl, rfl⟩

theorem step_grows {a : ProgramLabel} (sound : s.Sound) (hs : s.step a = some s') : StepGrows s s' a := by
  by_cases quiet : a.loud = false
  · exact grows_of_eq (sound.goes hs quiet).grows
  cases a with
  | enter eventId =>
    unfold ProgramImpl.step at hs
    dsimp only at hs
    split at hs
    · split_ifs at hs
      · cases hs
        exact grows_of_eq proceed_grows
      · cases hs
        exact ⟨⟨List.prefix_refl _, List.prefix_append ..⟩, .inr ⟨_, by rw [Event.eventId_withId], rfl⟩⟩
    · cases hs
  | emit published raises =>
    unfold ProgramImpl.step at hs
    dsimp only at hs
    split at hs
    · split_ifs at hs
      · cases hs
        refine ⟨?_, .inl proceed_grows.2⟩
        unfold Grows ProgramImpl.leave
        rw [proceed_grows.1, proceed_grows.2]
        exact ⟨List.prefix_append .., List.prefix_refl _⟩
      · cases hs
        exact grows_of_eq proceed_grows
      · cases hs
        exact ⟨⟨List.prefix_append .., List.prefix_refl _⟩, .inl rfl⟩
    · cases hs
  | init readable stored raises =>
    unfold ProgramImpl.step at hs
    dsimp only at hs
    obtain ⟨-, hs⟩ := Option.ite_none_left_eq_some.1 hs
    split at hs
    · cases hs
      exact grows_of_eq initClear_grows
    · split_ifs at hs
      all_goals cases hs
      · exact grows_of_eq ⟨rfl, rfl⟩
      · exact grows_of_eq ⟨rfl, rfl⟩
      · exact grows_of_eq initClear_grows
      · exact grows_of_eq initClear_grows
  | crash =>
    cases hs
    exact grows_of_eq ⟨rfl, rfl⟩
  | put stored raises =>
    unfold ProgramImpl.step at hs
    dsimp only at hs
    split at hs
    · obtain ⟨-, ⟨⟩⟩ := Option.ite_none_right_eq_some.1 hs
      exact grows_of_eq proceed_grows
    · cases hs
  | cancel k =>
    obtain ⟨-, hs⟩ := Option.ite_none_right_eq_some.1 hs
    split at hs
    · cases hs
      exact grows_of_eq proceed_grows
    · cases hs
  | clear =>
    obtain ⟨loop, found, hs⟩ := Option.bind_eq_some_iff.1 hs
    obtain ⟨-, ⟨⟩⟩ := Option.ite_none_right_eq_some.1 hs
    exact grows_of_eq ⟨rfl, rfl⟩
  | _ => exact absurd rfl quiet

end ProgramImpl

end SensorKit.Core.Tasking
