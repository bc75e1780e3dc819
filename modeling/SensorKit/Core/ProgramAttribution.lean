import SensorKit.Core.ProgramMonitor

/-!
# Session attribution

The events of a session stand together on the stream. A monitor that follows a session's last report therefore meets the
events that clear and end this session before those of any other, if each session is announced on the stream.
-/

namespace SensorKit.Core.Tasking

open Lib

variable {s s' : ProgramImpl} {m : ProgramTaskingMonitor} {a b event : Event} {session : ℕ}
  {state : ProgramTaskingState} {loopState : TaskingLoopState} {executionState : Option String}

/-! ## Order by identifiers -/

def IdsOrdered (events : List Event) : Prop :=
  events.Pairwise fun a b => a.eventId < b.eventId

/-- Events that are ordered by their identifiers stand in this order. -/
theorem ProgramImpl.Ordered.place_le (h : s.Ordered) (ids : IdsOrdered s.entered) (ha : a ∈ s.entered)
    (hb : b ∈ s.entered) (less : a.eventId < b.eventId) {k l : ℕ} (hk : k ∈ a.place) (hl : l ∈ b.place) : k ≤ l := by
  obtain ⟨i, hi, rfl⟩ := List.getElem_of_mem ha
  obtain ⟨j, hj, rfl⟩ := List.getElem_of_mem hb
  have byId := List.pairwise_iff_getElem.1 ids
  rcases Nat.lt_trichotomy i j with before | same | after
  · exact List.pairwise_iff_getElem.1 h.ordered i j hi hj before k hk l hl
  · subst same
    omega
  · have more := byId j i hj hi after
    omega

theorem eq_of_eventId (ids : IdsOrdered s.entered) (ha : a ∈ s.entered) (hb : b ∈ s.entered)
    (same : a.eventId = b.eventId) : a = b := by
  obtain ⟨i, hi, rfl⟩ := List.getElem_of_mem ha
  obtain ⟨j, hj, rfl⟩ := List.getElem_of_mem hb
  have byId := List.pairwise_iff_getElem.1 ids
  rcases Nat.lt_trichotomy i j with before | rfl | after
  · have less := byId i j hi hj before
    omega
  · rfl
  · have more := byId j i hj hi after
    omega

theorem ProgramImpl.Ordered.entered_of_stream (h : s.Ordered) (mem : event ∈ s.stream) : event ∈ s.entered :=
  h.published.subset (List.mem_append_left _ mem)

theorem ProgramImpl.Ordered.stream_ids (h : s.Ordered) (ids : IdsOrdered s.entered) : IdsOrdered s.stream :=
  List.Pairwise.sublist ((List.sublist_append_left ..).trans h.published) ids

/-- The events passed before one of the stream have smaller identifiers. -/
theorem lt_of_passed {position : ℕ} (ids : IdsOrdered s.stream) (here : s.stream[position]? = some event)
    (passed : a ∈ s.stream.take position) : a.eventId < event.eventId := by
  obtain ⟨bound, rfl⟩ := List.getElem?_eq_some_iff.1 here
  obtain ⟨i, less, rfl⟩ := List.mem_take_iff_getElem.1 passed
  exact List.pairwise_iff_getElem.1 ids i position (by omega) bound (by omega)

theorem take_succ_of_here {position : ℕ} (here : s.stream[position]? = some event) :
    s.stream.take (position + 1) = s.stream.take position ++ [event] := by
  obtain ⟨bound, rfl⟩ := List.getElem?_eq_some_iff.1 here
  exact List.take_succ_eq_append_getElem bound

theorem Announced.prefix_of {stream stream' : List Event} (h : Announced stream') (le : stream <+: stream') :
    Announced stream := by
  obtain ⟨rest, rfl⟩ := le
  intro i less closes
  have more : i < (stream ++ rest).length := by
    rw [List.length_append]
    omega
  have here : (stream ++ rest)[i] = stream[i] := List.getElem_append_left less
  obtain ⟨earlier, mem, announces, same⟩ := h i more (by rw [here]; exact closes)
  rw [List.take_append_of_le_length (Nat.le_of_lt less)] at mem
  rw [here] at same
  exact ⟨earlier, mem, announces, same⟩

theorem Announced.earlier {position : ℕ} (h : Announced s.stream) (here : s.stream[position]? = some event)
    (closes : event.closes = true) :
    ∃ earlier ∈ s.stream.take position, earlier.announces = true ∧ earlier.session = event.session := by
  obtain ⟨bound, rfl⟩ := List.getElem?_eq_some_iff.1 here
  exact h position bound closes

/-! ## Places of events -/

theorem place_of_report
    (is : state.loopState = some loopState) (mine : state.session = some session) :
    4 * session + 1 ∈ (Event.tasking state).place := by
  show state.session.map _ = _
  rw [mine, is]
  rfl

theorem place_of_cleared (is : state.loopState = none)
    (mine : state.session = some session) : 4 * session + 2 ∈ (Event.tasking state).place := by
  show state.session.map _ = _
  rw [mine, is]
  rfl

theorem place_of_active {state : ProgramActiveState} (active : state.active = true) (going : state.stopping = false)
    (mine : state.session = some session) : 4 * session ∈ (Event.active state).place := by
  show (if state.active && state.stopping then none else state.session.map _) = _
  rw [mine, active, going]
  rfl

theorem place_of_inactive {state : ProgramActiveState} (inactive : state.active = false)
    (mine : state.session = some session) : 4 * session + 3 ∈ (Event.active state).place := by
  show (if state.active && state.stopping then none else state.session.map _) = _
  rw [mine, inactive]
  rfl

theorem place_of_stopping {state : ProgramActiveState} (active : state.active = true)
    (stopping : state.stopping = true) : (Event.active state).place = none := by
  show (if state.active && state.stopping then none else state.session.map _) = none
  rw [active, stopping]
  rfl

/-- What closes a session stands at its end. -/
theorem place_of_closes (closes : event.closes = true) (mine : event.session = some session) :
    ∃ k ∈ event.place, 4 * session + 2 ≤ k ∧ k ≤ 4 * session + 3 := by
  cases event with
  | enable state => cases closes
  | active state =>
    unfold Event.closes at closes
    exact ⟨_, place_of_inactive (by simpa using closes) mine, by omega, by omega⟩
  | tasking state =>
    unfold Event.closes at closes
    exact ⟨_, place_of_cleared (by simpa using closes) mine, by omega, by omega⟩

/-- An announcement stands at the beginning of its session. -/
theorem place_of_announces (announces : event.announces = true) (mine : event.session = some session) :
    ∃ k ∈ event.place, 4 * session ≤ k ∧ k ≤ 4 * session + 1 := by
  cases event with
  | enable state => cases announces
  | active state =>
    unfold Event.announces at announces
    simp only [Bool.and_eq_true, Bool.not_eq_true'] at announces
    exact ⟨_, place_of_active announces.1 announces.2 mine, by omega, by omega⟩
  | tasking state =>
    obtain ⟨loopState, is⟩ := Option.isSome_iff_exists.1 announces
    exact ⟨_, place_of_report is mine, by omega, by omega⟩

/-! ## Following a session -/

/-- The last report that the monitor has met is the session's, and it has not met the session's end since. -/
structure Follows (s : ProgramImpl) (m : ProgramTaskingMonitor) (session : ℕ) : Prop where
  report : ∃ state loopState, .tasking state ∈ s.entered ∧ state.loopState = some loopState ∧
    loopState.sessionId = session ∧ state.eventId = m.currentAfter
  passed : ∀ event ∈ s.stream.take m.position, m.currentAfter < event.eventId → ∀ k ∈ event.place, k < 4 * session + 3

/-- Events no later than the followed report do not end its session. -/
theorem Follows.le {k : ℕ} (h : Follows s m session) (ordered : s.Ordered) (ids : IdsOrdered s.entered)
    (mem : event ∈ s.entered) (le : event.eventId ≤ m.currentAfter) (place : k ∈ event.place) : k ≤ 4 * session + 1 := by
  obtain ⟨state, loopState, report, is, rfl, after⟩ := h.report
  have place' := place_of_report is (ordered.tagged state loopState report is)
  rcases Nat.lt_or_eq_of_le le with less | same
  · exact ordered.place_le ids mem report (by rw [show (Event.tasking state).eventId = m.currentAfter from after]; exact less) place place'
  · obtain rfl := eq_of_eventId ids mem report (same.trans after.symm)
    refine Nat.le_of_eq ?_
    rw [Option.mem_unique place place']

/-- **The next event that closes a session closes the followed one.** -/
theorem Follows.closes (h : Follows s m session) (ordered : s.Ordered) (ids : IdsOrdered s.entered)
    (announced : Announced s.stream) (here : s.stream[m.position]? = some event)
    (later : m.currentAfter < event.eventId) (closes : event.closes = true) : event.session = some session := by
  obtain ⟨bound, at_⟩ := List.getElem?_eq_some_iff.1 here
  have mem : event ∈ s.stream := at_ ▸ List.getElem_mem bound
  have entered := ordered.entered_of_stream mem
  cases mine : event.session with
  | none =>
    obtain ⟨state, rfl⟩ := ordered.owned event entered mine
    cases closes
  | some j =>
    obtain ⟨k, place, low, high⟩ := place_of_closes closes mine
    -- It is not earlier than the report that the monitor follows.
    have least : session ≤ j := by
      obtain ⟨state, loopState, report, is, rfl, after⟩ := h.report
      have place' := place_of_report is (ordered.tagged state loopState report is)
      have le := ordered.place_le ids report entered (by rw [show (Event.tasking state).eventId = m.currentAfter from after]; exact later) place' place
      omega
    -- Nor does it belong to a later session, whose announcement would have been met.
    have most : j ≤ session := by
      obtain ⟨earlier, passed, announces, same⟩ := announced.earlier here closes
      obtain ⟨l, place', low', high'⟩ := place_of_announces announces (same.trans mine)
      by_cases less : m.currentAfter < earlier.eventId
      · have before := h.passed earlier passed less l place'
        omega
      · have before := h.le ordered ids (ordered.entered_of_stream (List.mem_of_mem_take passed)) (Nat.not_lt.1 less) place'
        omega
    rw [Nat.le_antisymm most least]

/-! ## The monitor's invariant -/

structure MonitorOk (s : ProgramImpl) (m : ProgramTaskingMonitor) : Prop where
  since : m.since ≤ m.position
  position : m.position ≤ s.stream.length
  unbound : m.sessionId = none → m.position = m.since ∧ m.current = none ∧ m.returned = [] ∧ m.loopState = none ∧
    m.ending = none
  /-- The snapshot's session had not ended when it was read. -/
  initial : ∀ state, m.initial = some state → ∀ loopState, state.taskingState.loopState = some loopState →
    .tasking state.taskingState ∈ s.entered ∧
      ∀ event ∈ s.stream.take m.since, ∀ k ∈ event.place, k < 4 * loopState.sessionId + 3
  follows : ∀ session, m.sessionId = some session → m.current = some session → m.ending = none → Follows s m session
  reported : ∀ session, m.sessionId = some session → ∀ loopState, m.loopState = some loopState →
    loopState.sessionId = session ∧ ∃ state, .tasking state ∈ s.entered ∧ state.loopState = some loopState
  returned : ∀ session, m.sessionId = some session → ∀ state ∈ m.returned, state.session = some session
  retained : ∀ state ∈ m.returned, ∀ loopState, state.loopState = some loopState → loopState.fault ≠ none →
    m.fault = some loopState
  ending : ∀ session, m.sessionId = some session → ∀ state, m.ending = some state →
    state.active = false ∧ state.session = some session ∧
      ∃ before after, s.stream = before ++ .active state :: after ∧
        ∀ other, .active other ∈ before → other.active = false → other.session ≠ some session

theorem Follows.grows (h : Follows s m session) (le : m.position ≤ s.stream.length) (grows : s.Grows s') :
    Follows s' m session where
  report := by
    obtain ⟨state, loopState, mem, rest⟩ := h.report
    exact ⟨state, loopState, grows.2.subset mem, rest⟩
  passed := by
    obtain ⟨rest, same⟩ := grows.1
    rw [← same, List.take_append_of_le_length le]
    exact h.passed

theorem MonitorOk.grows (h : MonitorOk s m) (grows : s.Grows s') : MonitorOk s' m where
  since := h.since
  position := Nat.le_trans h.position grows.1.length_le
  unbound := h.unbound
  initial state is loopState tasking := by
    obtain ⟨mem, passed⟩ := h.initial state is loopState tasking
    obtain ⟨rest, same⟩ := grows.1
    rw [← same, List.take_append_of_le_length (Nat.le_trans h.since h.position)]
    exact ⟨grows.2.subset mem, passed⟩
  follows session bound current going := (h.follows session bound current going).grows h.position grows
  reported session bound loopState is := by
    obtain ⟨same, state, mem, rest⟩ := h.reported session bound loopState is
    exact ⟨same, state, grows.2.subset mem, rest⟩
  returned := h.returned
  retained := h.retained
  ending session bound state is := by
    obtain ⟨inactive, mine, before, after, split, first⟩ := h.ending session bound state is
    obtain ⟨rest, same⟩ := grows.1
    refine ⟨inactive, mine, before, after ++ rest, ?_, first⟩
    rw [← same, split]
    simp

theorem monitorOk_subscribe {since : ℕ} (le : since ≤ s.stream.length) : MonitorOk s { since } where
  since := Nat.le_refl _
  position := le
  unbound _ := ⟨rfl, rfl, rfl, rfl, rfl⟩
  initial _ is := by cases is
  follows _ bound := by cases bound
  reported _ bound := by cases bound
  returned _ bound := by cases bound
  retained _ mem := by cases mem
  ending _ bound := by cases bound

theorem MonitorOk.read (h : MonitorOk s m) (ordered : s.Ordered) (unbound : m.sessionId = none) :
    MonitorOk s { m with initial := s.stored, prepared := true } :=
  { h with
    initial := fun state is loopState tasking => by
      obtain ⟨mem, -, below⟩ := (ordered.stored state is).tasking.below loopState tasking
      exact ⟨mem, fun event passed => below event (ordered.entered_of_stream (List.mem_of_mem_take passed))⟩
    follows := fun session bound => by cases unbound.symm.trans bound }

/-- Two reports of one session with a fault have the same fault. -/
theorem fault_unique {state' : ProgramTaskingState} {loopState' : TaskingLoopState} (h : s.Ordered)
    (mem : .tasking state ∈ s.entered) (is : state.loopState = some loopState) (fault : loopState.fault ≠ none)
    (mem' : .tasking state' ∈ s.entered) (is' : state'.loopState = some loopState') (fault' : loopState'.fault ≠ none)
    (same : loopState.sessionId = loopState'.sessionId) : loopState = loopState' := by
  obtain ⟨loop, found, kept⟩ := h.faults state loopState mem is fault
  obtain ⟨loop', found', kept'⟩ := h.faults state' loopState' mem' is' fault'
  rw [same, found'] at found
  cases found
  exact kept.symm.trans kept'

theorem fault_eq_some {fault : TaskingLoopState} : m.fault = some fault ↔ m.loopState = some fault ∧ fault.fault ≠ none := by
  unfold ProgramTaskingMonitor.fault
  rw [Option.filter_eq_some_iff]
  simp

/-! ## One event -/

theorem Follows.pass (h : Follows s m session) (here : s.stream[m.position]? = some event)
    (fine : m.currentAfter < event.eventId → ∀ k ∈ event.place, k < 4 * session + 3) :
    Follows s { m with position := m.position + 1 } session where
  report := h.report
  passed e mem later k place := by
    dsimp only at mem
    rw [take_succ_of_here here] at mem
    rcases mem_snoc.1 mem with mem | mem
    · exact h.passed e mem later k place
    · rw [mem] at later place
      exact fine later k place

section

variable (h : MonitorOk s m)
include h

/-- The event tells the monitor nothing. -/
theorem MonitorOk.pass (bound : m.sessionId = some session) (here : s.stream[m.position]? = some event)
    (fine : m.current = some session → m.ending = none → m.currentAfter < event.eventId →
      ∀ k ∈ event.place, k < 4 * session + 3) : MonitorOk s { m with position := m.position + 1 } :=
  { h with
    since := Nat.le_succ_of_le h.since
    position := (List.getElem?_eq_some_iff.1 here).1
    unbound := fun none => by cases bound.symm.trans none
    follows := fun session' bound' current going => by
      cases bound.symm.trans bound'
      exact (h.follows session bound current going).pass here (fine current going) }

/-- A report names the session that the following events belong to. -/
theorem MonitorOk.identify (ordered : s.Ordered) (ids : IdsOrdered s.entered) (bound : m.sessionId = some session)
    (here : s.stream[m.position]? = some (.tasking state)) (is : state.loopState = some loopState) :
    MonitorOk s { m with
      position := m.position + 1, current := some loopState.sessionId, currentAfter := state.eventId } :=
  { h with
    since := Nat.le_succ_of_le h.since
    position := (List.getElem?_eq_some_iff.1 here).1
    unbound := fun none => by cases bound.symm.trans none
    follows := fun session' bound' current going => by
      refine ⟨⟨state, loopState, ordered.entered_of_stream (List.mem_of_getElem? here), is, Option.some.inj current,
        rfl⟩, ?_⟩
      intro e passed later
      -- The report is the latest event that has been passed.
      dsimp only at passed later
      rw [take_succ_of_here here] at passed
      rcases mem_snoc.1 passed with passed | last
      · have less := lt_of_passed (ordered.stream_ids ids) here passed
        have more : state.eventId < e.eventId := later
        exact absurd (Nat.lt_trans less more) (Nat.lt_irrefl _)
      · rw [last] at later
        exact absurd later (Nat.lt_irrefl _) }

/-- A report of the session is retained, up to its first fault. -/
theorem MonitorOk.report (bound : m.sessionId = some session) (mine : loopState.sessionId = session)
    (mem : ∃ state, .tasking state ∈ s.entered ∧ state.loopState = some loopState) :
    MonitorOk s (m.report loopState executionState) :=
  { h with
    unbound := fun none => by cases bound.symm.trans none
    follows := fun session' bound' current going =>
      ⟨(h.follows session' bound' current going).report, (h.follows session' bound' current going).passed⟩
    reported := fun session' bound' loopState' is' => by
      cases bound.symm.trans bound'
      unfold ProgramTaskingMonitor.report at is'
      dsimp only at is'
      split_ifs at is'
      · cases is'
        exact ⟨mine, mem⟩
      · exact h.reported session bound loopState' is'
    retained := fun state' mem' loopState' is' faulty => by
      have before := h.retained state' mem' loopState' is' faulty
      rw [fault_eq_some]
      refine ⟨?_, faulty⟩
      unfold ProgramTaskingMonitor.report
      dsimp only
      rw [before, if_neg (by rintro ⟨⟩)]
      exact (fault_eq_some.1 before).1 }

/-- A fault that is reported is the retained one. -/
theorem MonitorOk.fault_of_report (ordered : s.Ordered) (bound : m.sessionId = some session)
    (mem : .tasking state ∈ s.entered) (is : state.loopState = some loopState) (mine : loopState.sessionId = session)
    (faulty : loopState.fault ≠ none) : (m.report loopState executionState).fault = some loopState := by
  rw [fault_eq_some]
  refine ⟨?_, faulty⟩
  unfold ProgramTaskingMonitor.report
  dsimp only
  split_ifs with none
  · rfl
  · obtain ⟨fault, before⟩ := Option.ne_none_iff_exists'.1 none
    obtain ⟨reported, faulty'⟩ := fault_eq_some.1 before
    obtain ⟨same, state', mem', is'⟩ := h.reported session bound fault reported
    rw [reported, fault_unique ordered mem is faulty mem' is' faulty' (mine.trans same.symm)]

/-- A state of the session is returned. -/
theorem MonitorOk.return (bound : m.sessionId = some session) (mine : state.session = some session)
    (kept : ∀ loopState, state.loopState = some loopState → loopState.fault ≠ none → m.fault = some loopState) :
    MonitorOk s { m with executionState, returned := m.returned ++ [state] } :=
  { h with
    unbound := fun none => by cases bound.symm.trans none
    follows := fun session' bound' current going =>
      ⟨(h.follows session' bound' current going).report, (h.follows session' bound' current going).passed⟩
    returned := fun session' bound' state' mem => by
      cases bound.symm.trans bound'
      rcases mem_snoc.1 mem with mem | mem
      · exact h.returned session bound state' mem
      · rw [mem]
        exact mine
    retained := fun state' mem loopState' is' faulty => by
      rcases mem_snoc.1 mem with mem | mem
      · exact h.retained state' mem loopState' is' faulty
      · rw [mem] at is'
        exact kept loopState' is' faulty }

/-- Another session begins. -/
theorem MonitorOk.forget {after : ℕ} (bound : m.sessionId = some session) :
    MonitorOk s { m with current := none, currentAfter := after } :=
  { h with
    unbound := fun none => by cases bound.symm.trans none
    follows := by rintro session' bound' ⟨⟩ }

/-- The followed session ends, for the first time. -/
theorem MonitorOk.ends {state : ProgramActiveState} (ordered : s.Ordered) (ids : IdsOrdered s.entered)
    (bound : m.sessionId = some session) (follows : Follows s m session)
    (here : s.stream[m.position]? = some (.active state)) (inactive : state.active = false)
    (mine : state.session = some session) : MonitorOk s { m with position := m.position + 1, ending := some state } :=
  { h with
    since := Nat.le_succ_of_le h.since
    position := (List.getElem?_eq_some_iff.1 here).1
    unbound := fun none => by cases bound.symm.trans none
    follows := by rintro session' bound' current ⟨⟩
    ending := fun session' bound' state' is => by
      cases bound.symm.trans bound'
      cases is
      obtain ⟨less, at_⟩ := List.getElem?_eq_some_iff.1 here
      refine ⟨inactive, mine, s.stream.take m.position, s.stream.drop (m.position + 1), ?_, ?_⟩
      · rw [← at_, ← List.drop_eq_getElem_cons less, List.take_append_drop]
      · intro other passed inactive' mine'
        have place := place_of_inactive inactive' mine'
        by_cases later : m.currentAfter < (Event.active other).eventId
        · have before := follows.passed _ passed later _ place
          omega
        · have before := follows.le ordered ids (ordered.entered_of_stream (List.mem_of_mem_take passed))
            (Nat.not_lt.1 later) place
          omega }

theorem MonitorOk.next (ordered : s.Ordered) (ids : IdsOrdered s.entered) (announced : Announced s.stream)
    (bound : m.sessionId = some session) (here : s.stream[m.position]? = some event) :
    MonitorOk s (m.next session event) := by
  have entered := ordered.entered_of_stream (List.mem_of_getElem? here)
  unfold ProgramTaskingMonitor.next ProgramTaskingMonitor.observe
  dsimp only
  split_ifs with ended
  · simp only [Option.toList_none, List.append_nil]
    exact h.pass bound here fun _ going => absurd going ended
  · cases event with
    | enable state =>
      simp only [Option.toList_none, List.append_nil]
      refine h.pass bound here fun _ _ _ k place => ?_
      cases place
    | tasking state =>
      cases is : state.loopState with
      | some loopState =>
        simp only [is]
        have identified := h.identify ordered ids bound here is
        split_ifs with mine
        · have session' := ordered.tagged state loopState entered is
          rw [mine] at session'
          refine MonitorOk.return (identified.report bound mine ⟨state, entered, is⟩) bound session' ?_
          intro loopState' is' faulty
          cases is.symm.trans is'
          exact identified.fault_of_report ordered bound entered is mine faulty
        · simp only [Option.toList_none, List.append_nil]
          exact identified
      | none =>
        simp only [is]
        split_ifs with closes
        · have follows := h.follows session bound closes.1 (not_not.1 ended)
          have mine : state.session = some session :=
            follows.closes ordered ids announced here closes.2 (by unfold Event.closes; simp [is])
          have passed : MonitorOk s { m with position := m.position + 1 } := by
            refine h.pass bound here fun _ _ _ k place => ?_
            rw [← Option.mem_unique (place_of_cleared is mine) place]
            omega
          exact passed.return bound mine fun loopState is' => by cases is.symm.trans is'
        · simp only [Option.toList_none, List.append_nil]
          refine h.pass bound here fun current _ later => absurd ⟨current, later⟩ closes
    | active state =>
      dsimp only
      split_ifs with begins closes
      · simp only [Option.toList_none, List.append_nil]
        have passed : MonitorOk s { m with current := none, position := m.position + 1 } :=
          MonitorOk.pass (h.forget bound) bound here (by rintro ⟨⟩)
        exact passed.forget bound
      · simp only [Option.toList_none, List.append_nil]
        have follows := h.follows session bound closes.2.1 (not_not.1 ended)
        have mine : state.session = some session :=
          follows.closes ordered ids announced here closes.2.2 (by unfold Event.closes; simp [closes.1])
        exact h.ends ordered ids bound follows here closes.1 mine
      · simp only [Option.toList_none, List.append_nil]
        refine h.pass bound here fun current _ later k place => ?_
        -- A stopping state has no place.
        have active : state.active = true := by
          by_contra inactive
          exact closes ⟨by simpa using inactive, current, later⟩
        have stopping : state.stopping = true := by
          by_contra going
          exact begins ⟨active, by simpa using going, later⟩
        rw [place_of_stopping active stopping] at place
        cases place

theorem MonitorOk.bind (unbound : m.sessionId = none) : MonitorOk s (m.bind session) := by
  obtain ⟨position, current, returned, loopState, ending⟩ := h.unbound unbound
  have selected : MonitorOk s { m with sessionId := some session } :=
    { h with
      unbound := by rintro ⟨⟩
      follows := fun _ _ current' => by cases current.symm.trans current'
      reported := fun _ _ _ is => by cases loopState.symm.trans is
      returned := fun _ _ state mem => by
        rw [returned] at mem
        cases mem
      ending := fun _ _ _ is => by cases ending.symm.trans is }
  unfold ProgramTaskingMonitor.bind
  dsimp only
  split
  · rename_i initial snapshot
    unfold ProgramTaskingMonitor.observe
    dsimp only
    rw [if_neg (by rw [ending]; exact fun ne => ne rfl)]
    cases is : initial.taskingState.loopState with
    | none =>
      dsimp only
      rw [if_neg (by rw [current]; rintro ⟨⟨⟩, -⟩)]
      exact selected
    | some tasking =>
      obtain ⟨mem, passed⟩ := h.initial initial snapshot tasking is
      have identified : MonitorOk s { m with
          sessionId := some session, current := some tasking.sessionId, currentAfter := initial.taskingState.eventId } :=
        { selected with
          unbound := by rintro ⟨⟩
          follows := fun session' _ current' _ => by
            refine ⟨⟨initial.taskingState, tasking, mem, is, Option.some.inj current', rfl⟩, fun e before _ k place => ?_⟩
            dsimp only at before
            rw [position] at before
            have less := passed e before k place
            have same : tasking.sessionId = session' := Option.some.inj current'
            rw [same] at less
            exact less }
      dsimp only
      split_ifs with mine
      · exact identified.report rfl mine ⟨initial.taskingState, mem, is⟩
      · exact identified
  · exact selected

end

/-! ## The system -/

/-- The invariant of the whole system. -/
structure ObservedOk (s : Observed) : Prop where
  sound : s.impl.Sound
  ordered : s.impl.Ordered
  ids : IdsOrdered s.impl.entered
  monitors : Announced s.impl.stream → ∀ m ∈ s.monitors, MonitorOk s.impl m

theorem ObservedOk.setMonitor {s : Observed} {i : ℕ} {m m' : ProgramTaskingMonitor} (h : ObservedOk s)
    (found : s.monitors[i]? = some m)
    (ok : Announced s.impl.stream → MonitorOk s.impl m → MonitorOk s.impl m') : ObservedOk (s.setMonitor i m') :=
  { h with
    monitors := fun announced m'' mem => by
      rcases List.mem_or_eq_of_mem_set mem with mem | rfl
      · exact h.monitors announced m'' mem
      · exact ok announced (h.monitors announced m (mem_of_found found)) }

theorem ObservedOk.step {s s' : Observed} {a : ObservedLabel} (h : ObservedOk s) (ok : s.IdsIncrease a)
    (hs : s.step a = some s') : ObservedOk s' := by
  cases a with
  | program label =>
    obtain ⟨impl, stepped, ⟨⟩⟩ := Option.bind_eq_some_iff.1 hs
    obtain ⟨grows, entered⟩ := ProgramImpl.step_grows h.sound stepped
    refine ⟨h.sound.step stepped, h.ordered.step h.sound stepped, ?_, ?_⟩
    · rcases entered with same | ⟨event, rfl, more⟩
      · exact same ▸ h.ids
      · show IdsOrdered impl.entered
        rw [more]
        refine List.pairwise_append.2 ⟨h.ids, List.pairwise_singleton .., ?_⟩
        intro e mem last is
        rw [List.mem_singleton.1 is]
        exact ok e mem
    · exact fun announced m mem => (h.monitors (announced.prefix_of grows.1) m mem).grows grows
  | subscribe since =>
    obtain ⟨le, ⟨⟩⟩ := Option.ite_none_right_eq_some.1 hs
    exact { h with
      monitors := fun announced m mem => by
        rcases mem_snoc.1 mem with mem | mem
        · exact h.monitors announced m mem
        · rw [mem]
          exact monitorOk_subscribe le }
  | read i =>
    obtain ⟨m, found, hs⟩ := Option.bind_eq_some_iff.1 hs
    obtain ⟨⟨unbound, -⟩, ⟨⟩⟩ := Option.ite_none_right_eq_some.1 hs
    exact h.setMonitor found fun _ before => before.read h.ordered unbound
  | bind i session =>
    obtain ⟨m, found, hs⟩ := Option.bind_eq_some_iff.1 hs
    obtain ⟨unbound, ⟨⟩⟩ := Option.ite_none_right_eq_some.1 hs
    exact h.setMonitor found fun _ before => before.bind unbound
  | next i =>
    obtain ⟨m, found, hs⟩ := Option.bind_eq_some_iff.1 hs
    obtain ⟨session, bound, hs⟩ := Option.bind_eq_some_iff.1 hs
    obtain ⟨event, here, ⟨⟩⟩ := Option.bind_eq_some_iff.1 hs
    exact h.setMonitor found fun announced before => before.next h.ordered h.ids announced bound here

theorem observedOk_start : ObservedOk {} :=
  ⟨ProgramImpl.sound_start, ProgramImpl.ordered_start, .nil, fun _ _ mem => by cases mem⟩

theorem MonitorOk.attributes (h : MonitorOk s m) (ordered : s.Ordered) (bound : m.sessionId = some session) :
    Attributed s.stream session m where
  returned := h.returned session bound
  fault fault is := by
    obtain ⟨reported, faulty⟩ := fault_eq_some.1 is
    obtain ⟨mine, state, mem, is⟩ := h.reported session bound fault reported
    refine ⟨mine, fun state' loopState' mem' is' mine' faulty' => ?_⟩
    exact fault_unique ordered (ordered.entered_of_stream mem') is' faulty' mem is faulty (mine'.trans mine.symm)
  retained := h.retained
  ending := h.ending session bound

/-! ## Nothing is taken back -/

open ProgramTaskingMonitor

theorem ProgramTaskingMonitor.Keeps.refl : Keeps m m :=
  ⟨fun _ => rfl, fun _ => rfl, fun _ => rfl⟩

theorem ProgramTaskingMonitor.Keeps.trans {m' m'' : ProgramTaskingMonitor} (h : Keeps m m') (h' : Keeps m' m'') : Keeps m m'' where
  sessionId known := by
    have same := h.sessionId known
    exact (h'.sessionId (same ▸ known)).trans same
  fault known := by
    have same := h.fault known
    exact (h'.fault (same ▸ known)).trans same
  ending known := by
    have same := h.ending known
    exact (h'.ending (same ▸ known)).trans same

theorem report_keeps {state : TaskingLoopState} :
    Keeps m (m.report state executionState) where
  sessionId _ := rfl
  fault known := by
    show (if m.fault = none then some state else m.loopState).filter _ = _
    rw [if_neg known]
    rfl
  ending _ := rfl

theorem observe_keeps : Keeps m (m.observe session event).1 := by
  unfold ProgramTaskingMonitor.observe
  split_ifs with ended
  · exact .refl
  · split
    · rename_i state
      split
      · rename_i loopState _
        have identified : Keeps m { m with current := some loopState.sessionId, currentAfter := state.eventId } :=
          ⟨fun _ => rfl, fun _ => rfl, fun _ => rfl⟩
        dsimp only
        split_ifs
        · exact identified.trans report_keeps
        · exact identified
      · split_ifs
        · exact ⟨fun _ => rfl, fun _ => rfl, fun _ => rfl⟩
        · exact .refl
    · split_ifs
      · exact ⟨fun _ => rfl, fun _ => rfl, fun _ => rfl⟩
      · exact ⟨fun _ => rfl, fun _ => rfl, fun known => absurd known ended⟩
      · exact .refl
    · exact .refl

theorem bind_keeps (unbound : m.sessionId = none) : Keeps m (m.bind session) := by
  have selected : Keeps m { m with sessionId := some session } :=
    ⟨fun known => absurd unbound known, fun _ => rfl, fun _ => rfl⟩
  unfold ProgramTaskingMonitor.bind
  dsimp only
  split
  · exact selected.trans observe_keeps
  · exact selected

theorem next_keeps : Keeps m (m.next session event) := by
  unfold ProgramTaskingMonitor.next
  have moved : Keeps m { m with position := m.position + 1 } := ⟨fun _ => rfl, fun _ => rfl, fun _ => rfl⟩
  have observed : Keeps m ({ m with position := m.position + 1 }.observe session event).1 := moved.trans observe_keeps
  exact ⟨observed.sessionId, observed.fault, observed.ending⟩

theorem step_keeps {s s' : Observed} {a : ObservedLabel} (hs : s.step a = some s') {k : ℕ}
    (here : s.monitors[k]? = some m) : ∃ m', s'.monitors[k]? = some m' ∧ Keeps m m' := by
  have set : ∀ (i : ℕ) n n', s.monitors[i]? = some n → Keeps n n' →
      ∃ m', (s.setMonitor i n').monitors[k]? = some m' ∧ Keeps m m' := by
    intro i n n' found keeps
    by_cases same : k = i
    · subst same
      rw [here] at found
      cases found
      exact ⟨n', set_found here, keeps⟩
    · exact ⟨m, found_set_of_ne here same, .refl⟩
  cases a with
  | program label =>
    obtain ⟨impl, -, ⟨⟩⟩ := Option.bind_eq_some_iff.1 hs
    exact ⟨m, here, .refl⟩
  | subscribe since =>
    obtain ⟨-, ⟨⟩⟩ := Option.ite_none_right_eq_some.1 hs
    exact ⟨m, found_snoc_of_found here, .refl⟩
  | read i =>
    obtain ⟨n, found, hs⟩ := Option.bind_eq_some_iff.1 hs
    obtain ⟨-, ⟨⟩⟩ := Option.ite_none_right_eq_some.1 hs
    exact set i n _ found ⟨fun _ => rfl, fun _ => rfl, fun _ => rfl⟩
  | bind i session =>
    obtain ⟨n, found, hs⟩ := Option.bind_eq_some_iff.1 hs
    obtain ⟨unbound, ⟨⟩⟩ := Option.ite_none_right_eq_some.1 hs
    exact set i n _ found (bind_keeps unbound)
  | next i =>
    obtain ⟨n, found, hs⟩ := Option.bind_eq_some_iff.1 hs
    obtain ⟨session, -, hs⟩ := Option.bind_eq_some_iff.1 hs
    obtain ⟨event, -, ⟨⟩⟩ := Option.bind_eq_some_iff.1 hs
    exact set i n _ found next_keeps

theorem run_keeps {s t : Observed} (run : Reaches Observed.step always s t) {k : ℕ}
    (here : s.monitors[k]? = some m) : ∃ m', t.monitors[k]? = some m' ∧ Keeps m m' := by
  induction run with
  | refl => exact ⟨m, here, .refl⟩
  | tail _ _ hs ih =>
    obtain ⟨m', there, keeps⟩ := ih
    obtain ⟨m'', after, keeps'⟩ := step_keeps hs there
    exact ⟨m'', after, keeps.trans keeps'⟩

/-- **Session attribution.** In every run with increasing identifiers, across sessions and restarts, a bound monitor
says only what its session has published, if each session is announced on the stream; and it takes nothing back. -/
theorem attributed {s : Observed} (run : Reaches Observed.step Observed.IdsIncrease {} s)
    (announced : Announced s.impl.stream) :
    (∀ m ∈ s.monitors, ∀ session, m.sessionId = some session → Attributed s.impl.stream session m) ∧
      ∀ t, Reaches Observed.step always s t → ∀ (i : ℕ) m, s.monitors[i]? = some m →
        ∃ m', t.monitors[i]? = some m' ∧ Keeps m m' := by
  have ok := run.invariant observedOk_start fun _ _ _ before increasing hs => before.step increasing hs
  constructor
  · intro m mem session bound
    exact (ok.monitors announced m mem).attributes ok.ordered bound
  · intro t later i m here
    exact run_keeps later here

/-! ## Two runs -/

/-- Update and publish under the given identifiers. -/
def updates (ids : List ℕ) : List ObservedLabel :=
  ids.flatMap fun eventId => [.program (.enter eventId), .program (.emit true false), .program (.put true false)]

/-- A program is enabled. -/
def enabling : List ObservedLabel :=
  [.program (.init true true false), .program (.setEnableState ⟨true, some "dome"⟩)] ++ updates [1] ++
    [.program .hooksReturn, .subscribe 1]

/-- A session is followed over a restart, until the next session has reported a fault. -/
def followed : List ObservedLabel :=
  enabling ++ [.program (.start [])] ++ updates [2] ++ [.program (.report 0)] ++ updates [3] ++
    [.program .startReturns, .program (.report 0), .program (.enter 4), .program (.emit true false), .read 0,
      .program .crash, .program (.init true true false)] ++
    updates [5, 6] ++ [.program (.start [])] ++ updates [7] ++
    [.program (.fail 1 .program "error" none), .program (.report 1)] ++ updates [8] ++ [.bind 0 0] ++
    List.replicate 5 (.next 0)

set_option maxRecDepth 100000 in
theorem attributed_followed : ∃ s m, exec Observed.step {} followed = some s ∧ s.monitors[0]? = some m ∧
    m.returned.length = 3 ∧ m.ending ≠ none ∧ Attributed s.impl.stream 0 m ∧
    ∀ t, Reaches Observed.step always s t → ∃ m', t.monitors[0]? = some m' ∧ Keeps m m' := by
  have ends : (exec Observed.step {} followed).isSome = true := by decide +kernel
  have facts : ((exec Observed.step {} followed).bind fun s => s.monitors[0]?.map fun m =>
      (m.sessionId, m.returned.length, m.ending.isSome, decide (Announced s.impl.stream))) =
        some (some 0, 3, true, true) := by decide +kernel
  obtain ⟨s, run⟩ := Option.isSome_iff_exists.1 ends
  rw [run] at facts
  obtain ⟨m, found, facts⟩ := Option.map_eq_some_iff.1 facts
  simp only [Prod.mk.injEq, decide_eq_true_eq] at facts
  obtain ⟨bound, returned, ended, announced⟩ := facts
  have reaches : Reaches Observed.step Observed.IdsIncrease {} s := reaches_of_exec run (by decide +kernel)
  have promised := attributed reaches announced
  exact ⟨s, m, run, found, returned, Option.isSome_iff_ne_none.1 ended,
    promised.1 m (List.mem_of_getElem? found) 0 bound, fun t later => promised.2 t later 0 m found⟩

/-- Nothing of the second session is published but its end. -/
def misled : List ObservedLabel :=
  enabling ++
    -- The first session's active state and report are published, and not stored.
    [.program (.start []), .program (.enter 2), .program (.emit true false), .program (.put false true),
      .program (.report 0), .program (.enter 3), .program (.emit true false), .program .crash,
      .program (.init true true false), .program (.start [])] ++
    [.program (.enter 4), .program (.emit false true), .program (.report 1), .program (.enter 5),
      .program (.emit false true), .program (.producerExits 1), .program (.finalize 1 false), .program (.clear 1)] ++
    updates [6, 7] ++ [.bind 0 0, .next 0, .next 0, .next 0, .next 0]

set_option maxRecDepth 100000 in
/-- Without an announcement, the end of a later session is taken for the end of the session before. -/
theorem misattributed : ∃ s m, Reaches Observed.step Observed.IdsIncrease {} s ∧ m ∈ s.monitors ∧
    m.sessionId = some 0 ∧ (∃ state, m.ending = some state ∧ state.session = some 1) ∧ ¬Attributed s.impl.stream 0 m := by
  have ends : (exec Observed.step {} misled).isSome = true := by decide +kernel
  have facts : ((exec Observed.step {} misled).bind fun s => s.monitors[0]?.map fun m =>
      (m.sessionId, m.ending.map (·.session))) = some (some 0, some (some 1)) := by decide +kernel
  obtain ⟨s, run⟩ := Option.isSome_iff_exists.1 ends
  rw [run] at facts
  obtain ⟨m, found, facts⟩ := Option.map_eq_some_iff.1 facts
  simp only [Prod.mk.injEq] at facts
  obtain ⟨bound, ended⟩ := facts
  obtain ⟨state, ending, other⟩ := Option.map_eq_some_iff.1 ended
  refine ⟨s, m, reaches_of_exec run (by decide +kernel), List.mem_of_getElem? found, bound, ⟨state, ending, other⟩, ?_⟩
  intro promised
  obtain ⟨-, mine, -⟩ := promised.ending state ending
  cases mine.symm.trans other

end SensorKit.Core.Tasking
