import Mathlib.Tactic.Linarith
import SensorKit.Auto.Supervisor

/-!
# State supervision counts departures

What the log of a supervisor can hold, whatever the order in which events, reads, expectation changes and clock
readings reach it. The state that is compared never goes back to an older event, subscribers see ever newer
ones, and a failure stands only for a departure from the standing expectation.
-/

namespace SensorKit.Auto

open Lib SensorKit.Core

variable {K : Type} {grace now t : ℚ} {log : List (Entry K)} {event newest : StateEvent K}
  {e : InternalControllerState}

/-! ## Reading a log -/

/-- The expectation that an entry leaves, and since when. A failure leaves UNKNOWN. -/
def Entry.expectation : Entry K → Option (InternalControllerState × ℚ)
  | .established expected time => some (expected, time)
  | .failure time => some (.unknown, time)
  | .processed _ _ => none

/-- The state that an entry compares, and when. -/
def Entry.compared : Entry K → Option (StateEvent K × ℚ)
  | .processed event time => some (event, time)
  | .established _ _ => none
  | .failure _ => none

/-- The expectation that stands at the end of a log. -/
def standing (log : List (Entry K)) : Option (InternalControllerState × ℚ) :=
  (log.filterMap Entry.expectation).getLast?

/-- The states compared, oldest first. -/
def compared (log : List (Entry K)) : List (StateEvent K × ℚ) :=
  log.filterMap Entry.compared

@[simp] theorem standing_established :
    standing (log ++ [.established e t]) = some (e, t) := by
  simp [standing, Entry.expectation]

@[simp] theorem standing_failure : standing (log ++ [.failure t]) = some (.unknown, t) := by
  simp [standing, Entry.expectation]

@[simp] theorem standing_processed : standing (log ++ [.processed event t]) = standing log := by
  simp [standing, Entry.expectation]

@[simp] theorem compared_established : compared (log ++ [.established e t]) = compared log := by
  simp [compared, Entry.compared]

@[simp] theorem compared_failure : compared (log ++ [.failure t]) = compared log := by
  simp [compared, Entry.compared]

@[simp] theorem compared_processed : compared (log ++ [.processed event t]) = compared log ++ [(event, t)] := by
  simp [compared, Entry.compared]

/-- A departure at a time from the expectation that a log ends with. -/
def Departed (grace : ℚ) (log : List (Entry K)) (t : ℚ) : Prop :=
  ∃ expected since newest at_, standing log = some (expected, since) ∧ (compared log).getLast? = some (newest, at_) ∧
    newest.current ≠ expected ∧
      (expected ∈ settledStates ∨
        expected = .transition ∧ since + grace ≤ t ∧
          ∀ c ∈ compared log, c.1.current = .transition → c.2 + grace ≤ t)

/-- An entry is right if it is a failure only upon a departure. -/
def Entry.Right (grace : ℚ) (log : List (Entry K)) : Entry K → Prop
  | .failure time => Departed grace log time
  | .established _ _ => True
  | .processed _ _ => True

/-- A log up to a time of the event loop. -/
structure History (grace now : ℚ) (log : List (Entry K)) : Prop where
  since_le : ∀ expected since, standing log = some (expected, since) → since ≤ now
  compared_le : ∀ c ∈ compared log, c.2 ≤ now
  ordered : (compared log).Pairwise fun c d => c.1.eventId ≤ d.1.eventId
  traced : Traced (Entry.Right grace) log

namespace History

theorem nil : History grace now ([] : List (Entry K)) where
  since_le := by
    intro _ _ stands
    simp [standing] at stands
  compared_le := by
    intro c mem
    simp [compared] at mem
  ordered := .nil
  traced := traced_nil

variable (h : History grace now log)
include h

theorem elapse {d : ℚ} (nonneg : 0 ≤ d) : History grace (now + d) log where
  since_le := by
    intro expected since stands
    have before := h.since_le expected since stands
    linarith
  compared_le := by
    intro c mem
    have before := h.compared_le c mem
    linarith
  ordered := h.ordered
  traced := h.traced

theorem established (expected : InternalControllerState) : History grace now (log ++ [.established expected now]) where
  since_le := by
    intro e since stands
    rw [standing_established] at stands
    cases stands
    exact le_rfl
  compared_le := by
    rw [compared_established]
    exact h.compared_le
  ordered := by
    rw [compared_established]
    exact h.ordered
  traced := h.traced.snoc trivial

theorem processed (latest : ∀ c ∈ compared log, c.1.eventId ≤ newest.eventId) :
    History grace now (log ++ [.processed newest now]) where
  since_le := by
    rw [standing_processed]
    exact h.since_le
  compared_le := by
    intro c mem
    rw [compared_processed, List.mem_append, List.mem_singleton] at mem
    rcases mem with mem | rfl
    · exact h.compared_le c mem
    · exact le_rfl
  ordered := by
    rw [compared_processed, List.pairwise_append]
    refine ⟨h.ordered, List.pairwise_singleton _ _, ?_⟩
    intro c mem d last
    rw [List.mem_singleton] at last
    rw [last]
    exact latest c mem
  traced := h.traced.snoc trivial

theorem failure (departed : Departed grace log now) : History grace now (log ++ [.failure now]) where
  since_le := by
    intro e since stands
    rw [standing_failure] at stands
    cases stands
    exact le_rfl
  compared_le := by
    rw [compared_failure]
    exact h.compared_le
  ordered := by
    rw [compared_failure]
    exact h.ordered
  traced := h.traced.snoc departed

end History

/-! ## What every supervisor keeps -/

/-- What a subscriber has seen and what its queue holds are ever newer events, up to the newest processed. -/
structure Subscriber.Ascending (observed : Option (StateEvent K)) (subscriber : Subscriber K) : Prop where
  ordered : (subscriber.seen ++ subscriber.queued.toList).Pairwise fun a b => a.eventId < b.eventId
  upTo : ∀ event ∈ subscriber.seen ++ subscriber.queued.toList, ∃ newest ∈ observed, event.eventId ≤ newest.eventId

/-- A pending deadline leaves a whole grace period after the expectation and after every TRANSITION compared. -/
def Timely (grace : ℚ) (log : List (Entry K)) (deadline : ℚ) : Prop :=
  ∃ since, standing log = some (.transition, since) ∧ since + grace ≤ deadline ∧
    ∀ c ∈ compared log, c.1.current = .transition → c.2 + grace ≤ deadline

/-- Expectations that a supervisor can have. -/
def Expectable (expected : InternalControllerState) : Prop :=
  expected ∈ settledStates ∨ expected = .transition ∨ expected = .unknown

/-- What holds of a supervisor between two segments. -/
structure ControllerStateSupervisor.Sound (grace : ℚ) (s : ControllerStateSupervisor K) : Prop where
  grace_eq : s.transitionGrace = grace
  history : History grace s.now s.log
  expected_eq : s.expected = (standing s.log).map Prod.fst
  expectable : ∀ e ∈ s.expected, Expectable e
  observed_eq : s.observedState = (compared s.log).getLast?.map Prod.fst
  timely : ∀ d ∈ s.deadline, Timely grace s.log d
  ascending : ∀ subscriber ∈ s.subscribers, subscriber.Ascending s.observedState

namespace ControllerStateSupervisor.Sound

variable {s : ControllerStateSupervisor K} (h : s.Sound grace)
include h

/-- The expectation stands in the log. -/
theorem stands (known : s.expected = some e) : ∃ since, standing s.log = some (e, since) := by
  rw [h.expected_eq, Option.map_eq_some_iff] at known
  obtain ⟨⟨_, since⟩, stands, rfl⟩ := known
  exact ⟨since, stands⟩

/-- An expectation other than TRANSITION and UNKNOWN is of a settled state. -/
theorem settled (known : s.expected = some e) (transition : e ≠ .transition) (unknown : e ≠ .unknown) :
    e ∈ settledStates := by
  rcases h.expectable e known with settled | rfl | rfl
  · exact settled
  · exact absurd rfl transition
  · exact absurd rfl unknown

/-- Deadlines go with a TRANSITION expectation. -/
theorem deadline_eq_none (other : s.expected ≠ some .transition) : s.deadline = none := by
  cases pending : s.deadline with
  | none => rfl
  | some d =>
    obtain ⟨since, stands, -⟩ := h.timely d pending
    exact absurd (by rw [h.expected_eq, stands]; rfl) other

theorem withDeadline {deadline : Option ℚ} (timely : ∀ d ∈ deadline, Timely grace s.log d) :
    ({ s with deadline } : ControllerStateSupervisor K).Sound grace where
  grace_eq := h.grace_eq
  history := h.history
  expected_eq := h.expected_eq
  expectable := h.expectable
  observed_eq := h.observed_eq
  timely := timely
  ascending := h.ascending

theorem established (expectable : Expectable e) :
    ({ s with expected := some e, deadline := none, log := s.log ++ [.established e s.now] } :
      ControllerStateSupervisor K).Sound grace where
  grace_eq := h.grace_eq
  history := h.history.established e
  expected_eq := by
    dsimp only
    rw [standing_established]
    rfl
  expectable := by
    intro e' expected
    cases expected
    exact expectable
  observed_eq := by
    dsimp only
    rw [compared_established]
    exact h.observed_eq
  timely := by
    intro d pending
    cases pending
  ascending := h.ascending

theorem expect (expectable : Expectable e) : (s.expect e).Sound grace :=
  ⟨h.grace_eq, (h.established expectable).history, (h.established expectable).expected_eq,
    (h.established expectable).expectable, (h.established expectable).observed_eq,
    (h.established expectable).timely, h.ascending⟩

theorem invalidate : s.invalidate.Sound grace :=
  h.expect (.inr (.inr rfl))

theorem fail (departure : Departure) (departed : Departed grace s.log s.now) : (s.fail departure).Sound grace where
  grace_eq := h.grace_eq
  history := h.history.failure departed
  expected_eq := by
    unfold ControllerStateSupervisor.fail
    dsimp only
    rw [standing_failure]
    rfl
  expectable := by
    intro e' expected
    cases expected
    exact .inr (.inr rfl)
  observed_eq := by
    unfold ControllerStateSupervisor.fail
    dsimp only
    rw [compared_failure]
    exact h.observed_eq
  timely := by
    intro d pending
    cases pending
  ascending := h.ascending

/-- The newest state takes its place in the log. -/
theorem observed (latest : ∀ c ∈ compared s.log, c.1.eventId ≤ newest.eventId) :
    ({ s with observedState := some newest, deadline := none, log := s.log ++ [.processed newest s.now] } :
      ControllerStateSupervisor K).Sound grace where
  grace_eq := h.grace_eq
  history := h.history.processed latest
  expected_eq := by
    dsimp only
    rw [standing_processed]
    exact h.expected_eq
  expectable := h.expectable
  observed_eq := by
    dsimp only
    rw [compared_processed, List.getLast?_concat]
    rfl
  timely := by
    intro d pending
    cases pending
  ascending := by
    intro subscriber mem
    refine ⟨(h.ascending subscriber mem).ordered, ?_⟩
    intro event there
    obtain ⟨before, observed, le⟩ := (h.ascending subscriber mem).upTo event there
    rw [h.observed_eq, Option.mem_def, Option.map_eq_some_iff] at observed
    obtain ⟨c, last, rfl⟩ := observed
    exact ⟨newest, rfl, le.trans (latest c (List.mem_of_getLast? last))⟩

end ControllerStateSupervisor.Sound

namespace ControllerStateSupervisor

variable {s : ControllerStateSupervisor K}

/-- A deadline that is kept up to the comparison with a state. -/
structure Pending (grace : ℚ) (s : ControllerStateSupervisor K) (newest : StateEvent K) (deadline : ℚ) : Prop where
  expected : s.expected = some .transition
  timely : newest.current ≠ .transition → Timely grace s.log deadline

theorem Sound.without_pending (h : ({ s with deadline := none } : ControllerStateSupervisor K).Sound grace)
    (pending : ∀ d ∈ s.deadline, s.Pending grace newest d) (other : s.expected ≠ some .transition) :
    s.Sound grace := by
  have unset : s.deadline = none := Option.eq_none_iff_forall_not_mem.2 fun d mem => other (pending d mem).expected
  have same : ({ s with deadline := none } : ControllerStateSupervisor K) = s := by rw [← unset]
  rwa [same] at h

section

variable (h : ({ s with deadline := none } : ControllerStateSupervisor K).Sound grace)
  (last : (compared s.log).getLast? = some (newest, t)) (pending : ∀ d ∈ s.deadline, s.Pending grace newest d)
include h last pending

/-- A wait for TRANSITION fails only after a whole grace period. -/
theorem Sound.await (expected : s.expected = some .transition) :
    (s.await newest.current (newest.current = .transition)).Sound grace := by
  unfold ControllerStateSupervisor.await
  split_ifs with matched
  · exact h
  have unmatched : newest.current ≠ .transition := by simpa using matched
  obtain ⟨since, stands⟩ := h.stands expected
  split
  next =>
    -- The grace period starts with this mismatch.
    refine h.withDeadline ?_
    intro d started
    cases started
    refine ⟨since, stands, ?_, ?_⟩
    · have before := h.history.since_le _ since stands
      rw [show s.transitionGrace = grace from h.grace_eq]
      exact add_le_add_left before grace
    · intro c mem _
      have before := h.history.compared_le c mem
      rw [show s.transitionGrace = grace from h.grace_eq]
      exact add_le_add_left before grace
  next d set =>
    have timely := (pending d set).timely unmatched
    split_ifs with due
    · obtain ⟨since', stands', room, rooms⟩ := timely
      refine h.fail _ ⟨.transition, since', newest, t, stands', last, unmatched, .inr ⟨rfl, room.trans due, ?_⟩⟩
      intro c mem transition
      exact (rooms c mem transition).trans due
    · refine h.withDeadline ?_
      intro d' mem
      obtain rfl : d = d' := Option.some.inj (set.symm.trans mem)
      exact timely

/-- A comparison with the newest state keeps what holds of a supervisor. -/
theorem Sound.evaluate : (s.evaluate newest.state).Sound grace := by
  unfold ControllerStateSupervisor.evaluate
  split
  next unset =>
    split_ifs with adopted
    · have whole := h.without_pending pending (by simp [unset])
      refine (whole.established (.inl adopted.1)).withDeadline ?_
      intro d set
      have none_set := whole.deadline_eq_none (by simp [unset])
      simp [none_set] at set
    · exact h.without_pending pending (by simp [unset])
  next unknown => exact h.without_pending pending (by simp [unknown])
  next transition => exact h.await last pending transition
  next expected unknown transition known =>
    split_ifs with left
    · obtain ⟨since, stands⟩ := h.stands known
      exact h.fail _ ⟨expected, since, newest, t, stands, last, left, .inl (h.settled known transition unknown)⟩
    · exact h

end

@[simp] theorem evaluate_observedState (actual : ControllerOperatingState K) :
    (s.evaluate actual).observedState = s.observedState := by
  unfold ControllerStateSupervisor.evaluate ControllerStateSupervisor.await
  repeat' split
  all_goals rfl

@[simp] theorem evaluate_subscribers (actual : ControllerOperatingState K) :
    (s.evaluate actual).subscribers = s.subscribers := by
  unfold ControllerStateSupervisor.evaluate ControllerStateSupervisor.await
  repeat' split
  all_goals rfl

@[simp] theorem compare_observedState : (s.compare newest).observedState = some newest := by
  unfold ControllerStateSupervisor.compare
  rw [evaluate_observedState]

@[simp] theorem compare_subscribers : (s.compare newest).subscribers = s.subscribers := by
  unfold ControllerStateSupervisor.compare
  rw [evaluate_subscribers]

namespace Sound

variable (h : s.Sound grace)
include h

theorem compare (latest : ∀ c ∈ compared s.log, c.1.eventId ≤ newest.eventId) : (s.compare newest).Sound grace := by
  unfold ControllerStateSupervisor.compare
  refine Sound.evaluate (t := s.now) (h.observed latest) ?_ ?_
  · rw [compared_processed, List.getLast?_concat]
  · intro d set
    obtain ⟨since, stands, room, rooms⟩ := h.timely d set
    refine ⟨by rw [h.expected_eq, stands]; rfl, ?_⟩
    intro unmatched
    refine ⟨since, by rw [standing_processed, stands], room, ?_⟩
    intro c mem transition
    rw [compared_processed, List.mem_append, List.mem_singleton] at mem
    rcases mem with mem | rfl
    · exact rooms c mem transition
    · exact absurd transition unmatched

/-- The newest processed state is no older than any that was compared. -/
theorem latest (observed : s.observedState = some newest) : ∀ c ∈ compared s.log, c.1.eventId ≤ newest.eventId := by
  intro c mem
  rw [h.observed_eq, Option.map_eq_some_iff] at observed
  obtain ⟨last, is_last, rfl⟩ := observed
  obtain ⟨before, split⟩ := List.getLast?_eq_some_iff.1 is_last
  have ordered := h.history.ordered
  rw [split, List.pairwise_append] at ordered
  rw [split, List.mem_append, List.mem_singleton] at mem
  rcases mem with mem | rfl
  · exact ordered.2.2 c mem last (List.mem_singleton.2 rfl)
  · exact le_rfl

/-- A newer event is newer than all that was compared. -/
theorem newest_of_newer (newer : s.newer event = true) : ∀ c ∈ compared s.log, c.1.eventId ≤ event.eventId := by
  unfold ControllerStateSupervisor.newer at newer
  split at newer
  next unset =>
    rw [h.observed_eq, Option.map_eq_none_iff, List.getLast?_eq_none_iff] at unset
    intro c mem
    simp [unset] at mem
  next current observed =>
    have less : current.eventId < event.eventId := by simpa using newer
    intro c mem
    exact (h.latest observed c mem).trans less.le

/-- A queue that takes a newer event keeps its order. -/
theorem ascending_put (newer : s.newer event = true) {subscriber : Subscriber K} (mem : subscriber ∈ s.subscribers) :
    (subscriber.put event).Ascending (some event) := by
  obtain ⟨ordered, upTo⟩ := h.ascending subscriber mem
  have older : ∀ seen ∈ subscriber.seen ++ subscriber.queued.toList, seen.eventId < event.eventId := by
    intro seen there
    obtain ⟨newest, observed, le⟩ := upTo seen there
    unfold ControllerStateSupervisor.newer at newer
    rw [Option.mem_def.1 observed] at newer
    exact lt_of_le_of_lt le (by simpa using newer)
  unfold Subscriber.put
  split_ifs with subscribed
  · refine ⟨?_, ?_⟩
    · refine List.pairwise_append.2 ⟨(List.pairwise_append.1 ordered).1, List.pairwise_singleton _ _, ?_⟩
      intro seen there last is_last
      obtain rfl := List.mem_singleton.1 is_last
      exact older seen (List.mem_append_left _ there)
    · intro seen there
      refine ⟨event, rfl, ?_⟩
      rcases mem_snoc.1 there with there | rfl
      · exact (older seen (List.mem_append_left _ there)).le
      · exact le_rfl
  · refine ⟨ordered, ?_⟩
    intro seen there
    exact ⟨event, rfl, (older seen there).le⟩

theorem processState (state : Option (StateEvent K)) : (s.processState state).Sound grace := by
  unfold ControllerStateSupervisor.processState
  cases accepted : state.filter s.newer with
  | none =>
    simp only [Option.none_or]
    split
    next => exact h
    next current observed => exact h.compare (h.latest observed)
  | some event =>
    have newer : s.newer event = true := (Option.filter_eq_some_iff.1 accepted).2
    have kept := h.compare (h.newest_of_newer newer)
    simp only [Option.some_or]
    refine ⟨kept.grace_eq, kept.history, kept.expected_eq, kept.expectable, kept.observed_eq, kept.timely, ?_⟩
    intro subscriber mem
    obtain ⟨before, there, rfl⟩ := List.mem_map.1 mem
    rw [compare_subscribers] at there
    have put := h.ascending_put newer there
    rwa [← compare_observedState (s := s)] at put

section Matching

variable [DecidableEq K] {context : K}

theorem verify {state : InternalControllerState} : (s.verify event state context).1.Sound grace := by
  have read := h.processState (some event)
  unfold ControllerStateSupervisor.verify
  dsimp only
  split_ifs
  · exact read
  · exact read.invalidate

theorem confirm {state : InternalControllerState} (settled : state ∈ settledStates) :
    (s.confirm event state context).Sound grace := by
  have verified : (s.verify event state context).1.Sound grace := h.verify
  unfold ControllerStateSupervisor.confirm
  dsimp only
  split_ifs
  · exact verified
  · exact verified.expect (.inl settled)

end Matching

theorem subscribed {i : ℕ} {change : Subscriber K → Subscriber K}
    (keeps : ∀ subscriber, subscriber.Ascending s.observedState → (change subscriber).Ascending s.observedState) :
    ({ s with subscribers := s.subscribers.modify i change } : ControllerStateSupervisor K).Sound grace := by
  refine ⟨h.grace_eq, h.history, h.expected_eq, h.expectable, h.observed_eq, h.timely, ?_⟩
  intro subscriber mem
  obtain ⟨j, at_⟩ := List.mem_iff_getElem?.1 mem
  rw [List.getElem?_modify, Option.map_eq_map, Option.map_eq_some_iff] at at_
  obtain ⟨before, there, rfl⟩ := at_
  have ascending := h.ascending before (List.mem_of_getElem? there)
  split_ifs
  · exact keeps before ascending
  · exact ascending

end Sound

/-- **One segment** keeps what holds of a supervisor. -/
theorem Sound.step [DecidableEq K] {s' : ControllerStateSupervisor K} {label : SupervisionLabel K}
    (h : s.Sound grace) (hs : s.step label = some s') : s'.Sound grace := by
  cases label with
  | elapse d =>
    obtain ⟨nonneg, ⟨⟩⟩ := Option.ite_none_right_eq_some.1 hs
    exact ⟨h.grace_eq, h.history.elapse nonneg, h.expected_eq, h.expectable, h.observed_eq, h.timely, h.ascending⟩
  | update event =>
    obtain ⟨-, ⟨⟩⟩ := Option.ite_none_left_eq_some.1 hs
    exact h.processState _
  | wake =>
    obtain ⟨-, ⟨⟩⟩ := Option.ite_none_left_eq_some.1 hs
    exact h.processState none
  | refresh snapshot =>
    obtain ⟨-, ⟨⟩⟩ := Option.ite_none_left_eq_some.1 hs
    exact h.processState _
  | verify snapshot state context =>
    obtain ⟨-, ⟨⟩⟩ := Option.ite_none_left_eq_some.1 hs
    exact h.verify
  | confirm snapshot state context =>
    obtain ⟨-, ⟨⟩⟩ := Option.ite_none_left_eq_some.1 hs
    exact h.confirm state.2
  | expectTransition =>
    cases hs
    exact h.expect (.inr (.inl rfl))
  | invalidate =>
    cases hs
    exact h.invalidate
  | subscribe =>
    obtain ⟨-, ⟨⟩⟩ := Option.ite_none_left_eq_some.1 hs
    refine ⟨h.grace_eq, h.history, h.expected_eq, h.expectable, h.observed_eq, h.timely, ?_⟩
    intro subscriber mem
    rcases mem_snoc.1 mem with mem | rfl
    · exact h.ascending subscriber mem
    · exact ⟨.nil, fun _ there => absurd there List.not_mem_nil⟩
  | receive i =>
    cases hs
    refine h.subscribed ?_
    intro subscriber ascending
    exact ⟨by simpa [Subscriber.take] using ascending.ordered, by simpa [Subscriber.take] using ascending.upTo⟩
  | unsubscribe i =>
    cases hs
    exact h.subscribed fun _ ascending => ⟨ascending.ordered, ascending.upTo⟩
  | react failureState =>
    cases hs
    exact ⟨h.grace_eq, h.history, h.expected_eq, h.expectable, h.observed_eq, h.timely, h.ascending⟩
  | close =>
    cases hs
    exact ⟨h.grace_eq, h.history, h.expected_eq, h.expectable, h.observed_eq, h.timely, h.ascending⟩

variable {entity : String} {positive : 0 < grace} {failureState : FailureState}

theorem sound_start : (start K entity grace positive failureState now).Sound grace where
  grace_eq := rfl
  history := .nil
  expected_eq := rfl
  expectable := by
    intro e expected
    cases expected
  observed_eq := rfl
  timely := by
    intro d set
    cases set
  ascending := by
    intro subscriber mem
    cases mem

/-- **Every run** keeps it. -/
theorem sound_of_run [DecidableEq K] (run : Reaches step always (start K entity grace positive failureState now) s) :
    s.Sound grace :=
  run.invariant sound_start fun _ _ _ h _ hs => h.step hs

end ControllerStateSupervisor

/-! ## Failures that count -/

/-- How many failures a log records. -/
def failuresIn (log : List (Entry K)) : ℕ :=
  log.countP fun entry => entry matches .failure _

/-- No more failures were counted than the log has gained. -/
def ControllerStateSupervisor.Counted (s s' : ControllerStateSupervisor K) : Prop :=
  s'.failureState.failures + failuresIn s.log ≤ s.failureState.failures + failuresIn s'.log

namespace ControllerStateSupervisor

variable {s s' s'' : ControllerStateSupervisor K}

section Matching

variable [DecidableEq K] {state : InternalControllerState} {context : K}

end Matching

end ControllerStateSupervisor

/-! ## Departures -/

/-- An expectation other than UNKNOWN was established. -/
theorem established_of_standing {since : ℚ} {before after : List (Entry K)}
    (stands : standing (before ++ .failure t :: after) = some (e, since)) (known : e ≠ .unknown) :
    .established e since ∈ after := by
  unfold standing at stands
  rw [List.filterMap_append, List.filterMap_cons_some (f := Entry.expectation) (b := (.unknown, t)) rfl,
    List.getLast?_append_cons] at stands
  have mem := List.mem_of_getLast? stands
  rcases List.mem_cons.1 mem with same | mem
  · cases same
    exact absurd rfl known
  obtain ⟨entry, there, reads⟩ := List.mem_filterMap.1 mem
  cases entry with
  | established expected time =>
    cases reads
    exact there
  | processed event time => cases reads
  | failure time =>
    cases reads
    exact absurd rfl known

/-- **State supervision counts departures.** In every run the state that is processed never goes back to an
older event and subscribers see strictly increasing ones. A failure is recorded only upon a departure from the
standing expectation, and between two failures an expectation is established. -/
theorem ControllerStateSupervisor.counts_departures [DecidableEq K] {entity : String} {positive : 0 < grace}
    {failureState : FailureState} {s : ControllerStateSupervisor K}
    (run : Reaches step always (start K entity grace positive failureState now) s) :
    s.expected = (standing s.log).map Prod.fst ∧ s.observedState = (compared s.log).getLast?.map Prod.fst ∧
      ((compared s.log).Pairwise fun c d => c.1.eventId ≤ d.1.eventId) ∧
      (∀ subscriber ∈ s.subscribers, subscriber.seen.Pairwise fun a b => a.eventId < b.eventId) ∧
      (∀ before t after, s.log = before ++ .failure t :: after → Departed grace before t) ∧
      ∀ before t between t' after, s.log = before ++ .failure t :: between ++ .failure t' :: after →
        ∃ expected since, .established expected since ∈ between := by
  have h := sound_of_run run
  refine ⟨h.expected_eq, h.observed_eq, h.history.ordered, ?_, ?_, ?_⟩
  · intro subscriber mem
    exact (List.pairwise_append.1 (h.ascending subscriber mem).ordered).1
  · intro before t after split
    have traced := h.history.traced
    rw [split] at traced
    exact traced.split
  · intro before t between t' after split
    have traced := h.history.traced
    rw [split] at traced
    obtain ⟨expected, since, newest, at_, stands, -, -, kind⟩ := traced.split
    refine ⟨expected, since, established_of_standing stands ?_⟩
    rintro rfl
    rcases kind with settled | ⟨transition, -⟩
    · simp [settledStates] at settled
    · cases transition

/-- A grace period that restarts after TRANSITION and then expires. -/
theorem ControllerStateSupervisor.counts_departures_example :
    ∃ log : List (Entry Unit), failuresIn log = 1 ∧ Departed 1 (log.take 5) 2 := by
  have run : ((exec step (start Unit "ctrl1" 1 (by decide) {} 0)
      [.expectTransition, .update ⟨1, .standby, none, none, ()⟩, .elapse 1, .update ⟨2, .transition, none, none, ()⟩,
        .update ⟨3, .standby, none, none, ()⟩, .elapse 1, .wake]).map fun s => s.log) =
      some [.established .transition 0, .processed ⟨1, .standby, none, none, ()⟩ 0,
        .processed ⟨2, .transition, none, none, ()⟩ 1, .processed ⟨3, .standby, none, none, ()⟩ 1,
        .processed ⟨3, .standby, none, none, ()⟩ 2, .failure 2] := by
    decide +kernel
  obtain ⟨s, ran, log⟩ := Option.map_eq_some_iff.1 run
  obtain ⟨-, -, -, -, departed, -⟩ := counts_departures (reaches_of_exec ran okAlong_always)
  exact ⟨s.log, by rw [log]; rfl, departed _ 2 [] (by rw [log]; rfl)⟩

end SensorKit.Auto
