import SensorKit.Core.EventState

/-!
# Snapshot and stream

A subscriber's queue is given each event of its type that is published after a position in the stream. The subscriber
takes what is later than its snapshot; so it loses an event just if the event was published before that position, and
the snapshot does not reflect it.
-/

namespace SensorKit.Core.EventState

open Lib

/-! ## What is delivered -/

section Delivery

variable {stream : List Event} {received : Option ℕ} {sub : Subscriber} {event : Event} {original : Option Event}

/-- The events of the subscriber's type that its queue is to be given. -/
def due (stream : List Event) (sub : Subscriber) : List Event :=
  (stream.drop sub.since).filter (·.eventModel = sub.eventType)

/-- Those that have been delivered. -/
def delivered (stream : List Event) (received : Option ℕ) (sub : Subscriber) : List Event :=
  due (stream.take (received.getD 0)) sub

/-- What a subscriber has been given. -/
structure Served (stream : List Event) (received : Option ℕ) (sub : Subscriber) : Prop where
  since_le : sub.since ≤ stream.length
  position : sub.registered = true → sub.since ≤ received.getD 0
  live : sub.phase = .reading ∨ sub.phase = .streaming → received.isSome = true
  idle : sub.phase = .subscribing ∨ sub.phase = .reading →
    sub.original = none ∧ sub.follower = { queue := delivered stream received sub }
  tracks : ∀ original, sub.original = some original → ∃ given, given <+: due stream sub ∧
    Follower.Tracks Event.eventId (originalId original) given sub.follower ∧
      (sub.phase = .streaming → given = delivered stream received sub)
  streaming : sub.phase = .streaming → sub.original.isSome = true

theorem due_grows {more : List Event} (grown : stream <+: more) : due stream sub <+: due more sub := by
  obtain ⟨rest, rfl⟩ := grown
  unfold due
  rw [List.drop_append]
  exact (List.prefix_append _ _).filter _

theorem delivered_first : delivered stream received sub <+: due stream sub :=
  due_grows (List.take_prefix _ _)

theorem delivered_all : delivered stream (some stream.length) sub = due stream sub := by
  unfold delivered
  simp

theorem delivered_publish (short : received.getD 0 ≤ stream.length) :
    delivered (stream ++ [event]) received sub = delivered stream received sub := by
  unfold delivered
  rw [List.take_append_of_le_length short]

/-- The next event is delivered. -/
theorem delivered_succ {position : ℕ} (next : stream[position]? = some event) (since : sub.since ≤ position) :
    delivered stream (some (position + 1)) sub =
      if sub.eventType = event.eventModel then delivered stream (some position) sub ++ [event]
      else delivered stream (some position) sub := by
  have short : sub.since ≤ (stream.take position).length := by
    have bound := lt_of_found next
    rw [List.length_take]
    omega
  unfold delivered due
  rw [Option.getD_some, Option.getD_some, List.take_add_one, next, Option.toList_some,
    List.drop_append_of_le_length short, List.filter_append]
  by_cases same : sub.eventType = event.eventModel
  · simp [same]
  · have other : ¬ event.eventModel = sub.eventType := fun eq => same eq.symm
    simp [same, other]

namespace Served

/-- What is served stays so while only the stream grows. -/
theorem publish (h : Served stream received sub) (short : received.getD 0 ≤ stream.length) :
    Served (stream ++ [event]) received sub := by
  refine ⟨?_, h.position, h.live, ?_, ?_, h.streaming⟩
  · have le := h.since_le
    rw [List.length_append]
    omega
  · rw [delivered_publish short]
    exact h.idle
  · intro original read
    obtain ⟨given, begins, tracks, now⟩ := h.tracks original read
    rw [delivered_publish short]
    exact ⟨given, begins.trans (due_grows (List.prefix_append _ _)), tracks, now⟩

theorem close (h : Served stream received sub) : Served stream received { sub with phase := .closed } := by
  refine ⟨h.since_le, by simp [Subscriber.registered], by simp, by simp, ?_, by simp⟩
  intro original read
  obtain ⟨given, begins, tracks, -⟩ := h.tracks original read
  exact ⟨given, begins, tracks, by simp⟩

/-- The subscription becomes live: nothing has been delivered to the queues that wait for it. -/
theorem start (h : Served stream none sub) : Served stream (some stream.length) (sub.start stream.length) := by
  unfold Subscriber.start
  split_ifs with waits
  · have phase : sub.phase = .subscribing := by
      cases phase : sub.phase with
      | subscribing => rfl
      | reading => simpa using h.live (.inl phase)
      | streaming => simpa using h.live (.inr phase)
      | closed => simp [Subscriber.registered, phase] at waits
    obtain ⟨unread, follower⟩ := h.idle (.inl phase)
    refine ⟨Nat.le_refl _, fun _ => Nat.le_refl _, fun _ => rfl, ?_, ?_, h.streaming⟩
    · intro _
      refine ⟨unread, ?_⟩
      simp [follower, delivered, due]
    · intro original read
      simp [unread] at read
  · have closed : sub.phase = .closed := by
      simpa [Subscriber.registered] using waits
    refine ⟨h.since_le, fun registered => absurd registered waits, by simp [closed], by simp [closed], ?_, h.streaming⟩
    intro original read
    obtain ⟨given, begins, tracks, -⟩ := h.tracks original read
    exact ⟨given, begins, tracks, by simp [closed]⟩

/-- An event is delivered. -/
theorem parseEvent {position : ℕ} (h : Served stream (some position) sub) (next : stream[position]? = some event) :
    Served stream (some (position + 1)) (sub.parseEvent event) := by
  cases here : sub.registered with
  | false =>
    have closed : sub.phase = .closed := by
      simpa [Subscriber.registered] using here
    have same : sub.parseEvent event = sub := by
      unfold Subscriber.parseEvent
      simp [here]
    rw [same]
    refine ⟨h.since_le, by simp [here], fun _ => rfl, by simp [closed], ?_, h.streaming⟩
    intro original read
    obtain ⟨given, begins, tracks, -⟩ := h.tracks original read
    exact ⟨given, begins, tracks, by simp [closed]⟩
  | true =>
    have since := h.position here
    have more := delivered_succ next since
    unfold Subscriber.parseEvent
    split_ifs with wanted
    · rw [if_pos wanted.2] at more
      refine ⟨h.since_le, fun _ => Nat.le_succ_of_le since, fun _ => rfl, ?_, ?_, h.streaming⟩
      · intro waiting
        obtain ⟨unread, follower⟩ := h.idle waiting
        refine ⟨unread, ?_⟩
        show sub.follower.receive event = { queue := delivered stream (some (position + 1)) sub }
        rw [more, follower]
        rfl
      · intro original read
        obtain ⟨given, begins, tracks, now⟩ := h.tracks original read
        have streaming : sub.phase = .streaming := by
          cases phase : sub.phase with
          | subscribing => simp [(h.idle (.inl phase)).1] at read
          | reading => simp [(h.idle (.inr phase)).1] at read
          | streaming => rfl
          | closed => simp [Subscriber.registered, phase] at here
        refine ⟨_, delivered_first, ?_, fun _ => rfl⟩
        show Follower.Tracks _ _ (delivered stream (some (position + 1)) sub) _
        rw [more, ← now streaming]
        exact tracks.receive
    · have other : ¬ sub.eventType = event.eventModel := fun same => wanted ⟨here, same⟩
      rw [if_neg other] at more
      refine ⟨h.since_le, fun _ => Nat.le_succ_of_le since, fun _ => rfl, ?_, ?_, h.streaming⟩
      · rw [more]
        exact h.idle
      · rw [more]
        exact h.tracks

/-- The snapshot has been read. -/
theorem read (h : Served stream received sub) (reading : sub.phase = .reading) :
    Served stream received { sub with phase := .streaming, original := some original } := by
  obtain ⟨-, follower⟩ := h.idle (.inr reading)
  have registered : sub.registered = true := by
    simp [Subscriber.registered, reading]
  refine ⟨h.since_le, fun _ => h.position registered, fun _ => h.live (.inl reading), by simp, ?_, fun _ => rfl⟩
  rintro _ ⟨⟩
  refine ⟨delivered stream received sub, delivered_first, ?_, fun _ => rfl⟩
  show Follower.Tracks _ _ _ sub.follower
  rw [follower]
  exact Follower.tracks_start

theorem next (h : Served stream received sub) (ordered : stream.Pairwise fun a b => a.eventId < b.eventId)
    (streaming : sub.phase = .streaming) {follower : Follower Event}
    (turn : sub.follower.next Event.eventId (originalId (sub.original.getD none)) = some follower) :
    Served stream received { sub with follower } := by
  refine ⟨h.since_le, h.position, h.live, by simp [streaming], ?_, h.streaming⟩
  intro original read
  obtain ⟨given, begins, tracks, now⟩ := h.tracks original read
  have read : sub.original = some original := read
  rw [read, Option.getD_some] at turn
  have rising : given.Pairwise fun a b => a.eventId < b.eventId :=
    (ordered.sublist ((List.filter_sublist.trans (List.drop_sublist _ _)))).sublist begins.sublist
  exact ⟨given, begins, tracks.next rising turn, now⟩

end Served

end Delivery

namespace EventSourced

variable {s t u : EventSourced} {sub sub' : Subscriber} {i : ℕ} {a : EventStateLabel} {original : Option Event}
  {event : Event}

/-! ## Steps -/

structure Inv (s : EventSourced) : Prop where
  ordered : s.stream.Pairwise fun a b => a.eventId < b.eventId
  received_le : s.received.getD 0 ≤ s.stream.length
  served : ∀ (i : ℕ) sub, s.subscribers[i]? = some sub → Served s.stream s.received sub

theorem inv_start {initial : EventSourcedState} : Inv { initial } := by
  refine ⟨by simp, by simp, by simp⟩

theorem Inv.setSubscriber (h : s.Inv) (served : Served s.stream s.received sub) : (s.setSubscriber i sub).Inv := by
  refine ⟨h.ordered, h.received_le, ?_⟩
  intro k sub' here
  rcases found_set here with ⟨rfl, rfl⟩ | ⟨-, here⟩
  · exact served
  · exact h.served k sub' here

theorem Inv.applyEvent (h : s.Inv) {u : Update} {rest : List Event} {published raises : Bool}
    (later : published = true → ∀ earlier ∈ s.stream, earlier.eventId < event.eventId) :
    (s.applyEvent u event rest published raises).Inv := by
  unfold EventSourced.applyEvent
  split
  · cases published with
    | false => exact ⟨h.ordered, h.received_le, h.served⟩
    | true =>
      refine ⟨?_, ?_, fun i sub here => (h.served i sub here).publish h.received_le⟩
      · refine List.pairwise_append.2 ⟨h.ordered, by simp, ?_⟩
        intro earlier mem event' last
        rw [List.mem_singleton.1 last]
        exact later rfl earlier mem
      · show s.received.getD 0 ≤ (s.stream ++ [event]).length
        rw [List.length_append]
        exact Nat.le_add_right_of_le h.received_le
  · exact ⟨h.ordered, h.received_le, h.served⟩

/-- All subscribers change. -/
theorem Inv.map (h : s.Inv) {received : Option ℕ} {f : Subscriber → Subscriber}
    (short : received.getD 0 ≤ s.stream.length)
    (served : ∀ sub, Served s.stream s.received sub → Served s.stream received (f sub)) :
    Inv { s with received, subscribers := s.subscribers.map f } := by
  refine ⟨h.ordered, short, ?_⟩
  intro i sub' here
  rw [List.getElem?_map] at here
  obtain ⟨sub, there, rfl⟩ := Option.map_eq_some_iff.1 here
  exact served sub (h.served i sub there)

theorem Inv.subscribe (h : s.Inv) {eventType : String} :
    Inv { s with subscribers := s.subscribers ++ [{ eventType, since := s.received.getD 0 }] } := by
  refine ⟨h.ordered, h.received_le, ?_⟩
  intro i sub here
  rcases found_snoc here with here | ⟨-, rfl⟩
  · exact h.served i sub here
  · refine ⟨h.received_le, fun _ => Nat.le_refl _, by simp, ?_, by simp, by simp⟩
    intro _
    simp [delivered, due]

/-- **Each step keeps what subscribers have been given**, if the identifiers increase. -/
theorem Inv.step (h : s.Inv) (increase : s.IdsIncrease a) (hs : s.step a = some t) : t.Inv := by
  cases a with
  | recoverOrInit =>
    cases hs
    exact ⟨h.ordered, h.received_le, h.served⟩
  | update events publishState =>
    obtain ⟨-, ⟨⟩⟩ := Option.ite_none_right_eq_some.1 hs
    exact ⟨h.ordered, h.received_le, h.served⟩
  | apply published raises =>
    obtain ⟨u, updating, hs⟩ := Option.bind_eq_some_iff.1 hs
    cases events : u.events with
    | nil =>
      rw [events] at hs
      cases hs
    | cons event rest =>
      rw [events] at hs
      obtain ⟨-, ⟨⟩⟩ := Option.ite_none_right_eq_some.1 hs
      refine h.applyEvent ?_
      intro now
      exact increase now u updating event (by simp [events])
  | leave put =>
    obtain ⟨u, -, hs⟩ := Option.bind_eq_some_iff.1 hs
    obtain ⟨-, ⟨⟩⟩ := Option.ite_none_right_eq_some.1 hs
    exact ⟨h.ordered, h.received_le, h.served⟩
  | live =>
    obtain ⟨off, ⟨⟩⟩ := Option.ite_none_right_eq_some.1 hs
    refine h.map (Nat.le_refl _) ?_
    intro sub served
    rw [off] at served
    exact served.start
  | receive =>
    obtain ⟨position, live, hs⟩ := Option.bind_eq_some_iff.1 hs
    obtain ⟨event, next, ⟨⟩⟩ := Option.bind_eq_some_iff.1 hs
    refine h.map (lt_of_found next) ?_
    intro sub served
    rw [live] at served
    exact served.parseEvent next
  | subscribe eventType =>
    obtain ⟨-, ⟨⟩⟩ := Option.ite_none_right_eq_some.1 hs
    exact h.subscribe
  | ready i =>
    obtain ⟨sub, here, hs⟩ := Option.bind_eq_some_iff.1 hs
    obtain ⟨⟨phase, live⟩, ⟨⟩⟩ := Option.ite_none_right_eq_some.1 hs
    have served := h.served i sub here
    have registered : sub.registered = true := by
      simp [Subscriber.registered, phase]
    refine h.setSubscriber ⟨served.since_le, fun _ => served.position registered, fun _ => live,
      fun _ => served.idle (.inl phase), ?_, by simp⟩
    intro original read
    have read : sub.original = some original := read
    rw [(served.idle (.inl phase)).1] at read
    cases read
  | read i =>
    obtain ⟨sub, here, hs⟩ := Option.bind_eq_some_iff.1 hs
    obtain ⟨phase, hs⟩ := Option.ite_none_right_eq_some.1 hs
    split at hs
    · cases hs
      exact h.setSubscriber ((h.served i sub here).read phase)
    · cases hs
      exact h.setSubscriber (h.served i sub here).close
  | next i =>
    obtain ⟨sub, here, hs⟩ := Option.bind_eq_some_iff.1 hs
    obtain ⟨phase, hs⟩ := Option.ite_none_right_eq_some.1 hs
    obtain ⟨follower, turn, ⟨⟩⟩ := Option.bind_eq_some_iff.1 hs
    exact h.setSubscriber ((h.served i sub here).next h.ordered phase turn)
  | close i =>
    obtain ⟨sub, here, ⟨⟩⟩ := Option.bind_eq_some_iff.1 hs
    exact h.setSubscriber (h.served i sub here).close

/-! ## What is yielded -/

/-- The subscriber's queue has missed nothing that its snapshot does not reflect. -/
def Fresh (s : EventSourced) (sub : Subscriber) (original : Option Event) : Prop :=
  ∀ event ∈ s.stream.take sub.since, event.eventModel = sub.eventType → event.eventId ≤ originalId original

/-- What is later than the snapshot is still to come, if the snapshot reflects what was missed. -/
theorem Fresh.later_eq (h : s.Fresh sub original) :
    s.later sub.eventType original = (due s.stream sub).filter (originalId original < ·.eventId) := by
  unfold later due
  conv_lhs => rw [← List.take_append_drop sub.since s.stream]
  rw [List.filter_append, List.filter_filter]
  have none : (s.stream.take sub.since).filter (fun event => decide (event.eventModel = sub.eventType ∧
      originalId original < event.eventId)) = [] := by
    rw [List.filter_eq_nil_iff]
    intro event missed
    have low := h event missed
    simp only [decide_eq_true_eq, not_and, Nat.not_lt]
    exact low
  rw [none, List.nil_append]
  refine List.filter_congr fun event _ => ?_
  rw [Bool.decide_and, Bool.and_comm]

theorem yielded_eq (read : sub.original = some original) :
    sub.yielded = original :: sub.follower.taken.map some := by
  unfold Subscriber.yielded
  rw [read]

/-- A subscriber whose snapshot reflects what it has missed loses nothing. -/
theorem Inv.lossless (h : s.Inv) (here : s.subscribers[i]? = some sub)
    (fresh : ∀ original, sub.original = some original → s.Fresh sub original) : s.Lossless sub := by
  intro original read
  have served := h.served i sub here
  obtain ⟨given, begins, tracks, now⟩ := served.tracks original read
  rw [yielded_eq read, (fresh original read).later_eq]
  constructor
  · rw [List.prefix_cons_inj]
    apply List.IsPrefix.map
    have first : sub.follower.taken <+: given.filter (originalId original < ·.eventId) := by
      rw [tracks.filter_eq]
      exact List.prefix_append _ _
    exact first.trans (begins.filter _)
  · rintro ⟨streaming, received, empty⟩
    have all : given = due s.stream sub := by
      rw [now streaming, received, delivered_all]
    rw [← all, tracks.filter_eq, empty]
    simp

/-- What a subscriber yields has not been missed. -/
theorem Inv.fresh_of_lossless (h : s.Inv) (here : s.subscribers[i]? = some sub) (caughtUp : s.CaughtUp sub)
    (read : sub.original = some original) (lossless : s.Lossless sub) : s.Fresh sub original := by
  intro event missed type
  by_contra high
  have complete := (lossless original read).2 caughtUp
  rw [yielded_eq read, List.cons.injEq] at complete
  have taken : sub.follower.taken = s.later sub.eventType original :=
    List.map_inj_right (fun _ _ => Option.some.inj) |>.1 complete.2
  have wanted : event ∈ s.later sub.eventType original := by
    unfold later
    simp only [List.mem_filter, decide_eq_true_eq]
    exact ⟨List.mem_of_mem_take missed, type, Nat.not_le.1 high⟩
  obtain ⟨given, begins, tracks, -⟩ := (h.served i sub here).tracks original read
  have dueHere : event ∈ due s.stream sub := begins.subset (tracks.mem (taken ▸ wanted))
  have ordered := h.ordered
  rw [← List.take_append_drop sub.since s.stream, List.pairwise_append] at ordered
  exact Nat.lt_irrefl _ (ordered.2.2 event missed event (List.mem_filter.1 dueHere).1)

/-! ## Runs -/

/-- The subscriber had read the same snapshot before. -/
def HadRead (s : EventSourced) (i : ℕ) (sub' : Subscriber) (original : Option Event) : Prop :=
  ∃ sub, s.subscribers[i]? = some sub ∧ sub.original = some original ∧ sub'.since = sub.since ∧
    sub'.eventType = sub.eventType

theorem hadRead_same (here : s.subscribers[i]? = some sub) (read : sub.original = some original) :
    s.HadRead i sub original :=
  ⟨sub, here, read, rfl, rfl⟩

/-- A change of a subscriber that reads no snapshot. -/
theorem hadRead_setSubscriber {k : ℕ} {after : Subscriber} (there : s.subscribers[k]? = some sub)
    (here : (s.setSubscriber k after).subscribers[i]? = some sub') (read : sub'.original = some original)
    (same : after.original = sub.original ∧ after.since = sub.since ∧ after.eventType = sub.eventType) :
    s.HadRead i sub' original := by
  rcases found_set here with ⟨rfl, rfl⟩ | ⟨-, other⟩
  · exact ⟨sub, there, same.1.symm.trans read, same.2.1, same.2.2⟩
  · exact hadRead_same other read

/-- A subscriber that has read its snapshot reads it just now, or had read it before. -/
theorem read_cases (h : s.Inv) (hs : s.step a = some t) (here : t.subscribers[i]? = some sub')
    (read : sub'.original = some original) :
    (a = .read i ∧ ∃ sub, s.subscribers[i]? = some sub ∧ sub.phase = .reading ∧
      s.stored.bind (·.get? sub.eventType) = some original ∧ sub'.since = sub.since ∧
        sub'.eventType = sub.eventType) ∨ s.HadRead i sub' original := by
  cases a with
  | recoverOrInit =>
    cases hs
    exact .inr (hadRead_same here read)
  | update events publishState =>
    obtain ⟨-, ⟨⟩⟩ := Option.ite_none_right_eq_some.1 hs
    exact .inr (hadRead_same here read)
  | apply published raises =>
    obtain ⟨u, updating, hs⟩ := Option.bind_eq_some_iff.1 hs
    split at hs
    · cases hs
    · obtain ⟨-, ⟨⟩⟩ := Option.ite_none_right_eq_some.1 hs
      unfold EventSourced.applyEvent at here
      split at here
      · exact .inr (hadRead_same here read)
      · exact .inr (hadRead_same here read)
  | leave put =>
    obtain ⟨u, -, hs⟩ := Option.bind_eq_some_iff.1 hs
    obtain ⟨-, ⟨⟩⟩ := Option.ite_none_right_eq_some.1 hs
    exact .inr (hadRead_same here read)
  | live =>
    obtain ⟨off, ⟨⟩⟩ := Option.ite_none_right_eq_some.1 hs
    dsimp only at here
    rw [List.getElem?_map] at here
    obtain ⟨sub, there, rfl⟩ := Option.map_eq_some_iff.1 here
    have served := h.served i sub there
    unfold Subscriber.start at read ⊢
    split_ifs at read ⊢ with waits
    · have read : sub.original = some original := read
      rw [off] at served
      -- Before the subscription is live, no snapshot has been read.
      cases phase : sub.phase with
      | subscribing => simp [(served.idle (.inl phase)).1] at read
      | reading => simpa using served.live (.inl phase)
      | streaming => simpa using served.live (.inr phase)
      | closed => simp [Subscriber.registered, phase] at waits
    · exact .inr (hadRead_same there read)
  | receive =>
    obtain ⟨position, live, hs⟩ := Option.bind_eq_some_iff.1 hs
    obtain ⟨event, next, ⟨⟩⟩ := Option.bind_eq_some_iff.1 hs
    dsimp only at here
    rw [List.getElem?_map] at here
    obtain ⟨sub, there, rfl⟩ := Option.map_eq_some_iff.1 here
    unfold Subscriber.parseEvent at read ⊢
    split_ifs at read ⊢ with wanted
    · exact .inr ⟨sub, there, read, rfl, rfl⟩
    · exact .inr (hadRead_same there read)
  | subscribe eventType =>
    obtain ⟨-, ⟨⟩⟩ := Option.ite_none_right_eq_some.1 hs
    rcases found_snoc here with there | ⟨-, rfl⟩
    · exact .inr (hadRead_same there read)
    · cases read
  | ready k =>
    obtain ⟨sub, there, hs⟩ := Option.bind_eq_some_iff.1 hs
    obtain ⟨-, ⟨⟩⟩ := Option.ite_none_right_eq_some.1 hs
    exact .inr (hadRead_setSubscriber there here read ⟨rfl, rfl, rfl⟩)
  | read k =>
    obtain ⟨sub, there, hs⟩ := Option.bind_eq_some_iff.1 hs
    obtain ⟨phase, hs⟩ := Option.ite_none_right_eq_some.1 hs
    split at hs
    · rename_i stored found
      cases hs
      rcases found_set here with ⟨rfl, rfl⟩ | ⟨-, other⟩
      · cases read
        exact .inl ⟨rfl, sub, there, phase, found, rfl, rfl⟩
      · exact .inr (hadRead_same other read)
    · cases hs
      exact .inr (hadRead_setSubscriber there here read ⟨rfl, rfl, rfl⟩)
  | next k =>
    obtain ⟨sub, there, hs⟩ := Option.bind_eq_some_iff.1 hs
    obtain ⟨-, hs⟩ := Option.ite_none_right_eq_some.1 hs
    obtain ⟨follower, -, ⟨⟩⟩ := Option.bind_eq_some_iff.1 hs
    exact .inr (hadRead_setSubscriber there here read ⟨rfl, rfl, rfl⟩)
  | close k =>
    obtain ⟨sub, there, ⟨⟩⟩ := Option.bind_eq_some_iff.1 hs
    exact .inr (hadRead_setSubscriber there here read ⟨rfl, rfl, rfl⟩)

/-- The stream only grows. -/
theorem stream_grows (hs : s.step a = some t) : s.stream <+: t.stream := by
  cases a with
  | recoverOrInit =>
    cases hs
    exact List.prefix_refl _
  | apply published raises =>
    obtain ⟨u, updating, hs⟩ := Option.bind_eq_some_iff.1 hs
    split at hs
    · cases hs
    · obtain ⟨-, ⟨⟩⟩ := Option.ite_none_right_eq_some.1 hs
      unfold EventSourced.applyEvent
      split
      · cases published with
        | false => exact List.prefix_refl _
        | true => exact List.prefix_append _ _
      · exact List.prefix_refl _
  | update | live | subscribe =>
    obtain ⟨-, ⟨⟩⟩ := Option.ite_none_right_eq_some.1 hs
    exact List.prefix_refl _
  | leave | ready =>
    obtain ⟨u, -, hs⟩ := Option.bind_eq_some_iff.1 hs
    obtain ⟨-, ⟨⟩⟩ := Option.ite_none_right_eq_some.1 hs
    exact List.prefix_refl _
  | receive =>
    obtain ⟨position, -, hs⟩ := Option.bind_eq_some_iff.1 hs
    obtain ⟨event, -, ⟨⟩⟩ := Option.bind_eq_some_iff.1 hs
    exact List.prefix_refl _
  | read i =>
    obtain ⟨sub, -, hs⟩ := Option.bind_eq_some_iff.1 hs
    obtain ⟨-, hs⟩ := Option.ite_none_right_eq_some.1 hs
    split at hs
    · cases hs
      exact List.prefix_refl _
    · cases hs
      exact List.prefix_refl _
  | next i =>
    obtain ⟨sub, -, hs⟩ := Option.bind_eq_some_iff.1 hs
    obtain ⟨-, hs⟩ := Option.ite_none_right_eq_some.1 hs
    obtain ⟨follower, -, ⟨⟩⟩ := Option.bind_eq_some_iff.1 hs
    exact List.prefix_refl _
  | close i =>
    obtain ⟨sub, -, ⟨⟩⟩ := Option.bind_eq_some_iff.1 hs
    exact List.prefix_refl _

/-- All subscribers that have read a snapshot have missed nothing that it does not reflect. -/
def AllFresh (s : EventSourced) : Prop :=
  ∀ (i : ℕ) sub, s.subscribers[i]? = some sub → ∀ original, sub.original = some original → s.Fresh sub original

theorem AllFresh.step (fresh : s.AllFresh) (h : s.Inv) (reads : s.ReadsFresh a) (hs : s.step a = some t) :
    t.AllFresh := by
  intro i sub' here original read event missed type
  obtain ⟨more, grown⟩ := stream_grows hs
  rcases read_cases h hs here read with ⟨rfl, sub, there, phase, stored, since, same⟩ |
    ⟨sub, there, before, since, same⟩
  · rw [← grown, since, List.take_append_of_le_length (h.served i sub there).since_le] at missed
    exact reads sub there phase original stored event missed (type.trans same)
  · rw [← grown, since, List.take_append_of_le_length (h.served i sub there).since_le] at missed
    exact fresh i sub there original before event missed (type.trans same)

/-! ## Catching up -/

/-- The subscriber goes on from the same snapshot. -/
structure Continues (sub sub' : Subscriber) : Prop where
  streaming : sub'.phase = .streaming
  since : sub'.since = sub.since
  eventType : sub'.eventType = sub.eventType
  original : sub'.original = sub.original

theorem Continues.trans {sub₁ sub₂ sub₃ : Subscriber} (h : Continues sub₁ sub₂) (h' : Continues sub₂ sub₃) :
    Continues sub₁ sub₃ :=
  ⟨h'.streaming, h'.since.trans h.since, h'.eventType.trans h.eventType, h'.original.trans h.original⟩

/-- A later state of the subscriber, in which nothing more has been published. -/
def Reached (s : EventSourced) (i : ℕ) (sub : Subscriber) (u : EventSourced) : Prop :=
  Reaches step IdsIncrease s u ∧ u.stream = s.stream ∧ ∃ sub', u.subscribers[i]? = some sub' ∧ Continues sub sub'

/-- All that has been published is delivered. -/
theorem exists_delivered (n : ℕ) {position : ℕ} (h : s.Inv) (live : s.received = some position)
    (left : s.stream.length - position = n) (here : s.subscribers[i]? = some sub) (streaming : sub.phase = .streaming) :
    ∃ u, s.Reached i sub u ∧ u.received = some u.stream.length := by
  induction n generalizing s sub position with
  | zero =>
    refine ⟨s, ⟨.refl _, rfl, sub, here, streaming, rfl, rfl, rfl⟩, ?_⟩
    have le := h.received_le
    rw [live, Option.getD_some] at le
    rw [live]
    congr 1
    omega
  | succ n ih =>
    have more : position < s.stream.length := by omega
    have turn : s.step .receive = some { s with
        received := some (position + 1)
        subscribers := s.subscribers.map (·.parseEvent s.stream[position]) } := by
      simp [step, live, more]
    have next := List.getElem?_map.trans (congrArg (Option.map (·.parseEvent s.stream[position])) here)
    have continues : Continues sub (sub.parseEvent s.stream[position]) := by
      unfold Subscriber.parseEvent
      split
      · exact ⟨streaming, rfl, rfl, rfl⟩
      · exact ⟨streaming, rfl, rfl, rfl⟩
    obtain ⟨u, ⟨run, stream, sub', found, goes⟩, all⟩ :=
      ih (h.step (a := .receive) trivial turn) rfl (by dsimp only; omega) next continues.streaming
    exact ⟨u, ⟨(Reaches.single trivial turn).trans run, stream, sub', found, continues.trans goes⟩, all⟩

/-- All that has been delivered is consumed. -/
theorem exists_consumed (n : ℕ) (left : sub.follower.queue.length = n) (all : s.received = some s.stream.length)
    (here : s.subscribers[i]? = some sub) (streaming : sub.phase = .streaming) :
    ∃ u, s.Reached i sub u ∧ ∃ sub', u.subscribers[i]? = some sub' ∧ u.CaughtUp sub' := by
  induction n generalizing s sub with
  | zero =>
    exact ⟨s, ⟨.refl _, rfl, sub, here, streaming, rfl, rfl, rfl⟩, sub, here, streaming, all,
      List.length_eq_zero_iff.1 left⟩
  | succ n ih =>
    obtain ⟨follower, turn, fewer⟩ : ∃ follower,
        sub.follower.next Event.eventId (originalId (sub.original.getD none)) = some follower ∧
          follower.queue.length = n := by
      obtain ⟨event, rest, queue⟩ := List.exists_cons_of_length_eq_add_one left
      rw [queue, List.length_cons] at left
      unfold Follower.next
      rw [queue]
      dsimp only
      split
      · exact ⟨_, rfl, Nat.succ.inj left⟩
      · exact ⟨_, rfl, Nat.succ.inj left⟩
    have moves : s.step (.next i) = some (s.setSubscriber i { sub with follower }) := by
      simp [step, here, streaming, turn]
    have continues : Continues sub { sub with follower } := ⟨streaming, rfl, rfl, rfl⟩
    obtain ⟨u, ⟨run, stream, sub', found, goes⟩, caughtUp⟩ :=
      ih (s := s.setSubscriber i { sub with follower }) fewer all (set_found here) streaming
    exact ⟨u, ⟨(Reaches.single trivial moves).trans run, stream, sub', found, continues.trans goes⟩, caughtUp⟩

theorem inv_of_reaches (h : s.Inv) (run : Reaches step IdsIncrease s t) : t.Inv :=
  run.invariant h fun _ _ _ inv increase hs => inv.step increase hs

/-- A subscriber that reads a snapshot can catch up with the stream. -/
theorem exists_caughtUp (h : s.Inv) (here : s.subscribers[i]? = some sub) (streaming : sub.phase = .streaming) :
    ∃ u, s.Reached i sub u ∧ ∃ sub', u.subscribers[i]? = some sub' ∧ u.CaughtUp sub' := by
  obtain ⟨position, live⟩ := Option.isSome_iff_exists.1 ((h.served i sub here).live (.inr streaming))
  obtain ⟨m, ⟨run, stream, sub₁, found, continues⟩, all⟩ := exists_delivered _ h live rfl here streaming
  obtain ⟨u, ⟨run', stream', sub₂, found', continues'⟩, caughtUp⟩ :=
    exists_consumed _ rfl all found continues.streaming
  exact ⟨u, ⟨run.trans run', stream'.trans stream, sub₂, found', continues.trans continues'⟩, caughtUp⟩

/-- **Snapshot and stream lose and repeat nothing** in the runs in which each snapshot that is read reflects what the
subscriber's queue has missed. After a read of another snapshot, the subscriber may catch up and have lost an event. -/
theorem eventStream_lossless_iff {initial : EventSourcedState} :
    (∀ s, Reaches step (fun s a => s.IdsIncrease a ∧ s.ReadsFresh a) { initial } s →
      ∀ (i : ℕ) sub, s.subscribers[i]? = some sub → s.Lossless sub) ∧
    ∀ s t i, Reaches step IdsIncrease { initial } s → s.step (.read i) = some t → ¬ s.ReadsFresh (.read i) →
      ∃ u, Reaches step IdsIncrease t u ∧ ∃ sub, u.subscribers[i]? = some sub ∧ ¬ u.Lossless sub := by
  constructor
  · intro s run i sub here
    have kept : s.Inv ∧ s.AllFresh := by
      refine run.invariant (I := fun s => s.Inv ∧ s.AllFresh) ⟨inv_start, by simp [AllFresh]⟩ ?_
      intro s a t kept ok hs
      exact ⟨kept.1.step ok.1 hs, kept.2.step kept.1 ok.2 hs⟩
    exact kept.1.lossless here (kept.2 i sub here)
  · intro s t i run hs stale
    have inv := inv_of_reaches inv_start run
    have after := inv.step (a := .read i) trivial hs
    unfold ReadsFresh at stale
    simp only [not_forall] at stale
    obtain ⟨sub, here, phase, original, stored, event, missed, type, high⟩ := stale
    obtain ⟨sub', here', hs⟩ := Option.bind_eq_some_iff.1 hs
    cases Eq.trans (Eq.symm here) here'
    rw [if_pos phase, show s.stored.bind (·.get? sub.eventType) = some original from stored] at hs
    cases hs
    obtain ⟨u, ⟨more, stream, sub₁, found, continues⟩, sub₂, found', caughtUp⟩ :=
      exists_caughtUp after (set_found here) rfl
    cases found.symm.trans found'
    refine ⟨u, more, sub₁, found, ?_⟩
    intro lossless
    have fresh := (inv_of_reaches after more).fresh_of_lossless found caughtUp continues.original lossless
    refine high (fresh event ?_ (type.trans continues.eventType.symm))
    rw [stream, continues.since]
    exact missed

/-- An event of the state's only field. -/
def taskEvent (n : ℕ) : Event := ⟨"task_execution_state", n + 1, Nat.succ_pos n⟩

def taskState : EventSourcedState := .ofList [("task_execution_state", none)]

/-- Publish an event. -/
def emitted (n : ℕ) : List EventStateLabel := [.update [taskEvent n] true, .apply true false]

/-- Subscribe and read the snapshot. -/
def subscribed : List EventStateLabel := [.live, .subscribe "task_execution_state", .ready 0, .read 0]

/-- A snapshot is stored, read, and followed by a later event. -/
theorem eventStream_lossless_iff_example : ∃ (s : EventSourced) (sub : Subscriber),
    s.subscribers[0]? = some sub ∧ sub.yielded = [some (taskEvent 0), some (taskEvent 1)] ∧ s.Lossless sub := by
  let labels := .recoverOrInit :: emitted 0 ++ [.leave true] ++ subscribed ++ emitted 1 ++ [.receive, .next 0]
  have ends : ((exec step { initial := taskState } labels).bind fun s => s.subscribers[0]?.map (·.yielded)) =
      some [some (taskEvent 0), some (taskEvent 1)] := by
    decide +kernel
  have ok : okAlong step (fun s a => s.IdsIncrease a ∧ s.ReadsFresh a) { initial := taskState } labels := by
    decide +kernel
  obtain ⟨s, run, found⟩ := Option.bind_eq_some_iff.1 ends
  obtain ⟨sub, here, yielded⟩ := Option.map_eq_some_iff.1 found
  exact ⟨s, sub, here, yielded, eventStream_lossless_iff.1 s (reaches_of_exec run ok) 0 sub here⟩

/-- The event is published before the subscription is live, and its snapshot stored after the read. -/
theorem event_lost : ∃ (s : EventSourced) (sub : Subscriber), Reaches step IdsIncrease { initial := taskState } s ∧
    s.subscribers[0]? = some sub ∧ ¬ s.Lossless sub := by
  let labels := .recoverOrInit :: emitted 0 ++ subscribed ++ [.leave true] ++ emitted 1 ++ [.receive, .next 0]
  have yields : ((exec step { initial := taskState } labels).bind fun s => s.subscribers[0]?.map fun sub =>
      (sub.original, sub.yielded, s.later sub.eventType none)) =
        some (some none, [none, some (taskEvent 1)], [taskEvent 0, taskEvent 1]) := by
    decide +kernel
  have ok : okAlong step IdsIncrease { initial := taskState } labels := by
    decide +kernel
  obtain ⟨s, run, found⟩ := Option.bind_eq_some_iff.1 yields
  obtain ⟨sub, here, same⟩ := Option.map_eq_some_iff.1 found
  rw [Prod.mk.injEq, Prod.mk.injEq] at same
  obtain ⟨read, yielded, later⟩ := same
  refine ⟨s, sub, reaches_of_exec run ok, here, ?_⟩
  intro lossless
  have begins := (lossless none read).1
  rw [yielded, later] at begins
  revert begins
  decide

end EventSourced

end SensorKit.Core.EventState
