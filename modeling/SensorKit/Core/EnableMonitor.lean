import SensorKit.Common.AsyncObserver
import SensorKit.Core.EventStateSound

/-!
# The newest enable state

`ProgramStateMonitor` subscribes to the program's enable states, reads the stored state, and then replaces what it has
by each event with a later timestamp. Timestamps are milliseconds, whereas `event_stream` compares whole identifiers:
of two events in one millisecond the monitor keeps the first.

A program publishes its state like an event-sourced one. Events that have been published may still be on their way to a
monitor when it subscribes.
-/

namespace SensorKit.Core.EventState

open Lib Common

/-- `timestamp`: the millisecond encoded in the UUIDv7 of the event. -/
def Event.timestamp (event : Event) : ℕ :=
  event.eventId >>> 80

/-- The type of the program's enable states. -/
def enableModel : String := "program_enable_state"

/-- Monitor a Program's effective enable-state, taking into account the entity liveness. -/
structure ProgramStateMonitor where
  online : Bool := false
  enableState : Option Event := none
  observer : AsyncObserver (Option Event) := ⟨none, none⟩
  /-- How many events of the stream its queue has missed. -/
  since : ℕ
  /-- How many events of the stream it has passed. -/
  position : ℕ := since
  /-- What the stored state held, once it has been read. -/
  initial : Option Event := none
  /-- `_monitor_state` has raised. -/
  failed : Bool := false
deriving DecidableEq, Repr

namespace ProgramStateMonitor

variable (m : ProgramStateMonitor)

/-- `_notify`. -/
def notify : ProgramStateMonitor :=
  { m with observer := m.observer.notify (if m.online then m.enableState else none) }

/-- A turn of `_monitor_liveness`. -/
def liveness (isOnline : Bool) : ProgramStateMonitor :=
  { m with online := isOnline }.notify

/-- `_monitor_state`, from the moment that its read has returned. -/
def read (stored : Option Event) : ProgramStateMonitor :=
  match stored with
  | some event => { m with initial := some event, enableState := some event }.notify
  | none => { m with failed := true }

/-- A turn of `_monitor_state`, with an event of the stream. -/
def receive (event : Event) : ProgramStateMonitor :=
  match m.enableState with
  | some current => if current.timestamp < event.timestamp then { m with enableState := some event }.notify else m
  | none => m

/-- The next event of the stream, which hands on those of its type. -/
def next (event : Event) : ProgramStateMonitor :=
  let passed := { m with position := m.position + 1 }
  if event.eventModel = enableModel then passed.receive event else passed

end ProgramStateMonitor

/-! ## The system -/

structure Monitored where
  program : EventSourced
  monitors : List ProgramStateMonitor := []

inductive MonitoredLabel where
  | program (label : EventStateLabel)
  /-- A monitor's subscription has become live, and its queue misses so many events. -/
  | subscribe (since : ℕ)
  | liveness (i : ℕ) (isOnline : Bool)
  | read (i : ℕ)
  | next (i : ℕ)
deriving DecidableEq, Repr

namespace Monitored

variable (s : Monitored)

def setMonitor (i : ℕ) (m : ProgramStateMonitor) : Monitored :=
  { s with monitors := s.monitors.set i m }

def step (s : Monitored) : MonitoredLabel → Option Monitored
  | .program label => do
    let program ← s.program.step label
    return { s with program }
  | .subscribe since =>
    if since ≤ s.program.stream.length then some { s with monitors := s.monitors ++ [{ since }] } else none
  | .liveness i isOnline => do
    let m ← s.monitors[i]?
    return s.setMonitor i (m.liveness isOnline)
  | .read i => do
    let m ← s.monitors[i]?
    if m.initial = none ∧ m.failed = false then
      return s.setMonitor i (m.read (s.program.stored.bind fun stored => (stored.get? enableModel).join))
    else none
  | .next i => do
    let m ← s.monitors[i]?
    if m.initial.isSome then
      let event ← s.program.stream[m.position]?
      return s.setMonitor i (m.next event)
    else none

/-- Events are published with increasing identifiers. -/
def IdsIncrease (s : Monitored) : MonitoredLabel → Prop
  | .program label => s.program.IdsIncrease label
  | _ => True

instance (a : MonitoredLabel) : Decidable (s.IdsIncrease a) :=
  match a with
  | .program label => inferInstanceAs (Decidable (s.program.IdsIncrease label))
  | .subscribe _ | .liveness .. | .read _ | .next _ => inferInstanceAs (Decidable True)

end Monitored

/-- The enable states among some events. -/
def enableStates (events : List Event) : List Event :=
  events.filter fun event => event.eventModel = enableModel

/-! ## What a monitor keeps -/

/-- What is kept of a snapshot's event and later ones. -/
def newest (snapshot : Event) (events : List Event) : Event :=
  events.foldl (fun current event => if current.timestamp < event.timestamp then event else current) snapshot

section Newest

variable {snapshot last : Event} {events : List Event}

theorem newest_snoc : newest snapshot (events ++ [last]) =
    if (newest snapshot events).timestamp < last.timestamp then last else newest snapshot events := by
  unfold newest
  rw [List.foldl_append]
  rfl

theorem newest_mem : newest snapshot events ∈ snapshot :: events := by
  induction events using List.reverseRecOn with
  | nil => exact List.mem_singleton_self snapshot
  | append_singleton events last ih =>
    rw [newest_snoc]
    split_ifs
    · simp
    · rw [← List.cons_append]
      exact List.mem_append_left _ ih

theorem timestamp_le_newest : ∀ event ∈ snapshot :: events, event.timestamp ≤ (newest snapshot events).timestamp := by
  induction events using List.reverseRecOn with
  | nil =>
    intro event mem
    rw [List.mem_singleton.1 mem]
    exact Nat.le_refl _
  | append_singleton events last ih =>
    intro event mem
    rw [← List.cons_append, List.mem_append, List.mem_singleton] at mem
    rw [newest_snoc]
    split_ifs with later
    · rcases mem with mem | rfl
      · exact Nat.le_trans (ih event mem) (Nat.le_of_lt later)
      · exact Nat.le_refl _
    · rcases mem with mem | rfl
      · exact ih event mem
      · omega

/-- Timestamps follow the identifiers. -/
theorem timestamp_le {a b : Event} (le : a.eventId ≤ b.eventId) : a.timestamp ≤ b.timestamp := by
  unfold Event.timestamp
  rw [Nat.shiftRight_eq_div_pow, Nat.shiftRight_eq_div_pow]
  exact Nat.div_le_div_right le

/-- Nothing older than the snapshot's event is kept. -/
theorem snapshot_le_newest : snapshot.eventId ≤ (newest snapshot events).eventId := by
  induction events using List.reverseRecOn with
  | nil => exact Nat.le_refl _
  | append_singleton events last ih =>
    rw [newest_snoc]
    split_ifs with later
    · by_contra older
      have := timestamp_le (show last.eventId ≤ (newest snapshot events).eventId by omega)
      omega
    · exact ih

/-- A snapshot's event is kept where no later millisecond comes. -/
theorem newest_eq_snapshot (early : ∀ event ∈ events, event.timestamp ≤ snapshot.timestamp) :
    newest snapshot events = snapshot := by
  induction events using List.reverseRecOn with
  | nil => rfl
  | append_singleton events last ih =>
    have before := ih fun event mem => early event (List.mem_append_left _ mem)
    have := early last (by simp)
    rw [newest_snoc, before, if_neg (by omega)]

/-- The last event is kept if the snapshot is of it, or if it comes in a later millisecond than all before it. -/
theorem newest_eq_last_iff (ordered : ∀ event ∈ events, event.eventId < last.eventId) :
    newest snapshot (events ++ [last]) = last ↔
      snapshot = last ∨ ∀ event ∈ snapshot :: events, event.timestamp < last.timestamp := by
  rw [newest_snoc]
  split_ifs with later
  · refine iff_of_true rfl (.inr fun event mem => ?_)
    have := timestamp_le_newest event mem
    omega
  · constructor
    · intro kept
      rcases List.mem_cons.1 (kept ▸ newest_mem : last ∈ snapshot :: events) with same | mem
      · exact .inl same.symm
      · exact absurd (ordered last mem) (Nat.lt_irrefl _)
    · rintro (rfl | all)
      · exact newest_eq_snapshot fun event mem => timestamp_le (Nat.le_of_lt (ordered event mem))
      · exact absurd (all _ newest_mem) later

end Newest

/-- The next event changes the enable state where it is of a later millisecond. -/
theorem ProgramStateMonitor.next_eq {m : ProgramStateMonitor} {current : Event} (event : Event)
    (has : m.enableState = some current) :
    (m.next event).since = m.since ∧ (m.next event).position = m.position + 1 ∧
      (m.next event).initial = m.initial ∧ (m.next event).enableState =
        some (if event.eventModel = enableModel ∧ current.timestamp < event.timestamp then event else current) := by
  unfold next
  dsimp only
  by_cases enable : event.eventModel = enableModel
  · rw [if_pos enable]
    unfold receive
    dsimp only
    rw [has]
    dsimp only
    by_cases later : current.timestamp < event.timestamp
    · rw [if_pos later, if_pos ⟨enable, later⟩]
      exact ⟨rfl, rfl, rfl, rfl⟩
    · rw [if_neg later, if_neg fun both => later both.2]
      exact ⟨rfl, rfl, rfl, rfl⟩
  · rw [if_neg enable, if_neg fun both => enable both.1]
    exact ⟨rfl, rfl, rfl, has⟩

/-- What a monitor has is what is kept of the enable states that it has passed since its subscription. -/
structure ProgramStateMonitor.Followed (stream : List Event) (m : ProgramStateMonitor) : Prop where
  since_le : m.since ≤ m.position
  position_le : m.position ≤ stream.length
  unread : m.initial = none → m.enableState = none ∧ m.position = m.since
  kept : ∀ snapshot ∈ m.initial, m.enableState =
    some (newest snapshot (enableStates ((stream.take m.position).drop m.since)))

namespace ProgramStateMonitor.Followed

variable {stream : List Event} {m : ProgramStateMonitor}

section

variable (h : m.Followed stream)
include h

/-- Events that are published change nothing of what a monitor has passed. -/
theorem grow {more : List Event} (grown : stream <+: more) : m.Followed more := by
  obtain ⟨rest, rfl⟩ := grown
  refine ⟨h.since_le, ?_, h.unread, fun snapshot mem => ?_⟩
  · rw [List.length_append]
    have := h.position_le
    omega
  · rw [List.take_append_of_le_length h.position_le]
    exact h.kept snapshot mem

theorem notify : m.notify.Followed stream :=
  ⟨h.since_le, h.position_le, h.unread, h.kept⟩

theorem liveness (isOnline : Bool) : (m.liveness isOnline).Followed stream :=
  notify ⟨h.since_le, h.position_le, h.unread, h.kept⟩

theorem read (unread : m.initial = none) (stored : Option Event) : (m.read stored).Followed stream := by
  unfold ProgramStateMonitor.read
  cases stored with
  | none => exact ⟨h.since_le, h.position_le, h.unread, h.kept⟩
  | some event =>
    refine notify ⟨h.since_le, h.position_le, fun none => (Option.some_ne_none event none).elim, fun snapshot mem => ?_⟩
    cases mem
    show some event = some (newest event (enableStates ((stream.take m.position).drop m.since)))
    rw [(h.unread unread).2, List.drop_eq_nil_of_le (by rw [List.length_take]; omega)]
    rfl

/-- A monitor passes the next event. -/
theorem next {event : Event} (read : m.initial.isSome = true) (there : stream[m.position]? = some event) :
    (m.next event).Followed stream := by
  obtain ⟨snapshot, initial⟩ := Option.isSome_iff_exists.1 read
  have short := lt_of_found there
  have since := h.since_le
  have passed : (stream.take (m.position + 1)).drop m.since = (stream.take m.position).drop m.since ++ [event] := by
    rw [List.take_add_one, there, List.drop_append_of_le_length (by rw [List.length_take]; omega)]
    rfl
  obtain ⟨sameSince, position, sameInitial, enableState⟩ := next_eq event (h.kept snapshot initial)
  refine ⟨by omega, by omega, fun none => ?_, fun snapshot' mem => ?_⟩
  · rw [sameInitial, initial] at none
    cases none
  · obtain rfl : snapshot = snapshot' := by
      rw [sameInitial] at mem
      exact Option.some.inj (initial.symm.trans mem)
    rw [enableState, sameSince, position, passed]
    unfold enableStates
    rw [List.filter_append]
    by_cases enable : event.eventModel = enableModel
    · have singleton : [event].filter (fun event => event.eventModel = enableModel) = [event] := by simp [enable]
      rw [singleton, newest_snoc]
      simp only [enable, true_and]
    · have none : [event].filter (fun event => event.eventModel = enableModel) = [] := by simp [enable]
      rw [none, List.append_nil, if_neg fun both => enable both.1]

end

end ProgramStateMonitor.Followed

namespace Monitored

variable {s t : Monitored} {a : MonitoredLabel} {m : ProgramStateMonitor} {i : ℕ}

structure Inv (s : Monitored) : Prop where
  program : s.program.Inv
  followed : ∀ m ∈ s.monitors, m.Followed s.program.stream

theorem Inv.setMonitor (h : s.Inv) (followed : m.Followed s.program.stream) : (s.setMonitor i m).Inv := by
  refine ⟨h.program, fun m' mem => ?_⟩
  rcases List.mem_or_eq_of_mem_set mem with mem | rfl
  · exact h.followed m' mem
  · exact followed

/-- **Each step keeps what the monitors have followed**, if the identifiers increase. -/
theorem Inv.step (h : s.Inv) (increase : s.IdsIncrease a) (hs : s.step a = some t) : t.Inv := by
  cases a with
  | program label =>
    obtain ⟨program, stepped, rest⟩ := Option.bind_eq_some_iff.1 hs
    cases rest
    exact ⟨h.program.step increase stepped, fun m mem => (h.followed m mem).grow (EventSourced.stream_grows stepped)⟩
  | subscribe since =>
    simp only [Monitored.step] at hs
    split_ifs at hs with short
    cases hs
    refine ⟨h.program, fun m mem => ?_⟩
    rcases mem_snoc.1 mem with mem | rfl
    · exact h.followed m mem
    · exact ⟨Nat.le_refl _, short, fun _ => ⟨rfl, rfl⟩, fun _ read => by cases read⟩
  | liveness i isOnline =>
    obtain ⟨m, here, rest⟩ := Option.bind_eq_some_iff.1 hs
    cases rest
    exact h.setMonitor ((h.followed m (mem_of_found here)).liveness isOnline)
  | read i =>
    obtain ⟨m, here, rest⟩ := Option.bind_eq_some_iff.1 hs
    split_ifs at rest with unread
    cases rest
    exact h.setMonitor ((h.followed m (mem_of_found here)).read unread.1 _)
  | next i =>
    obtain ⟨m, here, rest⟩ := Option.bind_eq_some_iff.1 hs
    split_ifs at rest with read
    obtain ⟨event, there, rest⟩ := Option.bind_eq_some_iff.1 rest
    cases rest
    exact h.setMonitor ((h.followed m (mem_of_found here)).next read there)

end Monitored

/-- The stored state that was read is of the last event. Or else the monitor's queue has the last event, and it is of a
later millisecond than the event that was read and than every other one of the queue. -/
def Timely (queued : List Event) (snapshot last : Event) : Prop :=
  snapshot = last ∨ last ∈ queued ∧ ∀ event ∈ snapshot :: queued, event ≠ last → event.timestamp < last.timestamp

/-- What is kept of a snapshot and of a queue, whose last event is the last one of all if it has any. -/
theorem newest_iff_timely {snapshot last : Event} {earlier queued : List Event}
    (ordered : queued.Pairwise fun a b => a.eventId < b.eventId) (ends : (earlier ++ queued).getLast? = some last) :
    newest snapshot queued = last ↔ Timely queued snapshot last := by
  unfold Timely
  rcases List.eq_nil_or_concat queued with rfl | ⟨before, final, rfl⟩
  · simp [newest]
  · rw [List.concat_eq_append] at ordered ends ⊢
    obtain rfl : final = last := by simpa using ends
    have lower : ∀ event ∈ before, event.eventId < final.eventId := fun event mem =>
      (List.pairwise_append.1 ordered).2.2 event mem final (List.mem_singleton_self final)
    rw [newest_eq_last_iff lower]
    by_cases same : snapshot = final
    · exact iff_of_true (.inl same) (.inl same)
    · simp only [same, false_or]
      constructor
      · intro all
        refine ⟨by simp, fun event mem other => all event ?_⟩
        rw [← List.cons_append, List.mem_append, List.mem_singleton] at mem
        exact mem.resolve_right other
      · rintro ⟨-, all⟩ event mem
        refine all event (by rw [← List.cons_append]; exact List.mem_append_left _ mem) ?_
        rintro rfl
        rcases List.mem_cons.1 mem with here | here
        · exact same here.symm
        · exact absurd (lower _ here) (Nat.lt_irrefl _)

/-- **The newest enable state wins**, once the monitor has passed all events, exactly when it is timely; and nothing
older than what was read ever replaces it. -/
theorem newest_wins_iff {initial : EventSourcedState} {s : Monitored}
    (run : Reaches Monitored.step Monitored.IdsIncrease { program := { initial } } s) {m : ProgramStateMonitor}
    (mem : m ∈ s.monitors) {snapshot : Event} (read : m.initial = some snapshot) :
    (∀ current ∈ m.enableState, snapshot.eventId ≤ current.eventId) ∧
      (m.position = s.program.stream.length → ∀ last ∈ (enableStates s.program.stream).getLast?,
        (m.enableState = some last ↔ Timely (enableStates (s.program.stream.drop m.since)) snapshot last)) := by
  have inv : s.Inv := run.invariant ⟨EventSourced.inv_start, by simp⟩ fun _ _ _ h increase hs => h.step increase hs
  have kept := (inv.followed m mem).kept snapshot read
  refine ⟨fun current has => ?_, fun caughtUp last ends => ?_⟩
  · cases kept.symm.trans has
    exact snapshot_le_newest
  · rw [caughtUp, List.take_length] at kept
    rw [kept, Option.some.injEq]
    have ordered : (enableStates (s.program.stream.drop m.since)).Pairwise fun a b => a.eventId < b.eventId :=
      inv.program.ordered.sublist (List.filter_sublist.trans (List.drop_sublist _ _))
    have parts : enableStates (s.program.stream.take m.since) ++ enableStates (s.program.stream.drop m.since) =
        enableStates s.program.stream := by
      unfold enableStates
      rw [← List.filter_append, List.take_append_drop]
    exact newest_iff_timely ordered (parts ▸ ends)

/-- An enable state of the sixth millisecond. -/
def enableEvent (n : ℕ) : Event := ⟨enableModel, 5 <<< 80 + n + 1, Nat.succ_pos _⟩

/-- The program's state as it begins. -/
def enableInitial : EventSourcedState := .ofList [(enableModel, some ⟨enableModel, 1, by decide⟩)]

/-- Publish an enable state, and store the program's state. -/
def enableEmitted (event : Event) : List MonitoredLabel :=
  [.program (.update [event] true), .program (.apply true false), .program (.leave true)]

/-- Two enable states of one millisecond, of which the first is read: the second is never taken over. -/
theorem newest_lost : ∃ (s : Monitored) (m : ProgramStateMonitor),
    Reaches Monitored.step Monitored.IdsIncrease { program := { initial := enableInitial } } s ∧ m ∈ s.monitors ∧
      m.initial = some (enableEvent 0) ∧ m.position = s.program.stream.length ∧
        (enableStates s.program.stream).getLast? = some (enableEvent 1) ∧ m.enableState ≠ some (enableEvent 1) := by
  let labels := .program .recoverOrInit :: enableEmitted (enableEvent 0) ++ [.subscribe 1, .read 0] ++
    enableEmitted (enableEvent 1) ++ [.next 0]
  have ends : ((exec Monitored.step { program := { initial := enableInitial } } labels).bind fun s =>
      s.monitors[0]?.map fun m => (m.initial, m.position, m.enableState, s.program.stream)) =
        some (some (enableEvent 0), 2, some (enableEvent 0), [enableEvent 0, enableEvent 1]) := by
    decide +kernel
  have ok : okAlong Monitored.step Monitored.IdsIncrease { program := { initial := enableInitial } } labels := by
    decide +kernel
  obtain ⟨s, run, found⟩ := Option.bind_eq_some_iff.1 ends
  obtain ⟨m, here, same⟩ := Option.map_eq_some_iff.1 found
  simp only [Prod.mk.injEq] at same
  obtain ⟨initial, position, enableState, stream⟩ := same
  refine ⟨s, m, reaches_of_exec run ok, mem_of_found here, initial, ?_, ?_, ?_⟩
  · rw [position, stream]
    rfl
  · rw [stream]
    decide +kernel
  · rw [enableState]
    decide +kernel

/-- An event of a later millisecond is taken over. -/
def laterEvent : Event := ⟨enableModel, 6 <<< 80, by decide⟩

theorem newest_wins_iff_example : ∃ (s : Monitored) (m : ProgramStateMonitor), m ∈ s.monitors ∧
    m.enableState = some laterEvent ∧
      (m.enableState = some laterEvent ↔ Timely (enableStates (s.program.stream.drop m.since)) (enableEvent 0) laterEvent) := by
  let labels := .program .recoverOrInit :: enableEmitted (enableEvent 0) ++ [.subscribe 1, .read 0] ++
    enableEmitted laterEvent ++ [.next 0]
  have ends : ((exec Monitored.step { program := { initial := enableInitial } } labels).bind fun s =>
      s.monitors[0]?.map fun m => (m.initial, m.position, m.enableState, s.program.stream)) =
        some (some (enableEvent 0), 2, some laterEvent, [enableEvent 0, laterEvent]) := by
    decide +kernel
  have ok : okAlong Monitored.step Monitored.IdsIncrease { program := { initial := enableInitial } } labels := by
    decide +kernel
  obtain ⟨s, run, found⟩ := Option.bind_eq_some_iff.1 ends
  obtain ⟨m, here, same⟩ := Option.map_eq_some_iff.1 found
  simp only [Prod.mk.injEq] at same
  obtain ⟨initial, position, enableState, stream⟩ := same
  have wins := (newest_wins_iff (reaches_of_exec run ok) (mem_of_found here) initial).2
  refine ⟨s, m, mem_of_found here, enableState, wins ?_ laterEvent ?_⟩
  · rw [position, stream]
    rfl
  · rw [stream]
    decide +kernel

end SensorKit.Core.EventState
