import SensorKit.Lib.Dict
import SensorKit.Lib.Follower
import SensorKit.Lib.Indexed
import SensorKit.Lib.Run

/-!
# Event-sourced state

An entity publishes events on its stream, and then stores a snapshot of its state. A client receives the stream from the
moment at which its subscription is live, and hands each event on to the queues that are registered for its type.
-/

namespace SensorKit.Core.EventState

open Lib

structure Event where
  eventModel : String
  eventId : ℕ
  /-- The identifiers are positive. -/
  positive : 0 < eventId
deriving DecidableEq, Repr

/-- The state's event fields, by the type of their events. A field may be `None`. -/
abbrev EventSourcedState := Dict String (Option Event)

/-- A call of `_apply`, with the events that are left. -/
structure Update where
  events : List Event
  publishState : Bool
deriving DecidableEq, Repr

inductive SubscriberPhase where
  /-- The queue is registered, and the subscription is awaited. -/
  | subscribing
  /-- The snapshot is being read. -/
  | reading
  | streaming
  | closed
deriving DecidableEq, Repr

/-- A run of `event_stream`. -/
structure Subscriber where
  eventType : String
  phase : SubscriberPhase := .subscribing
  /-- How many events of the stream its queue has missed. -/
  since : ℕ
  follower : Follower Event := {}
  /-- What the snapshot held, once it has been read. -/
  original : Option (Option Event) := none
deriving DecidableEq, Repr

/-- `original.event_id.int if original is not None else 0`. -/
def originalId : Option Event → ℕ
  | some original => original.eventId
  | none => 0

namespace Subscriber

variable (sub : Subscriber)

def yielded : List (Option Event) :=
  match sub.original with
  | none => []
  | some original => original :: sub.follower.taken.map some

/-- The queue is registered at the client's multiplexer. -/
def registered : Bool :=
  sub.phase != .closed

/-- `parse_event` puts the event into the queues that are registered for its type. -/
def parseEvent (event : Event) : Subscriber :=
  if sub.registered ∧ sub.eventType = event.eventModel then { sub with follower := sub.follower.receive event } else sub

/-- The subscription has become live after so many events. -/
def start (position : ℕ) : Subscriber :=
  if sub.registered then { sub with since := position } else sub

end Subscriber

/-! ## The system -/

structure EventSourced where
  /-- What a new state holds. -/
  initial : EventSourcedState
  state : EventSourcedState := initial
  stored : Option EventSourcedState := none
  /-- All events published. -/
  stream : List Event := []
  /-- The update that holds the lock. -/
  updating : Option Update := none
  /-- How many events of the stream the client has passed, once its subscription is live. -/
  received : Option ℕ := none
  subscribers : List Subscriber := []

inductive EventStateLabel where
  /-- The entity starts, or starts anew. -/
  | recoverOrInit
  | update (events : List Event) (publishState : Bool)
  /-- Apply the next event. The call may fail or be cancelled, and the event be published all the same. -/
  | apply (published raises : Bool)
  /-- Put the state and leave. The call may fail or be cancelled. -/
  | leave (put : Bool)
  /-- The client's subscription becomes live. -/
  | live
  | receive
  | subscribe (eventType : String)
  | ready (i : ℕ)
  | read (i : ℕ)
  | next (i : ℕ)
  /-- The stream is closed by its consumer, or an error of the backend ends it. -/
  | close (i : ℕ)
deriving DecidableEq, Repr

namespace EventSourced

variable (s : EventSourced)

def setSubscriber (i : ℕ) (sub : Subscriber) : EventSourced :=
  { s with subscribers := s.subscribers.set i sub }

/-- Set the event's field, and publish it. An event without a field is a `KeyError`. -/
def applyEvent (u : Update) (event : Event) (rest : List Event) (published raises : Bool) : EventSourced :=
  if event.eventModel ∈ s.state.keys then
    { s with
      state := s.state.insert event.eventModel (some event)
      stream := if published then s.stream ++ [event] else s.stream
      updating := if raises then none else some { u with events := rest } }
  else { s with updating := none }

def step (s : EventSourced) : EventStateLabel → Option EventSourced
  | .recoverOrInit =>
    let state := s.stored.getD s.initial
    some { s with state, stored := some state, updating := none }
  | .update events publishState =>
    if s.updating = none then some { s with updating := some { events, publishState } } else none
  | .apply published raises => do
    let u ← s.updating
    match u.events with
    | [] => none
    | event :: rest =>
      if published ∨ raises then return s.applyEvent u event rest published raises else none
  | .leave put => do
    let u ← s.updating
    if u.events = [] ∧ (put → u.publishState) then
      return { s with stored := if put then some s.state else s.stored, updating := none }
    else none
  | .live =>
    -- Only events published from now on are delivered.
    if s.received = none then
      some { s with
        received := some s.stream.length
        subscribers := s.subscribers.map (·.start s.stream.length) }
    else none
  | .receive => do
    let position ← s.received
    let event ← s.stream[position]?
    return { s with received := some (position + 1), subscribers := s.subscribers.map (·.parseEvent event) }
  | .subscribe eventType =>
    if eventType ∈ s.initial.keys then
      some { s with subscribers := s.subscribers ++ [{ eventType, since := s.received.getD 0 }] }
    else none
  | .ready i => do
    let sub ← s.subscribers[i]?
    if sub.phase = .subscribing ∧ s.received.isSome then return s.setSubscriber i { sub with phase := .reading }
    else none
  | .read i => do
    let sub ← s.subscribers[i]?
    if sub.phase = .reading then
      match s.stored.bind (·.get? sub.eventType) with
      | some original => return s.setSubscriber i { sub with phase := .streaming, original := some original }
      -- `KVError`.
      | none => return s.setSubscriber i { sub with phase := .closed }
    else none
  | .next i => do
    let sub ← s.subscribers[i]?
    if sub.phase = .streaming then
      let follower ← sub.follower.next Event.eventId (originalId (sub.original.getD none))
      return s.setSubscriber i { sub with follower }
    else none
  | .close i => do
    let sub ← s.subscribers[i]?
    return s.setSubscriber i { sub with phase := .closed }

/-! ## What a subscriber is promised -/

/-- The events of the type that are later than the snapshot's. -/
def later (eventType : String) (original : Option Event) : List Event :=
  s.stream.filter fun event => event.eventModel = eventType ∧ originalId original < event.eventId

/-- Nothing is left to be delivered or consumed. -/
def CaughtUp (sub : Subscriber) : Prop :=
  sub.phase = .streaming ∧ s.received = some s.stream.length ∧ sub.follower.queue = []

/-- The subscriber yields the snapshot's event and then the later ones of its type, in order, each once. -/
def Lossless (sub : Subscriber) : Prop :=
  ∀ original, sub.original = some original →
    sub.yielded <+: original :: (s.later sub.eventType original).map some ∧
      (s.CaughtUp sub → sub.yielded = original :: (s.later sub.eventType original).map some)

/-- Events are published with increasing identifiers. -/
def IdsIncrease (s : EventSourced) : EventStateLabel → Prop
  | .apply published _ => published = true → ∀ u ∈ s.updating, ∀ event ∈ u.events.head?, ∀ earlier ∈ s.stream,
      earlier.eventId < event.eventId
  | _ => True

/-- The snapshot that is read reflects each event of the type that the subscriber's queue has missed. -/
def ReadsFresh (s : EventSourced) : EventStateLabel → Prop
  | .read i => ∀ sub ∈ s.subscribers[i]?, sub.phase = .reading →
      ∀ original ∈ s.stored.bind (·.get? sub.eventType), ∀ event ∈ s.stream.take sub.since,
        event.eventModel = sub.eventType → event.eventId ≤ originalId original
  | _ => True

instance (a : EventStateLabel) : Decidable (s.IdsIncrease a) :=
  match a with
  | .apply published _ => inferInstanceAs (Decidable (published = true → ∀ u ∈ s.updating,
      ∀ event ∈ u.events.head?, ∀ earlier ∈ s.stream, earlier.eventId < event.eventId))
  | .recoverOrInit | .update .. | .leave _ | .live | .receive | .subscribe _ | .ready _ | .read _ | .next _
  | .close _ => inferInstanceAs (Decidable True)

instance (a : EventStateLabel) : Decidable (s.ReadsFresh a) :=
  match a with
  | .read i => inferInstanceAs (Decidable (∀ sub ∈ s.subscribers[i]?, sub.phase = .reading →
      ∀ original ∈ s.stored.bind (·.get? sub.eventType), ∀ event ∈ s.stream.take sub.since,
        event.eventModel = sub.eventType → event.eventId ≤ originalId original))
  | .recoverOrInit | .update .. | .apply .. | .leave _ | .live | .receive | .subscribe _ | .ready _ | .next _
  | .close _ => inferInstanceAs (Decidable True)

end EventSourced

end SensorKit.Core.EventState
