import SensorKit.Core.ProgramOrder

/-!
# Observing a tasking session

`ProgramTaskingMonitor` buffers the program's events from its subscription on. Once it is bound to a session it observes
the snapshot read meanwhile, and then the buffered events and the later ones, in order. The cleared and the inactive
events do not name their session.
-/

namespace SensorKit.Core.Tasking

open Lib

structure ProgramTaskingMonitor where
  /-- How many of the program's events its queue has missed. -/
  since : ℕ
  /-- How many events it has passed. -/
  position : ℕ := since
  /-- What was read after subscribing, if anything was stored. -/
  initial : Option ProgramState := none
  prepared : Bool := false
  sessionId : Option ℕ := none
  loopState : Option TaskingLoopState := none
  executionState : Option String := none
  ending : Option ProgramActiveState := none
  current : Option ℕ := none
  currentAfter : ℕ := 0
  /-- The states that `read_events` and `events` have returned. -/
  returned : List ProgramTaskingState := []
deriving DecidableEq, Repr

namespace ProgramTaskingMonitor

variable (m : ProgramTaskingMonitor)

/-- The retained fault, if reported. -/
def fault : Option TaskingLoopState :=
  m.loopState.filter (·.fault ≠ none)

/-- `_report`: retain the first fault. -/
def report (state : TaskingLoopState) (executionState : Option String) : ProgramTaskingMonitor :=
  { m with loopState := if m.fault = none then some state else m.loopState, executionState }

/-- `_observe`: update the selected session from one ordered event. -/
def observe (session : ℕ) (event : Event) : ProgramTaskingMonitor × Option ProgramTaskingState :=
  if m.ending ≠ none then (m, none)
  else
    match event with
    | .tasking event =>
      match event.loopState with
      | some state =>
        let m := { m with current := some state.sessionId, currentAfter := event.eventId }
        if state.sessionId = session then (m.report state event.executionState, some event) else (m, none)
      | none =>
        if m.current = some session ∧ m.currentAfter < event.eventId then
          -- Keep the final execution report after the live session clears.
          ({ m with executionState := event.executionState }, some event)
        else (m, none)
    | .active event =>
      if event.active = true ∧ event.stopping = false ∧ m.currentAfter < event.eventId then
        -- The next report identifies the newly active session.
        ({ m with current := none, currentAfter := event.eventId }, none)
      else if event.active = false ∧ m.current = some session ∧ m.currentAfter < event.eventId then
        ({ m with ending := some event }, none)
      else (m, none)
    | .enable _ => (m, none)

/-- `bind`: select a session and observe the snapshot. -/
def bind (session : ℕ) : ProgramTaskingMonitor :=
  let m := { m with sessionId := some session }
  match m.initial with
  | some initial => (m.observe session (.tasking initial.taskingState)).1
  | none => m

/-- Process one event of the queue. -/
def next (session : ℕ) (event : Event) : ProgramTaskingMonitor :=
  let observed := { m with position := m.position + 1 }.observe session event
  { observed.1 with returned := observed.1.returned ++ observed.2.toList }

end ProgramTaskingMonitor

/-! ## The system -/

structure Observed where
  impl : ProgramImpl := {}
  monitors : List ProgramTaskingMonitor := []

inductive ObservedLabel where
  | program (label : ProgramLabel)
  /-- A monitor is constructed. Events that have been published may still be on their way to it. -/
  | subscribe (since : ℕ)
  /-- `prepare` reads the program's state. -/
  | read (i : ℕ)
  | bind (i : ℕ) (session : ℕ)
  | next (i : ℕ)
deriving DecidableEq, Repr

namespace Observed

variable (s : Observed)

def setMonitor (i : ℕ) (m : ProgramTaskingMonitor) : Observed :=
  { s with monitors := s.monitors.set i m }

def step (s : Observed) : ObservedLabel → Option Observed
  | .program label => do
    let impl ← s.impl.step label
    return { s with impl }
  | .subscribe since =>
    if since ≤ s.impl.stream.length then some { s with monitors := s.monitors ++ [{ since }] } else none
  | .read i => do
    let m ← s.monitors[i]?
    if m.sessionId = none ∧ m.prepared = false then
      return s.setMonitor i { m with initial := s.impl.stored, prepared := true }
    else none
  | .bind i session => do
    let m ← s.monitors[i]?
    if m.sessionId = none then return s.setMonitor i (m.bind session) else none
  | .next i => do
    let m ← s.monitors[i]?
    let session ← m.sessionId
    let event ← s.impl.stream[m.position]?
    return s.setMonitor i (m.next session event)

/-- Events have increasing identifiers. -/
def IdsIncrease (s : Observed) : ObservedLabel → Prop
  | .program (.enter eventId) => ∀ event ∈ s.impl.entered, event.eventId < eventId
  | _ => True

instance (label : ObservedLabel) : Decidable (s.IdsIncrease label) :=
  match label with
  | .program (.enter eventId) => inferInstanceAs (Decidable (∀ event ∈ s.impl.entered, event.eventId < eventId))
  | .program (.init ..) | .program .crash | .program (.emit ..) | .program (.put ..) | .program (.cancel _)
  | .program (.start _) | .program .startResumes | .program .startReturns | .program (.stop ..)
  | .program (.setEnableState _) | .program .enableResumes | .program .hooksReturn | .program (.advance ..)
  | .program (.fail ..) | .program (.execute ..) | .program (.report _) | .program (.producerExits _)
  | .program (.finalize ..) | .program (.clear _) | .subscribe _ | .read _ | .bind .. | .next _ =>
    inferInstanceAs (Decidable True)

end Observed

/-! ## What a monitor is promised -/

namespace Event

/-- The event begins a session, or reports its progress. -/
def announces : Event → Bool
  | .active event => event.active && !event.stopping
  | .tasking event => event.loopState.isSome
  | .enable _ => false

/-- The event ends a session, or clears its progress. -/
def closes : Event → Bool
  | .active event => !event.active
  | .tasking event => event.loopState.isNone
  | .enable _ => false

end Event

/-- A session is announced on the stream before it is cleared or ended. -/
def Announced (stream : List Event) : Prop :=
  ∀ i, (h : i < stream.length) → stream[i].closes = true →
    ∃ earlier ∈ stream.take i, earlier.announces = true ∧ earlier.session = stream[i].session

instance (stream : List Event) : Decidable (Announced stream) :=
  inferInstanceAs (Decidable (∀ i, (h : i < stream.length) → stream[i].closes = true →
    ∃ earlier ∈ stream.take i, earlier.announces = true ∧ earlier.session = stream[i].session))

/-- What a monitor that is bound to the session says is about that session. -/
structure Attributed (stream : List Event) (session : ℕ) (m : ProgramTaskingMonitor) : Prop where
  returned : ∀ state ∈ m.returned, state.session = some session
  /-- The fault is what every report of the session with a fault says. -/
  fault : ∀ fault, m.fault = some fault → fault.sessionId = session ∧
    ∀ state loopState, .tasking state ∈ stream → state.loopState = some loopState → loopState.sessionId = session →
      loopState.fault ≠ none → loopState = fault
  /-- A fault that has been returned is retained. -/
  retained : ∀ state ∈ m.returned, ∀ loopState, state.loopState = some loopState → loopState.fault ≠ none →
    m.fault = some loopState
  /-- The ending is the first inactive event of the session. -/
  ending : ∀ state, m.ending = some state → state.active = false ∧ state.session = some session ∧
    ∃ before after, stream = before ++ .active state :: after ∧
      ∀ other, .active other ∈ before → other.active = false → other.session ≠ some session

/-- The monitor takes nothing back. -/
structure ProgramTaskingMonitor.Keeps (m m' : ProgramTaskingMonitor) : Prop where
  sessionId : m.sessionId ≠ none → m'.sessionId = m.sessionId
  fault : m.fault ≠ none → m'.fault = m.fault
  ending : m.ending ≠ none → m'.ending = m.ending

end SensorKit.Core.Tasking
