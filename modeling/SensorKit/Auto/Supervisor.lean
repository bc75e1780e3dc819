import SensorKit.Auto.Failure
import SensorKit.Core.ControllerState
import SensorKit.Lib.Run
import SensorKit.Lib.Trace

/-!
# State supervision

A supervisor compares the state a controller reports with the one that lifecycle procedures expect. Monitor
updates reach it through a background loop and fresh reads through the procedures, so events come in any order
and the same comparison runs from several places.

The machine is the supervisor with the clock of its event loop and a log of what it has done. A label is a
segment of code between two awaits: one turn of the loop, a read that has returned, or a change of the
expectation. The log is history only: no definition reads it.
-/

namespace SensorKit.Auto

open Lib SensorKit.Core

variable {K : Type}

/-- Controller states that can satisfy a normal lifecycle demand. -/
def settledStates : List InternalControllerState :=
  [.operate, .standby, .shutdown]

/-- An operating state with the id of the event that published it. -/
structure StateEvent (K : Type) where
  eventId : ℕ
  state : ControllerOperatingState K
deriving DecidableEq, Repr

/-- The operating state that the event published. -/
abbrev StateEvent.current (event : StateEvent K) : InternalControllerState :=
  event.state.current

/-- `matches`: the reported state and context match, with no transition pending. -/
def StateEvent.matchesState [DecidableEq K] (event : StateEvent K) (state : InternalControllerState) (context : K) :
    Bool :=
  event.current = state && event.state.target.isNone && event.state.context = context

/-- What supervision did. -/
inductive Entry (K : Type) where
  /-- An expectation was established at a time of the event loop. -/
  | established (expected : InternalControllerState) (time : ℚ)
  /-- The newest state was compared with the expectation. -/
  | processed (event : StateEvent K) (time : ℚ)
  /-- A controller failure was recorded. -/
  | failure (time : ℚ)
deriving DecidableEq, Repr

/-- Which failure a message tells of. -/
inductive Departure where
  /-- The controller left a settled expected state. -/
  | left (expected actual : InternalControllerState)
  /-- The controller reported no transition for longer than the grace period. -/
  | overdue (actual : InternalControllerState) (grace : ℚ)

/-- The text of the failure. -/
def Departure.message (entity : String) : Departure → String
  | .left expected actual => s!"{entity} left {expected.value} ({actual.value})"
  | .overdue actual grace =>
    s!"{entity} reported {actual.value} for longer than {grace} s during a lifecycle task"

/-- A subscriber's queue, which retains only the latest state, and what the subscriber has taken from it. -/
structure Subscriber (K : Type) where
  /-- Its queue is among the observer's. -/
  subscribed : Bool := true
  queued : Option (StateEvent K) := none
  seen : List (StateEvent K) := []
deriving DecidableEq, Repr

/-- Put a value into the queue, which drops the one that it holds. -/
def Subscriber.put (subscriber : Subscriber K) (event : StateEvent K) : Subscriber K :=
  if subscriber.subscribed then { subscriber with queued := some event } else subscriber

/-- Take what the queue holds. -/
def Subscriber.take (subscriber : Subscriber K) : Subscriber K :=
  { subscriber with queued := none, seen := subscriber.seen ++ subscriber.queued.toList }

/-- Detect controller states that differ from the state lifecycle procedures expect. -/
structure ControllerStateSupervisor (K : Type) where
  entity : String
  transitionGrace : ℚ
  positive : 0 < transitionGrace
  failureState : FailureState
  /-- None before the first settled controller state. -/
  expected : Option InternalControllerState := none
  deadline : Option ℚ := none
  observedState : Option (StateEvent K) := none
  failed : Bool := false
  /-- Supervision has ended. -/
  ended : Bool := false
  subscribers : List (Subscriber K) := []
  /-- The time of the event loop. -/
  now : ℚ := 0
  log : List (Entry K) := []
deriving DecidableEq, Repr

namespace ControllerStateSupervisor

variable (s : ControllerStateSupervisor K)

/-- `_fail`: record one controller failure and invalidate the local expectation. -/
def fail (departure : Departure) : ControllerStateSupervisor K :=
  { s with
    expected := some .unknown
    deadline := none
    failureState := s.failureState.recordFailure s.now (departure.message s.entity)
    failed := true
    log := s.log ++ [.failure s.now] }

/-- What `_evaluate` does with a pending deadline once it knows whether the state matched. -/
def await (actual : InternalControllerState) (matched : Bool) : ControllerStateSupervisor K :=
  if matched then { s with deadline := none }
  else
    match s.deadline with
    | none => { s with deadline := some (s.now + s.transitionGrace) }
    | some deadline => if deadline ≤ s.now then s.fail (.overdue actual s.transitionGrace) else s

/-- `_evaluate`: compare the latest received controller state with the expected state. -/
def evaluate (actual : ControllerOperatingState K) : ControllerStateSupervisor K :=
  match s.expected with
  | none =>
    if actual.current ∈ settledStates ∧ actual.target = none then
      { s with expected := some actual.current, log := s.log ++ [.established actual.current s.now] }
    else s
  | some .unknown => s
  | some .transition => s.await actual.current (actual.current = .transition)
  | some expected =>
    if actual.current ≠ expected then s.fail (.left expected actual.current) else s.await actual.current true

/-- `notify`: every subscribed queue retains only the latest state. -/
def notify (event : StateEvent K) : ControllerStateSupervisor K :=
  { s with subscribers := s.subscribers.map fun subscriber => subscriber.put event }

/-- Whether the event is newer than what has been processed. -/
def newer (event : StateEvent K) : Bool :=
  match s.observedState with
  | none => true
  | some current => current.eventId < event.eventId

/-- Compare the newest state with the expectation. -/
def compare (newest : StateEvent K) : ControllerStateSupervisor K :=
  let observed := { s with observedState := some newest, log := s.log ++ [Entry.processed newest s.now] }
  observed.evaluate newest.state

/-- `_process_state`: accept newer state updates and compare the processed state with the expectation. -/
def processState (state : Option (StateEvent K)) : ControllerStateSupervisor K :=
  let accepted := state.filter s.newer
  match accepted.or s.observedState with
  | none => s
  | some newest =>
    let compared := s.compare newest
    match accepted with
    | some event => compared.notify event
    | none => compared

/-- `_expect`. -/
def expect (state : InternalControllerState) : ControllerStateSupervisor K :=
  { s with
    expected := some state
    deadline := none
    failed := if s.ended then s.failed else false
    log := s.log ++ [.established state s.now] }

/-- `expect_transition`. -/
def expectTransition : ControllerStateSupervisor K :=
  s.expect .transition

/-- `invalidate`: set the expectation to UNKNOWN until another lifecycle command or confirmation. -/
def invalidate : ControllerStateSupervisor K :=
  s.expect .unknown

/-- `refresh`, from the moment that its read has returned. -/
def refresh (snapshot : StateEvent K) : ControllerStateSupervisor K :=
  s.processState (some snapshot)

section Matching

variable [DecidableEq K]

/-- The newest processed state and its context match. -/
def matchesState (state : InternalControllerState) (context : K) : Bool :=
  s.observedState.any fun event => event.matchesState state context

/-- `verify`, from the moment that its read has returned, with whether it raised. -/
def verify (snapshot : StateEvent K) (state : InternalControllerState) (context : K) :
    ControllerStateSupervisor K × Bool :=
  let read := s.refresh snapshot
  if read.matchesState state context then (read, false) else (read.invalidate, true)

/-- `confirm`, from the moment that its read has returned. -/
def confirm (snapshot : StateEvent K) (state : InternalControllerState) (context : K) :
    ControllerStateSupervisor K :=
  let (verified, raised) := s.verify snapshot state context
  if raised then verified else verified.expect state

/-- `settled`: controller state and context match a valid local expectation. -/
def settled (state : InternalControllerState) (context : K) : Bool :=
  (s.expected = none || s.expected = some state) && s.matchesState state context

end Matching

end ControllerStateSupervisor

/-- What happens next. -/
inductive SupervisionLabel (K : Type) where
  /-- Time passes. -/
  | elapse (d : ℚ)
  /-- The loop takes an update from the monitor's queue. -/
  | update (event : StateEvent K)
  /-- The loop wakes without one, after an expectation change or the expiry of a grace period. -/
  | wake
  /-- A read of `refresh` has returned. -/
  | refresh (snapshot : StateEvent K)
  /-- A read of `verify` has returned. -/
  | verify (snapshot : StateEvent K) (state : InternalControllerState) (context : K)
  /-- A read of `confirm` has returned. Procedures confirm the targets of their lifecycle tasks. -/
  | confirm (snapshot : StateEvent K) (state : { state // state ∈ settledStates }) (context : K)
  /-- A lifecycle task is about to be sent. -/
  | expectTransition
  /-- A procedure ended with an unconfirmed task, or a read of `verify` failed or was canceled. -/
  | invalidate
  | subscribe
  /-- A subscriber takes what its queue holds. -/
  | receive (i : ℕ)
  /-- A subscriber leaves the observer, and may still read what its queue holds. -/
  | unsubscribe (i : ℕ)
  /-- The reactor and its procedures count and clear failures of their own. -/
  | react (failureState : FailureState)
  /-- The background loop ended. -/
  | close

/-- One segment, if it can come next: nothing is processed once supervision has ended. -/
def ControllerStateSupervisor.step [DecidableEq K] (s : ControllerStateSupervisor K) :
    SupervisionLabel K → Option (ControllerStateSupervisor K)
  | .elapse d => if 0 ≤ d then some { s with now := s.now + d } else none
  | .update event => if s.ended then none else some (s.processState (some event))
  | .wake => if s.ended then none else some (s.processState none)
  | .refresh snapshot => if s.ended then none else some (s.refresh snapshot)
  | .verify snapshot state context => if s.ended then none else some (s.verify snapshot state context).1
  | .confirm snapshot state context => if s.ended then none else some (s.confirm snapshot state context)
  | .expectTransition => some s.expectTransition
  | .invalidate => some s.invalidate
  | .subscribe => if s.ended then none else some { s with subscribers := s.subscribers ++ [{}] }
  | .receive i => some { s with subscribers := s.subscribers.modify i Subscriber.take }
  | .unsubscribe i =>
    some { s with subscribers := s.subscribers.modify i fun subscriber => { subscriber with subscribed := false } }
  | .react failureState => some { s with failureState }
  | .close => some { s with ended := true, failed := true }

/-- A supervisor as it starts, with the failure history it shares and the time at which it starts. -/
def ControllerStateSupervisor.start (K : Type) (entity : String) (transitionGrace : ℚ)
    (positive : 0 < transitionGrace) (failureState : FailureState) (now : ℚ) : ControllerStateSupervisor K where
  entity
  transitionGrace
  positive
  failureState
  now

end SensorKit.Auto
