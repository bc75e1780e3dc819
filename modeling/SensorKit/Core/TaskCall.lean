import SensorKit.Lib.Run

/-!
# Task calls

A task call sends one task to a controller. The reply says whether the controller has accepted it, and the events of the
long-running request how its execution ends. A follower task waits for the end, requests aborts meanwhile, and a callback
completes the outcome with its result.
-/

namespace SensorKit.Core.TaskCalls

open Lib

variable {ρ ε : Type}

/-! ## The long-running request -/

/-- How `invoke` gets its reply. -/
inductive Reply (ε : Type)
  /-- Accepted, by a response that identifies an execution or does not. -/
  | accepted (execution : Option ε)
  | rejected (execution : Option ε)
  /-- No reply, a failed or unexpected one, or no event stream. -/
  | failed
deriving DecidableEq, Repr

/-- An event of the request, as the event task consumes it. -/
inductive CallEvent (ρ : Type)
  | running
  /-- With its payload, if that is a valid result. -/
  | success (payload : Option ρ)
  | failure
deriving DecidableEq, Repr

/-- How the event task ends: with the end event, by a timeout or another error, or cancelled. -/
inductive EventsEnd (ρ : Type)
  | success (result : ρ)
  | failure
  | lost
  | cancelled
deriving DecidableEq, Repr

inductive EventTask (ρ : Type)
  | none
  | running (started : Bool)
  | ended (end_ : EventsEnd ρ)
deriving DecidableEq, Repr

/-- A `LongCall` once its reply is there. -/
structure LongCall (ρ : Type) where
  task : EventTask ρ := .none
  /-- `_future`, completed by the callback `long_call_done`. -/
  future : Option (EventsEnd ρ) := none
deriving DecidableEq, Repr

namespace LongCall

variable (call : LongCall ρ)

/-- A turn of `_await_response_events`. -/
def consume (event : CallEvent ρ) : Option (LongCall ρ) :=
  match call.task with
  | .running _ => some { call with
      task := match event with
        | .running => .running true
        | .success (some result) => .ended (.success result)
        | .success none => .ended .lost
        | .failure => .ended .failure }
  | _ => none

/-- The event task ends without an end event. -/
def stop (end_ : EventsEnd ρ) : Option (LongCall ρ) :=
  match call.task with
  | .running _ => some { call with task := .ended end_ }
  | _ => none

/-- `long_call_done` -/
def longCallDone : Option (LongCall ρ) :=
  match call.task, call.future with
  | .ended end_, none => some { call with future := some end_ }
  | _, _ => none

/-- What `invoke` waits for after the reply. -/
def returns : Bool :=
  match call.task with
  | .running started => started
  | .ended _ => true
  | .none => false

end LongCall

/-! ## The call -/

inductive Outcome (ρ : Type)
  | result (result : ρ)
  /-- `CallRejected` -/
  | rejected
  /-- `TaskFailed` -/
  | failed (aborted : Bool)
  /-- `TaskOutcomeUnknown` -/
  | unknown
  /-- A holder of the future has cancelled it. -/
  | cancelled
deriving DecidableEq, Repr

/-- How far `send` has come. -/
inductive SendPhase (ε : Type)
  | unsent
  | invoking
  /-- The reply is there, and `invoke` waits for the first event. -/
  | accepted (execution : Option ε)
  | returned (execution : ε)
  | raised
deriving DecidableEq, Repr

/-- How `_follow` ends. -/
inductive FollowEnd (ρ : Type)
  | returned (result : ρ)
  | failed (aborted : Bool)
  | unknown
  | cancelled
deriving DecidableEq, Repr

/-- The follower task, by the await it is at. -/
inductive Follower (ρ : Type)
  | none
  | created
  /-- In `interruptible_wait`. -/
  | waiting (aborted delivered : Bool)
  /-- `interruptible_wait` cleans up, and the result was not done. -/
  | interrupted (aborted delivered : Bool)
  /-- `interruptible_wait` cleans up, and the result was done. -/
  | leaving (aborted : Bool)
  /-- In `_send_abort`. -/
  | sending
  | ended (end_ : FollowEnd ρ) (called : Bool)
deriving DecidableEq, Repr

/-- What becomes of an abort request. -/
inductive AbortEnd
  | accepted
  | failed
  /-- The controller has accepted it, and the reply is lost. -/
  | acceptedLost
deriving DecidableEq, Repr

def AbortEnd.byController : AbortEnd → Bool
  | .accepted | .acceptedLost => true
  | .failed => false

structure TaskCall (ρ ε : Type) where
  phase : SendPhase ε := .unsent
  execution : Option ε := none
  call : LongCall ρ := {}
  outcome : Option (Outcome ρ) := none
  /-- The event `_abort`. -/
  abort : Bool := false
  follower : Follower ρ := .none
  /-- The abort requests that have been sent, and what became of them. -/
  aborts : List AbortEnd := []
deriving DecidableEq, Repr

inductive CallLabel (ρ ε : Type)
  /-- `send` is called, with the controller's events subscribed or not. -/
  | send (ready : Bool)
  | reply (reply : Reply ε)
  /-- The caller is cancelled in `send`. -/
  | cancelSend
  | event (event : CallEvent ρ)
  /-- A deadline passes without an event, or the event task fails. -/
  | loseEvents
  | cancelEvents
  | longCallDone
  /-- `invoke` returns to `send`. -/
  | invoked
  /-- `abort` is called. -/
  | abort
  /-- The follower takes its next step, up to an await. -/
  | follow
  | abortReply (end_ : AbortEnd)
  /-- The follower is cancelled; the controller may have accepted the abort request that it waits for. -/
  | cancelFollower (accepted : Bool)
  /-- The callback `_settle`. -/
  | settle
  /-- A holder cancels the future. -/
  | cancelFuture
deriving DecidableEq, Repr

namespace TaskCall

variable (call : TaskCall ρ ε)

/-- `_settle_outcome` -/
def settleOutcome (outcome : Outcome ρ) : TaskCall ρ ε :=
  if call.outcome.isSome then call else { call with outcome := some outcome }

/-- `send`, up to its first await; it may raise before anything is sent. -/
def send (ready : Bool) : Except String (TaskCall ρ ε) :=
  match call.phase with
  | .unsent => if ready then .ok { call with phase := .invoking } else .error "events are not subscribed"
  | _ => .error "Task call already sent"

/-- How `send` goes on with the reply. -/
def receive : Reply ε → TaskCall ρ ε
  | .accepted execution => { call with phase := .accepted execution, call := { task := .running false } }
  | .rejected execution => { call with phase := .raised, execution }.settleOutcome .rejected
  | .failed => { call with phase := .raised }.settleOutcome .unknown

/-- How `send` goes on once `invoke` has returned. -/
def proceed : Option ε → TaskCall ρ ε
  | none => { call with phase := .raised }.settleOutcome .unknown
  | some execution => { call with phase := .returned execution, execution := some execution, follower := .created }

/-- What `_follow` makes of the result. -/
def conclude (aborted : Bool) : EventsEnd ρ → FollowEnd ρ
  | .success result => .returned result
  | .failure => .failed aborted
  | .lost | .cancelled => .unknown

/-- The loop of `_follow`, from its condition to the next await. -/
def loop (aborted delivered : Bool) : Follower ρ :=
  match call.call.future with
  | some end_ => .ended (conclude aborted end_) false
  | none => if call.abort then .interrupted aborted delivered else .waiting aborted delivered

def step (call : TaskCall ρ ε) : CallLabel ρ ε → Option (TaskCall ρ ε)
  | .send ready =>
    match call.send ready with
    | .error _ => some call
    | .ok call => some call
  | .reply reply =>
    match call.phase with
    | .invoking => some (call.receive reply)
    | _ => none
  | .cancelSend =>
    match call.phase with
    | .invoking | .accepted _ => some ({ call with phase := .raised }.settleOutcome .unknown)
    | _ => none
  | .event event => (call.call.consume event).map fun long => { call with call := long }
  | .loseEvents => (call.call.stop .lost).map fun long => { call with call := long }
  | .cancelEvents => (call.call.stop .cancelled).map fun long => { call with call := long }
  | .longCallDone => call.call.longCallDone.map fun long => { call with call := long }
  | .invoked =>
    match call.phase with
    | .accepted execution => if call.call.returns then some (call.proceed execution) else none
    | _ => none
  | .abort => some { call with abort := true }
  | .follow =>
    match call.follower with
    | .created => some { call with follower := call.loop false false }
    | .waiting aborted delivered =>
      if call.call.future.isSome then some { call with follower := .leaving aborted }
      else if call.abort then some { call with follower := .interrupted aborted delivered }
      else none
    | .interrupted _ delivered =>
      let call := { call with abort := false }
      some { call with follower := if delivered then call.loop true delivered else .sending }
    | .leaving aborted => call.call.future.map fun end_ => { call with follower := .ended (conclude aborted end_) false }
    | _ => none
  | .abortReply end_ =>
    match call.follower with
    | .sending => some { call with aborts := call.aborts ++ [end_], follower := call.loop true (decide (end_ = .accepted)) }
    | _ => none
  | .cancelFollower accepted =>
    match call.follower with
    | .created | .waiting .. | .interrupted .. | .leaving _ => some { call with follower := .ended .cancelled false }
    | .sending => some { call with
        follower := .ended .cancelled false
        aborts := call.aborts ++ [if accepted then .acceptedLost else .failed] }
    | _ => none
  | .settle =>
    match call.follower with
    | .ended end_ false => some ({ call with follower := .ended end_ true }.settleOutcome (match end_ with
        | .returned result => .result result
        | .failed aborted => .failed aborted
        | .unknown | .cancelled => .unknown))
    | _ => none
  | .cancelFuture => if call.outcome.isSome then none else some { call with outcome := some .cancelled }

end TaskCall

end SensorKit.Core.TaskCalls
