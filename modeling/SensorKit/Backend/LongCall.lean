import SensorKit.Lib.Indexed
import SensorKit.Lib.Run

/-!
# Long-running calls

A request is answered by one reply. The handler of an accepted call goes on, and publishes events on the entity's
stream; a callback fails a call whose handler has exited without finalizing it. The caller follows the stream for events
that carry its call's id. Calls are known by their position; so their ids are distinct.
-/

namespace SensorKit.Backend.LongCalls

open Lib

/-! ## The handler's side -/

/-- What a handler answers, by `accept` or `reject`. -/
inductive Response where
  | accepted
  | rejected
deriving DecidableEq, Repr

/-- `CallReply.state`, for a long-running request. -/
inductive ReplyState where
  | responded (response : Response)
  | failed
deriving DecidableEq, Repr

/-- `CallEvent.call_state`. -/
inductive CallState where
  | running
  | success
  | failure
deriving DecidableEq, Repr

/-- A call of `publish_event`, which may fail and deliver its event all the same. -/
structure Publication where
  state : CallState
  /-- Whether it has succeeded, once it has returned. -/
  outcome : Option Bool := none
  delivered : Bool := false
deriving DecidableEq, Repr

namespace Publication

/-- An end event. -/
def Ends (p : Publication) : Prop :=
  p.state ≠ .running

def Published (p : Publication) : Prop :=
  p.outcome = some true

instance (p : Publication) : Decidable p.Ends :=
  inferInstanceAs (Decidable (p.state ≠ .running))

instance (p : Publication) : Decidable p.Published :=
  inferInstanceAs (Decidable (p.outcome = some true))

end Publication

inductive HandlerTask where
  /-- The request was malformed, or came too late. -/
  | notStarted
  | running
  | exited (cancelled : Bool)
deriving DecidableEq, Repr

/-- What becomes of a call that the handler has left. -/
inductive FailureTask where
  | none
  /-- The callback had nothing to fail. -/
  | skipped
  | created
  | publishing (publication : ℕ)
  | ended (publication : Option ℕ)
deriving DecidableEq, Repr

/-- A request at its handler, with the `CallContext`. -/
structure HandledCall where
  caller : ℕ
  handler : HandlerTask
  /-- `context.reply`. -/
  reply : Option Response := none
  finalized : Bool := false
  /-- What `CallHandler` has returned. -/
  sent : Option ReplyState := none
  failure : FailureTask := .none
  publications : List Publication := []
deriving DecidableEq, Repr

namespace HandledCall

variable (call : HandledCall)

/-- `_respond`. A second response raises. -/
def respond (response : Response) : Option HandledCall :=
  if call.reply = none ∧ call.handler ≠ .notStarted then
    some { call with reply := some response, finalized := call.finalized || response = .rejected }
  else none

/-- `_call_event`, up to its await; it raises before the response, and after the end. -/
def callEvent (state : CallState) : Option HandledCall :=
  if call.reply.isSome ∧ call.finalized = false then
    some { call with publications := call.publications ++ [{ state }] }
  else none

/-- `run_long_call` has an answer: the handler's, or that it has exited without one. -/
def answer : Option ReplyState :=
  match call.reply, call.handler with
  | some response, .running | some response, .exited _ => some (.responded response)
  | none, .exited _ => some .failed
  | _, _ => none

/-- `_fail_abandoned_call`. -/
def failAbandoned (cancelled : Bool) : HandledCall :=
  { call with failure := if cancelled ∨ call.finalized then .skipped else .created }

/-- The first step of the failure task: `context.fail`. -/
def runFailure : HandledCall :=
  match call.callEvent .failure with
  | some call' => { call' with failure := .publishing call.publications.length }
  | none => { call with failure := .ended none }

/-- `publish_event` returns to `_call_event`. -/
def publishReturns (p : ℕ) (publication : Publication) (ok : Bool) : HandledCall :=
  { call with
    publications := call.publications.set p { publication with outcome := some ok }
    finalized := call.finalized || ok && publication.state != .running
    failure := if call.failure = .publishing p then .ended (some p) else call.failure }

end HandledCall

/-! ## The caller's side -/

inductive Outcome where
  /-- With the end event at that position of the stream. -/
  | ended (call position : ℕ)
  /-- By a reply that does not accept the call. -/
  | refused
  | timeout
  /-- The stream is lost, or the caller is cancelled. -/
  | lost
deriving DecidableEq, Repr

inductive CallerPhase where
  /-- The request is sent, and has arrived as that call. -/
  | requested (call : Option ℕ)
  | following (call : ℕ)
  | settled (outcome : Outcome)
deriving DecidableEq, Repr

/-- A `LongCall`. Its queue holds the events from `consumed` up to `received`. -/
structure Caller where
  /-- The position of the client's subscription when the queue was registered. -/
  since : ℕ
  received : ℕ := since
  consumed : ℕ := since
  phase : CallerPhase := .requested none
deriving DecidableEq, Repr

/-! ## The system -/

structure Calls where
  calls : List HandledCall := []
  /-- The replies that have been sent, by their calls. -/
  replies : List (ℕ × ReplyState) := []
  /-- The entity's event stream: a call, and which of its publications. -/
  stream : List (ℕ × ℕ) := []
  callers : List Caller := []
deriving DecidableEq, Repr

inductive Arrival where
  | valid
  | late
  | malformed
deriving DecidableEq, Repr

inductive CallLabel where
  /-- The queue is registered, and the request sent. -/
  | invoke (since : ℕ)
  | arrive (i : ℕ) (arrival : Arrival)
  | respond (c : ℕ) (response : Response)
  | exit (c : ℕ) (cancelled : Bool)
  /-- The reply is returned, and sent. -/
  | serve (c : ℕ)
  | callback (c : ℕ)
  | publish (c : ℕ) (state : CallState)
  | runFailure (c : ℕ)
  | deliver (c p : ℕ)
  | publishReturns (c p : ℕ) (ok : Bool)
  | receiveReply (i : ℕ)
  /-- The next event of the stream is put into the caller's queue. -/
  | receive (i : ℕ)
  | next (i : ℕ)
  | giveUp (i : ℕ) (timeout : Bool)
deriving DecidableEq, Repr

namespace Calls

variable (s : Calls)

def setCall (c : ℕ) (call : HandledCall) : Calls :=
  { s with calls := s.calls.set c call }

def setCaller (i : ℕ) (caller : Caller) : Calls :=
  { s with callers := s.callers.set i caller }

def publication? (c p : ℕ) : Option Publication := do
  let call ← s.calls[c]?
  call.publications[p]?

/-- The state that the event at a position of the stream reports for a call, if it carries its id. -/
def reports (c position : ℕ) : Option CallState :=
  match s.stream[position]? with
  | some (c', p) => if c' = c then (s.publication? c p).map (·.state) else none
  | none => none

/-- A turn of `_await_response_events`. -/
def follow (c : ℕ) (caller : Caller) : Caller :=
  let caller' := { caller with consumed := caller.consumed + 1 }
  match s.reports c caller.consumed with
  | some .success | some .failure => { caller' with phase := .settled (.ended c caller.consumed) }
  | some .running | none => caller'

def step (s : Calls) : CallLabel → Option Calls
  | .invoke since =>
    if since ≤ s.stream.length then some { s with callers := s.callers ++ [{ since }] } else none
  | .arrive i arrival => do
    let caller ← s.callers[i]?
    if caller.phase = .requested none then
      let s := s.setCaller i { caller with phase := .requested (some s.calls.length) }
      match arrival with
      | .valid => return { s with calls := s.calls ++ [{ caller := i, handler := .running }] }
      | .late => return { s with
          calls := s.calls ++ [{ caller := i, handler := .notStarted, sent := some (.responded .rejected) }]
          replies := s.replies ++ [(s.calls.length, .responded .rejected)] }
      | .malformed => return { s with
          calls := s.calls ++ [{ caller := i, handler := .notStarted, sent := some .failed }]
          replies := s.replies ++ [(s.calls.length, .failed)] }
    else none
  | .respond c response => do
    let call ← s.calls[c]?
    let call ← call.respond response
    return s.setCall c call
  | .exit c cancelled => do
    let call ← s.calls[c]?
    if call.handler = .running then return s.setCall c { call with handler := .exited cancelled } else none
  | .serve c => do
    let call ← s.calls[c]?
    if call.sent = none then
      let reply ← call.answer
      return { s with replies := s.replies ++ [(c, reply)] }.setCall c { call with sent := some reply }
    else none
  | .callback c => do
    let call ← s.calls[c]?
    match call.sent, call.handler, call.failure with
    | some (.responded _), .exited cancelled, .none => return s.setCall c (call.failAbandoned cancelled)
    | _, _, _ => none
  | .publish c state => do
    let call ← s.calls[c]?
    let call ← call.callEvent state
    return s.setCall c call
  | .runFailure c => do
    let call ← s.calls[c]?
    if call.failure = .created then return s.setCall c call.runFailure else none
  | .deliver c p => do
    let call ← s.calls[c]?
    let publication ← call.publications[p]?
    if publication.delivered then none
    else
      let call := { call with publications := call.publications.set p { publication with delivered := true } }
      return { s with stream := s.stream ++ [(c, p)] }.setCall c call
  | .publishReturns c p ok => do
    let call ← s.calls[c]?
    let publication ← call.publications[p]?
    if publication.outcome = none ∧ (ok → publication.delivered) then
      return s.setCall c (call.publishReturns p publication ok)
    else none
  | .receiveReply i => do
    let caller ← s.callers[i]?
    match caller.phase with
    | .requested (some c) =>
      let reply ← s.replies.find? (·.1 = c)
      let phase := if reply.2 = .responded .accepted then CallerPhase.following c else .settled .refused
      return s.setCaller i { caller with phase }
    | _ => none
  | .receive i => do
    let caller ← s.callers[i]?
    if caller.received < s.stream.length then return s.setCaller i { caller with received := caller.received + 1 }
    else none
  | .next i => do
    let caller ← s.callers[i]?
    match caller.phase with
    | .following c => if caller.consumed < caller.received then return s.setCaller i (s.follow c caller) else none
    | _ => none
  | .giveUp i timeout => do
    let caller ← s.callers[i]?
    match caller.phase with
    | .settled _ => none
    | _ => return s.setCaller i { caller with phase := .settled (if timeout then .timeout else .lost) }

/-! ## The protocol -/

/-- An end event of the call is on the stream, and its publication has succeeded. -/
def Ended (c : ℕ) : Prop :=
  ∃ p publication, s.publication? c p = some publication ∧ publication.Ends ∧ publication.Published ∧ (c, p) ∈ s.stream

/-- The failure of a call that was abandoned is on its way: the callback may run, or the failure task. -/
def FailureDue (c : ℕ) (call : HandledCall) : Prop :=
  (s.step (.callback c)).isSome = true ∨ call.failure = .created ∨ ∃ p, call.failure = .publishing p

structure Protocol (s : Calls) : Prop where
  /-- A request is handled as one call, which gets one reply once there is an answer. -/
  handledOnce : ∀ (c c' : ℕ) call call', s.calls[c]? = some call → s.calls[c']? = some call' →
    call.caller = call'.caller → c = c'
  replies : ∀ (c : ℕ) call, s.calls[c]? = some call →
    (s.replies.filter (·.1 = c)).length = (if call.sent = none then 0 else 1)
  answered : ∀ (c : ℕ) call, s.calls[c]? = some call → call.sent = none →
    call.handler = .running ∧ call.reply = none ∨ (s.step (.serve c)).isSome = true
  /-- Only accepted calls have events. -/
  accepted : ∀ c p, (c, p) ∈ s.stream → ∃ call, s.calls[c]? = some call ∧ call.reply = some .accepted
  /-- After a published end event there are no events but those whose publication has failed. -/
  ended : ∀ (i j : ℕ) c p q first later, s.stream[i]? = some (c, p) → s.stream[j]? = some (c, q) → i < j →
    s.publication? c p = some first → s.publication? c q = some later → first.Ends → first.Published →
      later.outcome = some false
  /-- An accepted call that its handler leaves gets an end event, unless the publication of its failure fails. -/
  abandoned : ∀ (c : ℕ) call, s.calls[c]? = some call → call.sent = some (.responded .accepted) →
    call.handler = .exited false → s.FailureDue c call ∨ s.Ended c ∨
      ∃ p publication, call.failure = .ended (some p) ∧ s.publication? c p = some publication ∧
        publication.state = .failure ∧ publication.outcome = some false
  /-- A caller that settles with an end event does so with the first one of its own call. -/
  settles : ∀ (i : ℕ) caller c position, s.callers[i]? = some caller →
    caller.phase = .settled (.ended c position) →
      (∃ call, s.calls[c]? = some call ∧ call.caller = i) ∧ (∃ state, s.reports c position = some state ∧ state ≠ .running) ∧
        ∀ before < position, ∀ state, s.reports c before = some state → state = .running
  /-- A caller that follows its call has passed over no end event of it. -/
  follows : ∀ (i : ℕ) caller c, s.callers[i]? = some caller → caller.phase = .following c →
    (∃ call, s.calls[c]? = some call ∧ call.caller = i) ∧
      ∀ before < caller.consumed, ∀ state, s.reports c before = some state → state = .running

/-- The handler's tasks and the failure task publish one event of a call after the other. -/
def OneByOne (s : Calls) : CallLabel → Prop
  | .publish c _ | .runFailure c => ∀ call ∈ s.calls[c]?, ∀ publication ∈ call.publications, publication.outcome ≠ none
  | _ => True

instance (a : CallLabel) : Decidable (s.OneByOne a) :=
  match a with
  | .publish c _ | .runFailure c => inferInstanceAs (Decidable (∀ call ∈ s.calls[c]?,
      ∀ publication ∈ call.publications, publication.outcome ≠ none))
  | .invoke _ | .arrive .. | .respond .. | .exit .. | .serve _ | .callback _ | .deliver .. | .publishReturns ..
  | .receiveReply _ | .receive _ | .next _ | .giveUp .. => inferInstanceAs (Decidable True)

end Calls

end SensorKit.Backend.LongCalls
