import Mathlib.Data.Finset.Basic
import SensorKit.Lib.Lock
import SensorKit.Lib.Run

/-!
# The agent state and its two writers

The agent service holds one `AgentState`. Configure requests change its configuration
(gates, overrides, exclusions); the publication loop refreshes what is observed (schedules,
elected states, runtime). Both hand events to `EventSourcedState.update`, which takes the
update lock and then sets the events one at a time with an await after each.

Both derive their events from the shared state before `update` takes the lock. A step of the
machine runs one task from one await to the next; the lock is handed to its first waiter at
the release, since the woken waiter is ready before any task that starts to wait after it.
Schedules and runtime observations are opaque.
-/

namespace SensorKit.Auto

open Lib

/-- Per-controller operating state: control gate, elected state, and demand override. -/
structure AgentControllerInfo where
  controlEnabled : Bool
  electedState : Option Bool
  demandOverride : Option Bool
deriving DecidableEq, Repr

/-- Event capturing the agent's global control gate and per-controller operating info. -/
structure AgentOperatingState where
  globalControlEnabled : Bool
  controllers : List (String × AgentControllerInfo) := []
deriving DecidableEq, Repr

/-- Event capturing the scheduler gate, program exclusions, and current schedule snapshots. -/
structure AgentSchedulerState (S : Type) where
  schedulingEnabled : Bool
  excludedPrograms : Finset String := ∅
  schedule : List (String × S) := []
deriving DecidableEq

/-- Request payload for the agent configure RPC, specifying partial state changes. -/
structure AgentConfigureRequest where
  globalControlEnabled : Option Bool := none
  controllerControlEnabled : List (String × Bool) := []
  controllerDemandOverride : List (String × Option Bool) := []
  schedulingEnabled : Option Bool := none
  addProgramExclusions : Finset String := ∅
  removeProgramExclusions : Finset String := ∅
deriving DecidableEq

namespace AgentOperatingState

/-- `derive_for_request`. -/
def deriveForRequest (self : AgentOperatingState) (req : AgentConfigureRequest) : AgentOperatingState where
  globalControlEnabled := req.globalControlEnabled.getD self.globalControlEnabled
  controllers := self.controllers.map fun (name, info) =>
    (name,
      { controlEnabled := (req.controllerControlEnabled.lookup name).getD info.controlEnabled
        electedState := info.electedState
        demandOverride := (req.controllerDemandOverride.lookup name).getD info.demandOverride })

/-- `derive_for_status`. -/
def deriveForStatus (self : AgentOperatingState) (votes : List (String × Bool)) : AgentOperatingState where
  globalControlEnabled := self.globalControlEnabled
  controllers := self.controllers.map fun (name, info) =>
    (name, { info with electedState := votes.lookup name })

end AgentOperatingState

namespace AgentSchedulerState

variable {S : Type}

/-- `derive_for_request`. -/
def deriveForRequest (self : AgentSchedulerState S) (req : AgentConfigureRequest) : AgentSchedulerState S where
  schedulingEnabled := req.schedulingEnabled.getD self.schedulingEnabled
  excludedPrograms := (self.excludedPrograms ∪ req.addProgramExclusions) \ req.removeProgramExclusions
  schedule := self.schedule

/-- `derive_for_status`. -/
def deriveForStatus (self : AgentSchedulerState S) (schedule : List (String × S)) : AgentSchedulerState S :=
  { self with schedule }

end AgentSchedulerState

/-- Persisted agent state combining operating, scheduler, and runtime sub-states. -/
structure AgentState (S R : Type) where
  operatingState : AgentOperatingState
  schedulerState : AgentSchedulerState S
  runtimeState : R

/-- An event of one of the three event fields of `AgentState`. -/
inductive AgentEvent (S R : Type) where
  | operating (event : AgentOperatingState)
  | scheduler (event : AgentSchedulerState S)
  | runtime (event : R)

variable {S R : Type}

/-- Set the field an event belongs to, as `_apply` does before it emits the event. -/
def AgentState.set (state : AgentState S R) : AgentEvent S R → AgentState S R
  | .operating event => { state with operatingState := event }
  | .scheduler event => { state with schedulerState := event }
  | .runtime event => { state with runtimeState := event }

/-- The events `_agent_configure_request` hands to `update`. -/
def AgentState.configureEvents (state : AgentState S R) (request : AgentConfigureRequest) :
    List (AgentEvent S R) :=
  [.scheduler (state.schedulerState.deriveForRequest request),
    .operating (state.operatingState.deriveForRequest request)]

/-- The events `publish` hands to `update`, from what it observes. -/
def AgentState.statusEvents (state : AgentState S R) (schedule : List (String × S))
    (votes : List (String × Bool)) (runtime : R) : List (AgentEvent S R) :=
  [.scheduler (state.schedulerState.deriveForStatus schedule),
    .operating (state.operatingState.deriveForStatus votes), .runtime runtime]

/-! ## The service -/

/-- The two tasks that update the state. `_configure_lock` lets one handler update at a time. -/
inductive Writer where
  | handler
  | publisher
deriving DecidableEq, Repr

/-- Progress of one `update` call. -/
inductive Update (S R : Type) where
  /-- Queued for the update lock, with the events already derived. -/
  | waiting (events : List (AgentEvent S R))
  /-- Awaiting the emission of the event set last, with the events still to set. -/
  | emitting (rest : List (AgentEvent S R))
  /-- Awaiting the KV write of the state. -/
  | persisting

/-- The configure handler that holds `_configure_lock`. -/
inductive Handler (S R : Type) where
  | idle
  | updating (request : AgentConfigureRequest) (update : Update S R)
  /-- Applying the snapshot to the virtual operator. -/
  | configuring

/-- The publication loop. -/
inductive Publisher (S R : Type) where
  | sleeping
  /-- Awaiting the publication of `ElectionVotes`. -/
  | publishingVotes
  | updating (update : Update S R)

/-- The agent service: the held and the stored state, the tasks, and the configure requests
whose update has been applied, oldest first. -/
structure Agent (S R : Type) where
  held : AgentState S R
  persisted : AgentState S R
  lock : Lock Writer := {}
  requests : List AgentConfigureRequest := []
  handler : Handler S R := .idle
  publisher : Publisher S R := .sleeping
  applied : List AgentConfigureRequest := []

/-- A service that has started with `state` recovered and stored. -/
def Agent.started (state : AgentState S R) : Agent S R :=
  { held := state, persisted := state }

/-- What happens next. -/
inductive AgentLabel (S R : Type) where
  /-- A configure request arrives. -/
  | request (request : AgentConfigureRequest)
  /-- The next handler takes `_configure_lock`, derives its events and asks for the update lock. -/
  | configure
  /-- The publication loop wakes and starts to publish the votes. -/
  | wake
  /-- The votes are out: the loop derives its status events and asks for the update lock. -/
  | status (schedule : List (String × S)) (votes : List (String × Bool)) (runtime : R)
  /-- The await of a writer that holds the update lock completes. -/
  | resume (writer : Writer)
  /-- The operator has been configured from the snapshot. -/
  | configured

namespace Agent

variable (s : Agent S R)

/-- The update a writer has in progress. -/
def update : Writer → Option (Update S R)
  | .handler => match s.handler with
    | .updating _ u => some u
    | _ => none
  | .publisher => match s.publisher with
    | .updating u => some u
    | _ => none

/-- Record the progress of a writer's update. -/
def setUpdate (w : Writer) (u : Update S R) : Agent S R :=
  match w, s.handler with
  | .handler, .updating request _ => { s with handler := .updating request u }
  | .handler, _ => s
  | .publisher, _ => { s with publisher := .updating u }

/-- A writer that has the lock sets its next event, or starts to store the state. -/
def advance (w : Writer) : List (AgentEvent S R) → Agent S R
  | [] => s.setUpdate w .persisting
  | event :: rest => { s with held := s.held.set event }.setUpdate w (.emitting rest)

/-- The holder of the lock, if it is still queued, starts to apply its events. -/
def enter : Agent S R :=
  match s.lock.holder with
  | some w => match s.update w with
    | some (.waiting events) => s.advance w events
    | _ => s
  | none => s

/-- The end of a writer's `update`: the request counts as applied and the task goes on. -/
def finish : Writer → Agent S R
  | .handler => match s.handler with
    | .updating request _ => { s with handler := .configuring, applied := s.applied ++ [request] }
    | _ => s
  | .publisher => { s with publisher := .sleeping }

/-- One step of the service. -/
def step (s : Agent S R) : AgentLabel S R → Option (Agent S R)
  | .request request => some { s with requests := s.requests ++ [request] }
  | .configure =>
    match s.handler, s.requests with
    | .idle, request :: rest =>
      some { s with
        requests := rest
        handler := .updating request (.waiting (s.held.configureEvents request))
        lock := s.lock.acquire .handler }.enter
    | _, _ => none
  | .wake =>
    match s.publisher with
    | .sleeping => some { s with publisher := .publishingVotes }
    | _ => none
  | .status schedule votes runtime =>
    match s.publisher with
    | .publishingVotes =>
      some { s with
        publisher := .updating (.waiting (s.held.statusEvents schedule votes runtime))
        lock := s.lock.acquire .publisher }.enter
    | _ => none
  | .resume w =>
    match s.update w with
    | some (.emitting rest) => some (s.advance w rest)
    | some .persisting =>
      some ({ s.finish w with persisted := s.held, lock := s.lock.release }.enter)
    | _ => none
  | .configured =>
    match s.handler with
    | .configuring => some { s with handler := .idle }
    | _ => none

end Agent

end SensorKit.Auto
