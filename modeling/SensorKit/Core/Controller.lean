import Mathlib.Logic.Function.Basic
import SensorKit.Core.ControllerState
import SensorKit.Lib.Lock
import SensorKit.Lib.Run

/-!
# The controller's task runs

A controller runs one task at a time. An execute request is admitted under the update lock of
the published state; the run it starts stops the run it interrupts, waits for it to end,
publishes its start, calls the handler, and publishes its finish and what the task did to the
operating state. Aborts, reported states, enable requests and context updates ask for the same
lock.

A step of the machine takes one asyncio task from one await to the next. The lock is handed
over in the order in which it was asked for, and its holder goes on in a step of its own. What
a step of the event loop may do before another is left open, with one exception that the code
rests on: tasks take their first steps in the order in which they were created. A start is
published by a task that is created for it, so it is not out before every runner created
earlier has taken its first step.
-/

namespace SensorKit.Core

open Lib

/-! ## Task runs -/

/-- Progress of a task run, as the code records it. -/
inductive TaskRunPhase where
  | received
  | interrupting
  | executing
  | finished
deriving DecidableEq, Repr

/-- How a coroutine ends: it returns, raises an error with the given text, or is cancelled. -/
inductive Outcome where
  | succeeded
  | failed (message : String)
  | cancelled
deriving DecidableEq, Repr

/-- Where a runner is in `_run_execution`. -/
inductive RunnerStage where
  /-- Before its first step. -/
  | received
  /-- Waiting for its predecessor's runner. -/
  | joining
  /-- Waiting for the update lock to publish its start. -/
  | startWaiting
  /-- Publishing its start under the lock. -/
  | startPublishing
  /-- In the task handler. -/
  | handling
  /-- Waiting for the controller to report the target. -/
  | confirming
  /-- Past its body, which ended as given; its finish has yet to ask for the lock. -/
  | ending (body : Outcome)
  /-- Its finish waits for the lock or is published under it. -/
  | finishing (body : Outcome)
  /-- Its finish is over, and raised the given error, if any; the runner has yet to go on. -/
  | settled (body : Outcome) (raised : Option String)
  /-- The runner has ended. -/
  | done (outcome : Outcome)
deriving DecidableEq, Repr

variable (K : Type)

/-- A task's runner and execution outcome. -/
structure TaskRun where
  task : Task
  /-- Framework copy of submitted context. -/
  submittedContext : K
  /-- The run it replaces. -/
  predecessor : Option ℕ
  phase : TaskRunPhase := .received
  cancelRequested : Bool := false
  /-- Which latch was held when the handler returned. -/
  handlerLatchedState : Option ℕ := none
  finishInfo : TaskFinishInfo := { aborted := true }
  /-- `start_time` is set. -/
  started : Bool := false
  stage : RunnerStage := .received
  /-- A cancellation waits for the operation that defers it. -/
  deferred : Bool := false
deriving DecidableEq, Repr

/-- A task execution request. -/
structure ExecuteRequest where
  task : Task
  context : K
  interrupt : Bool := false
deriving DecidableEq, Repr

/-- What a task asks for the update lock to do. -/
inductive Job where
  | admission (msg : ExecuteRequest K)
  | start (n : ℕ)
  | finish (n : ℕ)
  | abort (requested : Option TaskId)
  | report (state : InternalControllerState) (context : Option K)
  | enable (enabled : Bool)
  | updateContext
deriving DecidableEq, Repr

/-- A published execution event of the run `n`, by what published it. -/
inductive ExecutionEvent where
  | started (n : ℕ)
  | aborting (n : ℕ)
  | context (n : ℕ) (aborts : Bool)
  | finished (n : ℕ) (info : TaskFinishInfo)
deriving DecidableEq, Repr

/-- The record the event carries. -/
def ExecutionEvent.state : ExecutionEvent → TaskExecutionState
  | .started n => { executing := true, execution := some (.minted n) }
  | .aborting n => { executing := true, aborting := true, execution := some (.minted n) }
  | .context n aborts => { executing := true, aborting := aborts, execution := some (.minted n) }
  | .finished n info => { finished := some info, execution := some (.minted n) }

/-- An event that an update applies to the controller state. -/
inductive Event where
  | enable (enabled : Bool)
  | operating (state : ControllerOperatingState K)
  | execution (event : ExecutionEvent)
deriving DecidableEq, Repr

/-- What the holder of the lock does when its publication is over. -/
inductive Next where
  /-- Attach the admitted run, or restore the prior operating state. -/
  | attach (run : TaskRun K) (prior : ControllerOperatingState K)
  /-- Call the handler of the run, once the runners created before the update have begun. -/
  | start (n : ℕ) (behind : List ℕ)
  /-- End the finish of the run, with the mismatch found while settling, if any. -/
  | finish (n : ℕ) (mismatch : Option String)
  /-- Cancel the run. -/
  | abort (n : ℕ)
  /-- Nothing more. -/
  | release
deriving DecidableEq, Repr

/-- A publication under the lock. -/
structure Publication where
  events : List (Event K)
  next : Next K
deriving DecidableEq, Repr

/-- How a publication ends: it is out; it is out and the task that asked for it was cancelled
meanwhile; or it raised after some of its events had been applied. -/
inductive PublishOutcome where
  | succeeded
  | interrupted
  | failed (applied : ℕ) (message : String)
deriving DecidableEq, Repr

/-- Where an accepted execute request is. -/
inductive CallStage where
  | progressing
  | succeeding
  | joining
  | ended
deriving DecidableEq, Repr

/-- An accepted execute request, and the end events it has sent: `true` for a success. -/
structure Call where
  stage : CallStage := .progressing
  ends : List Bool := []
deriving DecidableEq, Repr

/-- A controller with its runs, in order of admission. -/
structure Controller where
  /-- The task types that have a handler. -/
  taskHandlers : List String
  runs : ℕ → Option (TaskRun K) := fun _ => none
  calls : ℕ → Call := fun _ => {}
  admitted : ℕ := 0
  /-- `_execution`: the newest run, until its request is over. -/
  execution : Option ℕ := none
  states : ControllerStateResolver K
  state : ControllerState K
  lock : Lock (Job K) := {}
  publication : Option (Publication K) := none
  /-- The execution events published, oldest first. -/
  events : List ExecutionEvent := []

variable {K}

namespace TaskRun

variable (r : TaskRun K)

/-- Whether the task changes the controller's operating state. -/
def lifecycle : Bool :=
  r.task.targetState.isSome || r.task.recovers

/-- Whether lifecycle work is pending, executing, or awaiting confirmation. -/
def transition : Bool :=
  r.lifecycle && r.phase != .finished

/-- The runner has ended. -/
def done : Bool :=
  match r.stage with
  | .done _ => true
  | _ => false

/-- The finish of the run has asked for the lock and is not over. -/
def isFinishing : Bool :=
  match r.stage with
  | .finishing _ => true
  | _ => false

/-- The body of the runner ends; `_publish_finish` comes next. -/
def endBody (body : Outcome) : TaskRun K :=
  { r with stage := .ending body, deferred := false }

/-- `fail`: record a failure as the execution's finish; the body raises it. -/
def fail (message : String) : TaskRun K :=
  { r with finishInfo := { error := some message } }.endBody (.failed message)

/-- How the runner ends after `_publish_finish`: its error comes first, then the cancellation it
deferred, then the end of the body. -/
def result (body : Outcome) : Option String → Outcome
  | some message => .failed message
  | none => if r.deferred then .cancelled else body

/-- The body ends without an error. -/
def succeed : TaskRun K :=
  { r with finishInfo := {} }.endBody .succeeded

end TaskRun

namespace Controller

variable (s : Controller K)

/-- The controller as `init_impl` leaves it, from the state it recovered. -/
def started (taskHandlers : List String) (recovered : ControllerState K) (legacy : Bool) : Controller K where
  taskHandlers
  states := .init recovered.operatingState.context (ControllerState.latched recovered.operatingState)
  state := recovered.normalize legacy

def setRun (n : ℕ) (r : TaskRun K) : Controller K :=
  { s with runs := Function.update s.runs n (some r) }

def setCall (n : ℕ) (c : Call) : Controller K :=
  { s with calls := Function.update s.calls n c }

def release : Controller K :=
  { s with lock := s.lock.release, publication := none }

/-- The run that `_execution` names. -/
def current : Option (ℕ × TaskRun K) :=
  s.execution.bind fun n => (s.runs n).map fun r => (n, r)

/-- The run that is not over, if there is one: `_execution` if `task_running()`. -/
def running : Option (ℕ × TaskRun K) :=
  s.current.filter fun (_, r) => !r.done

section Cancel

variable [DecidableEq K]

/-- Take the job out of the queue, or give the lock up if it has just been granted. -/
def withdraw (job : Job K) : Controller K :=
  if s.lock.holder = some job ∧ s.publication = none then s.release
  else { s with lock := { s.lock with waiters := s.lock.waiters.erase job } }

/-- The cancellation reaches the runner at its current await. -/
def cancelRunner (n : ℕ) (r : TaskRun K) : Controller K :=
  match r.stage with
  -- Cancelling before the first step would skip the runner's cleanup.
  | .received | .done _ => s.setRun n r
  -- What the handler makes of it is the handler's outcome.
  | .handling => s.setRun n r
  | .startWaiting => (s.withdraw (.start n)).setRun n (r.endBody .cancelled)
  | .confirming => s.setRun n (r.endBody .cancelled)
  | .joining | .startPublishing | .ending _ | .finishing _ | .settled _ _ =>
    s.setRun n { r with deferred := true }

/-- `cancel`: request cancellation once. -/
def cancel (n : ℕ) : Controller K :=
  match s.runs n with
  | some r => if r.cancelRequested then s else s.cancelRunner n { r with cancelRequested := true }
  | none => s

end Cancel

/-! ## The runner -/

/-- `execute`, and the request for the lock in `_publish_start`. -/
def execute (n : ℕ) (r : TaskRun K) : Controller K :=
  if r.cancelRequested then s.setRun n (r.endBody .cancelled)
  else
    { s with lock := s.lock.acquire (.start n) }.setRun n
      { r with phase := .executing, started := true, stage := .startWaiting }

/-- The end of the join with the predecessor, whose runner ended as given. -/
def join (n : ℕ) (r : TaskRun K) : Outcome → Controller K
  | .failed message => s.setRun n (r.fail message)
  | _ => if r.deferred then s.setRun n (r.endBody .cancelled) else s.execute n r

/-- The end of the handler, with the check of `_confirm_observed_state` on its return. -/
def afterHandler [DecidableEq K] (r : TaskRun K) : Outcome → TaskRun K
  | .cancelled => r.endBody .cancelled
  | .failed message => r.fail message
  | .succeeded =>
    let r := { r with handlerLatchedState := s.states.latch.map Latch.id }
    match r.task.targetState, s.states.observed with
    | some target, some observed =>
      if observed = ⟨target, r.submittedContext⟩ then r.succeed else { r with stage := .confirming }
    | _, _ => r.succeed

/-- `wait_until_observed` goes on after a change: `none` if it waits for the next one. -/
def afterReport [DecidableEq K] (r : TaskRun K) (target : InternalControllerState) : Option (TaskRun K) :=
  match s.states.latchedSince r.handlerLatchedState with
  | some latch => some (r.fail s!"Controller reported {latch.state.value} before {target.value}")
  | none => if s.states.observed = some ⟨target, r.submittedContext⟩ then some r.succeed else none


/-! ## Under the lock -/

/-- `_derive_operating_state`: from the newest task run and the settled state. -/
def deriveOperatingState (newest : Option (TaskRun K)) : ControllerOperatingState K :=
  let settled := s.states.settled
  match newest.filter (·.transition) with
  | some run =>
    let target := run.task.targetState
    s.state.operatingState.derive .transition target
      (if target.isSome then run.submittedContext else settled.context)
  | none => s.state.operatingState.derive settled.state none settled.context

variable [DecidableEq K]

/-- The operating event of `_publish_operating_state`, if the operating state has changed. -/
def operatingEvents (newest : Option (TaskRun K)) : List (Event K) :=
  let published := s.state.operatingState
  let derived := s.deriveOperatingState newest
  if (derived.current, derived.target, derived.context) =
    (published.current, published.target, published.context) then [] else [.operating derived]

/-- Apply an event to the state and emit it. -/
def emit : Event K → Controller K
  | .enable enabled => { s with state := { s.state with enabled } }
  | .operating o => { s with state := { s.state with operatingState := o } }
  | .execution event =>
    { s with state := { s.state with executionState := event.state }, events := s.events ++ [event] }

/-- Attach an admitted run and install it. -/
def attach (r : TaskRun K) : Controller K :=
  { s.setRun s.admitted r with admitted := s.admitted + 1, execution := some s.admitted }

/-- Whether `_admit` rejects a run beside the predecessor, and why. -/
def rejection (msg : ExecuteRequest K) (r : TaskRun K) (predecessor : Option (TaskRun K)) : Option String :=
  if !s.state.enabled then some "Controller is disabled"
  -- Only a lifecycle task may run while the controller is between states.
  else if predecessor.any (·.transition) && !r.lifecycle then some "Controller is between states"
  else if predecessor.isSome && !msg.interrupt then some "Task already in progress"
  else if msg.task.taskType ∉ s.taskHandlers then some s!"No handler registered for {msg.task.taskType}"
  else none

/-- Publish the events, and go on with `next`. -/
def publish (events : List (Event K)) (next : Next K) : Controller K :=
  { s with publication := some { events, next } }

/-- The critical section of `_admit`, up to the publication of the transition. -/
def admitRequest (msg : ExecuteRequest K) : Controller K :=
  let predecessor := s.running
  let r : TaskRun K := { task := msg.task, submittedContext := msg.context, predecessor := predecessor.map (·.1) }
  match s.rejection msg r (predecessor.map (·.2)) with
  | some _ => s.release
  | none =>
    if r.lifecycle then
      match s.operatingEvents (some r) with
      | [] => (s.attach r).release
      | events => s.publish events (.attach r s.state.operatingState)
    else (s.attach r).release

/-- `_settle`: the mismatch between the recorded success and what the controller reports. -/
def mismatch (r : TaskRun K) : Option String :=
  if r.finishInfo = {} then
    match s.states.latchedSince r.handlerLatchedState, r.task.targetState with
    | some latch, _ => some s!"Controller reported {latch.state.value} before settling"
    | none, some target =>
      if s.states.confirms ⟨target, r.submittedContext⟩ then none
      else some s!"Controller no longer reports {target.value} with the task input"
    | none, none => none
  else none

/-- `_settle`: the run and the resolver with the finish recorded, and the mismatch, if any. -/
def settle (r : TaskRun K) : TaskRun K × ControllerStateResolver K × Option String :=
  if r.lifecycle then
    let mismatch := s.mismatch r
    let r := { r with finishInfo := match mismatch with
      | some message => { error := some message }
      | none => r.finishInfo }
    (r, s.states.recordFinish r.task.targetState r.submittedContext r.finishInfo r.started, mismatch)
  else (r, s.states, none)

/-- The end of a finish: the runner goes on when it next runs. -/
def finished (n : ℕ) (raised : Option String) : Controller K :=
  match s.runs n with
  | some r =>
    match r.stage with
    | .finishing body => s.setRun n { r with stage := .settled body raised }
    | _ => s
  | none => s

/-- The critical section of `_publish_finish`. -/
def finish (n : ℕ) (r : TaskRun K) : Controller K :=
  let (r, states, mismatch) := s.settle r
  let s := { s with states }.setRun n { r with phase := .finished }
  -- Record a finish once execution has begun.
  let recorded := if r.started then [.execution (.finished n r.finishInfo)] else []
  match recorded ++ s.operatingEvents (s.current.map (·.2)) with
  | [] => (s.finished n mismatch).release
  | events => s.publish events (.finish n mismatch)

/-- The critical section of `_abort_request`, up to its publication. -/
def abort (requested : Option TaskId) : Controller K :=
  match s.running with
  | none => s.release
  | some (n, _) =>
    if requested.any (· ≠ .minted n) then s.release
    -- Pending work leaves its predecessor's published execution alone.
    else if s.state.executionState.executing ∧ s.state.executionState.execution = some (.minted n) then
      s.publish [.execution (.aborting n)] (.abort n)
    else (s.cancel n).release

/-- The critical section of `report_state`. -/
def report (state : InternalControllerState) (context : Option K) : Controller K :=
  let s := { s with states := s.states.recordObserved state context }
  match s.operatingEvents (s.current.map (·.2)) with
  | [] => s.release
  | events => s.publish events .release

/-- The critical section of `update_context`. -/
def updateContext : Controller K :=
  let state := s.state.executionState
  match state.execution with
  | some (.minted n) =>
    if state.executing then s.publish [.execution (.context n state.aborting)] .release else s.release
  | _ => s.release

/-- The runners that have yet to take their first step. -/
def unstarted : List ℕ :=
  (List.range s.admitted).filter fun n => (s.runs n).any fun r => r.stage = .received

/-- The holder of the lock goes on with it. -/
def enter : Job K → Controller K
  | .admission msg => s.admitRequest msg
  | .start n =>
    match s.runs n with
    | some r =>
      if r.stage = .startWaiting then
        (s.setRun n { r with stage := .startPublishing }).publish [.execution (.started n)]
          (.start n s.unstarted)
      else s
    | none => s
  | .finish n =>
    match s.runs n with
    | some r => if r.isFinishing then s.finish n r else s
    | none => s
  | .abort requested => s.abort requested
  | .report state context => s.report state context
  | .enable enabled => s.publish [.enable enabled] .release
  | .updateContext => s.updateContext

/-- What the holder does once its events are out. -/
def proceed : Next K → Controller K
  | .attach r _ => (s.attach r).release
  | .start n _ =>
    match s.runs n with
    | some r => (s.setRun n (if r.deferred then r.endBody .cancelled else { r with stage := .handling })).release
    | none => s
  | .finish n mismatch => (s.finished n mismatch).release
  | .abort n => (s.cancel n).release
  | .release => s.release

/-- What the holder does once its publication has raised, or its task was cancelled. -/
def recover (message : String) : Next K → Controller K
  -- The predecessor keeps its transition and lifecycle input.
  | .attach _ prior => s.publish [.operating prior] .release
  | .start n _ =>
    match s.runs n with
    | some r => (s.setRun n (r.fail message)).release
    | none => s
  | .finish n _ => (s.finished n (some message)).release
  | .abort _ => s.release
  | .release => s.release

/-- Apply the events and emit them. -/
def emitAll (events : List (Event K)) : Controller K :=
  events.foldl emit s

/-- The end of the publication of `events`. -/
def published (events : List (Event K)) (next : Next K) : PublishOutcome → Controller K
  | .succeeded => (s.emitAll events).proceed next
  | .interrupted => (s.emitAll events).recover "" next
  | .failed applied message => (s.emitAll (events.take applied)).recover message next

/-- A start is published by a task of its own, which the loop runs after the runners that were
created before it. -/
def ready : Next K → Bool
  | .start _ behind => behind.all fun n => (s.runs n).all fun r => r.stage ≠ .received
  | _ => true

end Controller

/-- A runner defers cancellation until its publication is over. -/
def Next.defers : Next K → Bool
  | .start _ _ | .finish _ _ => true
  | .attach _ _ | .abort _ | .release => false

/-- The job is one of a request or a report, rather than of a runner, and passes the checks made
before the lock is asked for. -/
def Job.arrives (s : Controller K) : Job K → Bool
  | .admission _ | .abort _ | .updateContext => true
  | .enable enabled => enabled ≠ s.state.enabled
  | .report state context =>
    match state with
    | .transition => false
    | .unknown | .error => context.isNone
    | .operate | .standby | .shutdown => context.isSome
  | .start _ | .finish _ => false

/-- The job is one of a request or a report. -/
def Job.isRequest : Job K → Bool
  | .admission _ | .abort _ | .updateContext | .enable _ | .report _ _ => true
  | .start _ | .finish _ => false

/-- What happens next. -/
inductive ControllerLabel (K : Type) where
  /-- A request or a report asks for the lock. -/
  | arrive (job : Job K)
  /-- A task that waits for the lock with a request or a report is cancelled. -/
  | withdraw (job : Job K)
  /-- The holder of the lock goes on. -/
  | enter
  /-- Its publication ends. -/
  | published (outcome : PublishOutcome)
  /-- A runner takes its first step. -/
  | begin (n : ℕ)
  /-- A runner goes on from the end of its predecessor. -/
  | joined (n : ℕ)
  /-- The handler of a run ends. -/
  | handled (n : ℕ) (outcome : Outcome)
  /-- A run goes on from a report it was waiting for. -/
  | reported (n : ℕ)
  /-- The confirmation timeout of a run is over. -/
  | unconfirmed (n : ℕ)
  /-- The finish of a run asks for the lock. -/
  | finish (n : ℕ)
  /-- A runner goes on from its finish, and ends. -/
  | ends (n : ℕ)
  /-- The request of a run goes on from the end of the runner. -/
  | woken (n : ℕ)
  /-- The success event of a request is out, or its publication raised. -/
  | succeeded (n : ℕ) (published : Bool)
  /-- A request has joined its runner; a failure event is published if it is still open. -/
  | closed (n : ℕ) (published : Bool)
  /-- The task of a request is cancelled, or fails to publish its progress. -/
  | abandon (n : ℕ)
deriving DecidableEq, Repr

namespace Controller

variable [DecidableEq K] (s : Controller K)

/-- One step of the controller's tasks. -/
def step (s : Controller K) : ControllerLabel K → Option (Controller K)
  | .arrive job => if job.arrives s then some { s with lock := s.lock.acquire job } else none
  | .withdraw job => if job.isRequest then some (s.withdraw job) else none
  | .enter =>
    match s.lock.holder, s.publication with
    | some job, none => some (s.enter job)
    | _, _ => none
  | .published outcome =>
    match s.publication with
    | some ⟨events, next⟩ =>
      if s.ready next ∧ ¬(next.defers ∧ outcome = .interrupted) then some (s.published events next outcome)
      else none
    | none => none
  | .begin n => do
    let r ← s.runs n
    if r.stage = .received then
      match r.predecessor with
      | some p => some ((s.setRun n { r with phase := .interrupting, stage := .joining }).cancel p)
      | none => some (s.execute n r)
    else none
  | .joined n => do
    let r ← s.runs n
    let p ← r.predecessor
    match r.stage, (← s.runs p).stage with
    | .joining, .done outcome => some (s.join n r outcome)
    | _, _ => none
  | .handled n outcome => do
    let r ← s.runs n
    if r.stage = .handling then some (s.setRun n (s.afterHandler r outcome)) else none
  | .reported n => do
    let r ← s.runs n
    let target ← r.task.targetState
    if r.stage = .confirming then some (s.setRun n (← s.afterReport r target)) else none
  | .unconfirmed n => do
    let r ← s.runs n
    let target ← r.task.targetState
    if r.stage = .confirming then
      some (s.setRun n (r.fail s!"Controller did not report {target.value} with the task input"))
    else none
  | .finish n => do
    let r ← s.runs n
    match r.stage with
    | .ending body =>
      some ({ s with lock := s.lock.acquire (.finish n) }.setRun n { r with stage := .finishing body })
    | _ => none
  | .ends n => do
    let r ← s.runs n
    match r.stage with
    | .settled body raised => some (s.setRun n { r with stage := .done (r.result body raised) })
    | _ => none
  | .woken n => do
    let r ← s.runs n
    match r.stage, (s.calls n).stage with
    | .done outcome, .progressing =>
      some (s.setCall n { s.calls n with stage := if outcome = .succeeded then .succeeding else .joining })
    | _, _ => none
  | .succeeded n published =>
    if (s.calls n).stage = .succeeding then
      some (s.setCall n { stage := .joining, ends := (s.calls n).ends ++ if published then [true] else [] })
    else none
  | .closed n published => do
    let r ← s.runs n
    if r.done ∧ (s.calls n).stage = .joining then
      -- Clients treat the final event as proof the run ended, so it follows the join.
      some ({ s with execution := if s.execution = some n then none else s.execution }.setCall n
        { stage := .ended
          ends := if (s.calls n).ends = [] ∧ published then [false] else (s.calls n).ends })
    else none
  | .abandon n => do
    let r ← s.runs n
    if (s.calls n).stage = .progressing then
      some ((if r.done then s else s.cancel n).setCall n { s.calls n with stage := .joining })
    else none

end Controller

end SensorKit.Core
