import SensorKit.Lib.Indexed
import SensorKit.Lib.Run

/-!
# Program tasking

`ProgramImpl` runs one tasking loop at a time. Requests, the loop and its finalizer publish the program's state: under
the state lock, which serves them in the order in which they ask, an update sets the field, emits the event and stores
the state. The process may end at any moment and start anew from what is stored.
-/

namespace SensorKit.Core.Tasking

open Lib

abbrev TaskContextMap := List (String × String)

inductive TaskingStage where
  | factory
  | dispatch
  | execution
  | postTask
deriving DecidableEq, Repr

inductive TaskingFault where
  | controller
  | program
deriving DecidableEq, Repr

inductive Origin where
  | request
  | init
  | error
deriving DecidableEq, Repr

structure TaskingLoopState where
  sessionId : ℕ
  stage : TaskingStage := .factory
  taskType : Option String := none
  fault : Option TaskingFault := none
  error : Option String := none
deriving DecidableEq, Repr

/-! ## The events -/

structure ProgramEnableState where
  eventId : ℕ := 0
  enabled : Bool := false
  controller : Option String := none
deriving DecidableEq, Repr

structure ProgramActiveState where
  eventId : ℕ := 0
  active : Bool
  origin : Origin
  stopping : Bool := false
  contexts : TaskContextMap := []
  /-- The session on whose behalf it is published, which the event itself does not say. -/
  session : Option ℕ := none
deriving DecidableEq, Repr

structure ProgramTaskingState where
  eventId : ℕ := 0
  loopState : Option TaskingLoopState := none
  executionState : Option String := none
  /-- The session on whose behalf it is published, which only `loopState` says. -/
  session : Option ℕ := none
deriving DecidableEq, Repr

inductive Event where
  | enable (event : ProgramEnableState)
  | active (event : ProgramActiveState)
  | tasking (event : ProgramTaskingState)
deriving DecidableEq, Repr

namespace Event

def eventId : Event → ℕ
  | .enable event => event.eventId
  | .active event => event.eventId
  | .tasking event => event.eventId

def withId (id : ℕ) : Event → Event
  | .enable event => .enable { event with eventId := id }
  | .active event => .active { event with eventId := id }
  | .tasking event => .tasking { event with eventId := id }

def session : Event → Option ℕ
  | .enable _ => none
  | .active event => event.session
  | .tasking event => event.session

end Event

structure ProgramState where
  enableState : ProgramEnableState := {}
  activeState : ProgramActiveState := { active := false, origin := .init }
  taskingState : ProgramTaskingState := {}
deriving DecidableEq, Repr

/-- `setattr(self._state, key, event)`. -/
def ProgramState.set (state : ProgramState) : Event → ProgramState
  | .enable event => { state with enableState := event }
  | .active event => { state with activeState := event }
  | .tasking event => { state with taskingState := event }

/-! ## Tasking loops -/

/-- How far `_finalize_loop` has come. -/
inductive FinalizerStage where
  /-- It waits for the producer, and then for `loop.finalize()`. -/
  | waiting
  /-- It publishes the cleared tasking state. -/
  | clearing
  /-- It publishes the inactive state. -/
  | ending
  | done
  /-- A publication has raised. -/
  | failed
  /-- The process has ended. -/
  | lost
deriving DecidableEq, Repr

/-- A tasking loop and its finalizer. The loop's session is its position among all loops. -/
structure TaskingLoop where
  loopState : TaskingLoopState
  executionState : Option String := none
  started : Bool := false
  producerDone : Bool := false
  stopRequested : Bool := false
  /-- `_end_work` has been called for a requested abort. -/
  workEnded : Bool := false
  /-- A task holds `_publication_lock` and awaits `_on_tasking_change`. -/
  publishing : Bool := false
  /-- Its first report has been published. -/
  reported : Bool := false
  finalized : Bool := false
  unresolved : Bool := false
  finalizer : FinalizerStage := .waiting
deriving DecidableEq, Repr

namespace TaskingLoop

variable (loop : TaskingLoop)

def running : Bool :=
  loop.started && !loop.producerDone && !loop.stopRequested

def requestStop (abort : Bool) : TaskingLoop :=
  { loop with stopRequested := true, workEnded := loop.workEnded || abort }

/-- `_advance`: change the current operation while the session is healthy. -/
def advance (stage : TaskingStage) (taskType : Option String) : TaskingLoop :=
  if loop.loopState.fault = none then
    { loop with loopState := { sessionId := loop.loopState.sessionId, stage, taskType } }
  else loop

/-- `_fail`: retain the first fault. -/
def fail (fault : TaskingFault) (error : String) (stage : Option TaskingStage) : TaskingLoop :=
  if loop.loopState.fault = none then
    { loop with
      loopState := { loop.loopState with
        stage := stage.getD loop.loopState.stage, fault := some fault, error := some error } }
  else loop

/-- The event that ends the session. -/
def inactive (session : ℕ) : ProgramActiveState :=
  if loop.stopRequested ∧ loop.loopState.fault = none then
    { active := false, origin := .request, session := some session }
  else { active := false, origin := .error, session := some session }

end TaskingLoop

/-! ## Updates -/

/-- Who goes on after an update. -/
inductive Job where
  /-- `_start_loop`, which publishes the active state. -/
  | start (session : ℕ)
  /-- `_on_tasking_change`. -/
  | report (session : ℕ)
  /-- `_finalize_loop`, which clears the tasking state. -/
  | clear (session : ℕ)
  /-- `_finalize_loop`, which publishes the inactive state. -/
  | finish (session : ℕ)
  /-- `_stop_loop` of a stop or abort request. -/
  | stop (session : ℕ)
  /-- `_stop_loop` of an enable request. -/
  | enableStop (session : ℕ)
  | enable
  /-- `init_impl`, which clears the tasking state. -/
  | initClear
  /-- `init_impl`, which publishes the inactive state. -/
  | initEnd
deriving DecidableEq, Repr

/-- A call of `_update_state`. -/
structure Update where
  event : Event
  /-- `loop`: drop the update unless this is the current loop. -/
  loop : Option ℕ := none
  job : Job
deriving DecidableEq, Repr

/-- How far the update at the head of the queue has come. -/
inductive UpdateStage where
  /-- It has not looked at the loop yet. -/
  | entering
  | emitting (event : Event)
  | putting
deriving DecidableEq, Repr

structure EnableRequest where
  enable : Bool
  controller : Option String
deriving DecidableEq, Repr

/-- Who holds `_control_lock`. -/
inductive Control where
  | free
  /-- A start request waits for the previous loop's finalizer. -/
  | startWaiting (previous : ℕ) (contexts : TaskContextMap)
  /-- `_start_loop` publishes the active state. -/
  | publishing (session : ℕ)
  /-- `_start_loop` waits for the session's first report. -/
  | reporting (session : ℕ)
  /-- An enable request publishes the stopping state. -/
  | enableStopping (session : ℕ) (request : EnableRequest)
  /-- An enable request waits for the loop's finalizer. -/
  | enableWaiting (session : ℕ) (request : EnableRequest)
  | enabling
  /-- The enable or disable hooks run. -/
  | hooks
deriving DecidableEq, Repr

inductive Mode where
  | down
  /-- `init_impl` runs. -/
  | starting
  /-- Requests are handled. -/
  | attached
deriving DecidableEq, Repr

/-- What a start request is answered. -/
inductive Reply where
  | accepted (session : ℕ)
  | rejected (reason : String)
  /-- An exception of the handler. -/
  | error
deriving DecidableEq, Repr

structure ProgramImpl where
  mode : Mode := .down
  state : ProgramState := {}
  stored : Option ProgramState := none
  /-- All events published. -/
  stream : List Event := []
  /-- All events that an update has set, published or not. -/
  entered : List Event := []
  /-- The updates that have asked for `_state_lock`. The first one has it. -/
  updates : List Update := []
  updateStage : UpdateStage := .entering
  /-- All loops ever created, also by earlier processes. -/
  loops : List TaskingLoop := []
  taskLoop : Option ℕ := none
  control : Control := .free
  replies : List Reply := []

inductive ProgramLabel where
  /-- `init_impl` restores the state. The read may raise a `KVError`, and the write of a new state may raise. -/
  | init (readable stored raises : Bool)
  | crash
  /-- The first update looks at the loop and sets the state. -/
  | enter (eventId : ℕ)
  /-- The call may raise, and the event be published all the same. -/
  | emit (published raises : Bool)
  | put (stored raises : Bool)
  /-- An update that waits for the lock is cancelled. -/
  | cancel (k : ℕ)
  | start (contexts : TaskContextMap)
  /-- The start request goes on after the previous loop's finalizer. -/
  | startResumes
  /-- `_start_loop` has seen the session's first report, or the producer's end. -/
  | startReturns
  /-- `_stop_loop` of a request to stop or abort begins. -/
  | stop (sessionId : Option ℕ) (abort : Bool)
  | setEnableState (request : EnableRequest)
  | enableResumes
  | hooksReturn
  | advance (session : ℕ) (stage : TaskingStage) (taskType : Option String)
  | fail (session : ℕ) (fault : TaskingFault) (error : String) (stage : Option TaskingStage)
  | execute (session : ℕ) (executionState : Option String)
  /-- A task of the loop begins to publish its state. -/
  | report (session : ℕ)
  | producerExits (session : ℕ)
  /-- `finalize` has waited for the producer, the last call and the publications. -/
  | finalize (session : ℕ) (unresolved : Bool)
  /-- `_finalize_loop` goes on after `loop.finalize()`. -/
  | clear (session : ℕ)
deriving DecidableEq, Repr

namespace ProgramImpl

variable (s : ProgramImpl)

def setLoop (session : ℕ) (loop : TaskingLoop) : ProgramImpl :=
  { s with loops := s.loops.set session loop }

def update (event : Event) (loop : Option ℕ) (job : Job) : ProgramImpl :=
  { s with updates := s.updates ++ [{ event, loop, job }] }

/-! ### `init_impl` -/

/-- Publish that the tasking of an earlier process has ended. -/
def initEnd : ProgramImpl :=
  if s.state.activeState.active then
    ({ s with mode := .starting } : ProgramImpl).update
      (.active { active := false, origin := .init, session := s.state.activeState.session }) none .initEnd
  else { s with mode := .attached }

/-- A restarted program has no live tasking session. -/
def initClear : ProgramImpl :=
  match s.state.taskingState.loopState with
  | some loopState =>
    ({ s with mode := .starting } : ProgramImpl).update
      (.tasking { executionState := s.state.taskingState.executionState, session := some loopState.sessionId })
      none .initClear
  | none => s.initEnd

/-! ### Requests -/

/-- `_start_loop`, until it awaits the publication of the active state. -/
def startLoop (contexts : TaskContextMap) : ProgramImpl :=
  let session := s.loops.length
  let s : ProgramImpl := { s with
    loops := s.loops ++ [{ loopState := { sessionId := session } }]
    taskLoop := some session
    replies := s.replies ++ [.accepted session]
    control := .publishing session }
  s.update (.active { active := true, origin := .request, contexts, session := some session }) none (.start session)

def reply (answer : Reply) : ProgramImpl :=
  { s with replies := s.replies ++ [answer], control := .free }

/-- `_start_tasking`, from where no previous loop is to be waited for. -/
def startTasking (contexts : TaskContextMap) : ProgramImpl :=
  if s.state.enableState.enabled = false ∨ s.state.enableState.controller.getD "" = "" then
    s.reply (.rejected "Program is not enabled with a controller")
  else if s.state.activeState.active = true ∧ contexts ≠ s.state.activeState.contexts then
    s.reply (.rejected "Program is already active with different contexts")
  else if s.state.activeState.active then
    match s.taskLoop with
    | some session => s.reply (.accepted session)
    | none => s.reply .error
  else s.startLoop contexts

/-- `_targeted_loop`. -/
def targetedLoop (sessionId : Option ℕ) : Option ℕ :=
  match s.taskLoop with
  | none => none
  | some session => if sessionId = none ∨ sessionId = some session then some session else none

/-- `_stop_loop`, until it awaits the publication of the stopping state. -/
def stopLoop (session : ℕ) (loop : TaskingLoop) (abort : Bool) (job : Job) : ProgramImpl :=
  (s.setLoop session (loop.requestStop abort)).update
    (.active { active := true, origin := s.state.activeState.origin, stopping := true,
               contexts := s.state.activeState.contexts, session := some session })
    (some session) job

/-- Publish the new enable state. -/
def publishEnable (request : EnableRequest) : ProgramImpl :=
  ({ s with control := .enabling } : ProgramImpl).update
    (.enable { enabled := request.enable, controller := request.controller }) none .enable

/-- `_set_enable_state`, with the control lock. -/
def setEnableState (request : EnableRequest) : ProgramImpl :=
  let enabled := s.state.enableState.enabled
  let controllerChanged := request.controller ≠ s.state.enableState.controller
  if request.enable = false ∧ enabled = false then s
  else if request.enable = enabled ∧ ¬controllerChanged then s
  else if controllerChanged ∨ request.enable = false then
    -- Confirm the current task ended before changing controllers or disabling.
    match s.taskLoop with
    | none => s.publishEnable request
    | some session =>
      match s.loops[session]? with
      | none => s
      | some loop =>
        ({ s with control := .enableStopping session request } : ProgramImpl).stopLoop session loop true
          (.enableStop session)
  else s.publishEnable request

/-! ### After an update -/

/-- What the owner of an update does once the update is done, or has raised. -/
def proceed (job : Job) (ok : Bool) : ProgramImpl :=
  match job with
  | .start session =>
    match s.loops[session]? with
    | none => s
    | some loop =>
      if ok then { s.setLoop session { loop with started := true } with control := .reporting session }
      else { s.setLoop session { loop.requestStop true with started := true } with control := .free }
  | .report session =>
    match s.loops[session]? with
    | none => s
    | some loop => s.setLoop session { loop with publishing := false, reported := loop.reported || ok }
  | .clear session =>
    match s.loops[session]? with
    | none => s
    | some loop =>
      if ok then
        (s.setLoop session { loop with finalizer := .ending }).update (.active (loop.inactive session)) none
          (.finish session)
      else s.setLoop session { loop with finalizer := .failed }
  | .finish session =>
    match s.loops[session]? with
    | none => s
    | some loop =>
      if ok then { s.setLoop session { loop with finalizer := .done } with taskLoop := none }
      else s.setLoop session { loop with finalizer := .failed }
  | .stop _ => s
  | .enableStop session =>
    match s.control with
    | .enableStopping _ request => { s with control := if ok then .enableWaiting session request else .free }
    | _ => s
  | .enable => { s with control := if ok then .hooks else .free }
  | .initClear => if ok then s.initEnd else { s with mode := .down }
  | .initEnd => { s with mode := if ok then .attached else .down }

/-- Leave the lock to the next update, and go on. -/
def leave (u : Update) (rest : List Update) (ok : Bool) : ProgramImpl :=
  ({ s with updates := rest, updateStage := .entering } : ProgramImpl).proceed u.job ok

/-! ### The system -/

def step (s : ProgramImpl) : ProgramLabel → Option ProgramImpl
  | .init readable stored raises =>
    if s.mode ≠ .down ∨ (!stored ∧ !raises) then none
    else
      match if readable then s.stored else none with
      | some state => some ({ s with state } : ProgramImpl).initClear
      | none =>
        let s : ProgramImpl := { s with state := {}, stored := if stored then some {} else s.stored }
        if raises then some s else some s.initClear
  | .crash =>
    some { s with
      mode := .down
      updates := []
      updateStage := .entering
      loops := s.loops.map fun loop => if loop.finalizer = .done then loop else { loop with finalizer := .lost }
      taskLoop := none
      control := .free }
  | .enter eventId =>
    match s.updates, s.updateStage with
    | u :: rest, .entering =>
      if u.loop ≠ none ∧ u.loop ≠ s.taskLoop then some (s.leave u rest true)
      else
        let event := u.event.withId eventId
        some { s with state := s.state.set event, entered := s.entered ++ [event], updateStage := .emitting event }
    | _, _ => none
  | .emit published raises =>
    match s.updates, s.updateStage with
    | u :: rest, .emitting event =>
      let s : ProgramImpl := { s with stream := if published then s.stream ++ [event] else s.stream }
      if raises then some (s.leave u rest false)
      else if published then some { s with updateStage := .putting }
      else none
    | _, _ => none
  | .put stored raises =>
    match s.updates, s.updateStage with
    | u :: rest, .putting =>
      if stored ∨ raises then
        some (({ s with stored := if stored then some s.state else s.stored } : ProgramImpl).leave u rest (!raises))
      else none
    | _, _ => none
  | .cancel k =>
    if s.updateStage = .entering ∨ 0 < k then
      match s.updates[k]? with
      | some u => some (({ s with updates := s.updates.eraseIdx k } : ProgramImpl).proceed u.job false)
      | none => none
    else none
  | .start contexts =>
    if s.mode ≠ .attached then none
    else if s.control ≠ .free then
      some { s with replies := s.replies ++ [.rejected "Program enablement is changing"] }
    else
      match s.taskLoop with
      | none => some (s.startTasking contexts)
      | some session =>
        match s.loops[session]? with
        | none => none
        | some loop =>
          if loop.running then some (s.startTasking contexts)
          else if loop.finalized = false then some (s.reply (.rejected "Previous tasking is not finalized"))
          else some { s with control := .startWaiting session contexts }
  | .startResumes =>
    match s.control with
    | .startWaiting session contexts =>
      match s.loops[session]? with
      | some loop =>
        match loop.finalizer with
        | .done => some (({ s with control := .free } : ProgramImpl).startTasking contexts)
        | .failed => some (s.reply .error)
        | _ => none
      | none => none
    | _ => none
  | .startReturns =>
    match s.control with
    | .reporting session =>
      match s.loops[session]? with
      | some loop => if loop.reported ∨ loop.producerDone then some { s with control := .free } else none
      | none => none
    | _ => none
  | .stop sessionId abort =>
    if s.mode ≠ .attached then none
    else
      match s.targetedLoop sessionId with
      | none => some s
      | some session =>
        match s.loops[session]? with
        | none => none
        | some loop => some (s.stopLoop session loop abort (.stop session))
  | .setEnableState request => if s.mode = .attached ∧ s.control = .free then some (s.setEnableState request) else none
  | .enableResumes =>
    match s.control with
    | .enableWaiting session request =>
      match s.loops[session]? with
      | some loop =>
        match loop.finalizer with
        -- `_require_ended`.
        | .done => if loop.unresolved then some { s with control := .free } else some (s.publishEnable request)
        | .failed => some { s with control := .free }
        | _ => none
      | none => none
    | _ => none
  | .hooksReturn => if s.control = .hooks then some { s with control := .free } else none
  | .advance session stage taskType => do
    let loop ← s.loops[session]?
    return s.setLoop session (loop.advance stage taskType)
  | .fail session fault error stage => do
    let loop ← s.loops[session]?
    return s.setLoop session (loop.fail fault error stage)
  | .execute session executionState => do
    let loop ← s.loops[session]?
    return s.setLoop session { loop with executionState }
  | .report session => do
    let loop ← s.loops[session]?
    if loop.started ∧ !loop.finalized ∧ !loop.publishing ∧ loop.finalizer = .waiting then
      return (s.setLoop session { loop with publishing := true }).update
        (.tasking { loopState := some loop.loopState, executionState := loop.executionState, session := some session })
        (some session) (.report session)
    else none
  | .producerExits session => do
    let loop ← s.loops[session]?
    if loop.started then return s.setLoop session { loop with producerDone := true } else none
  | .finalize session unresolved => do
    let loop ← s.loops[session]?
    if loop.producerDone ∧ !loop.publishing ∧ loop.finalizer = .waiting then
      return s.setLoop session { loop with finalized := true, unresolved }
    else none
  | .clear session => do
    let loop ← s.loops[session]?
    if loop.finalized ∧ loop.finalizer = .waiting then
      return (s.setLoop session { loop with finalizer := .clearing }).update
        (.tasking { executionState := loop.executionState, session := some session }) none (.clear session)
    else none

end ProgramImpl

end SensorKit.Core.Tasking
