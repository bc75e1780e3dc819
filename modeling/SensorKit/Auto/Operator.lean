import SensorKit.Auto.Scheduler
import SensorKit.Common.StateElection
import SensorKit.Core.ControllerState
import SensorKit.Core.Program

/-!
# The virtual operator

The operator drives the controllers of an agent. Each turn of its loop updates every controller's schedule and casts
its votes, evaluates the election, and sets every lifecycle's demand. An exception ends the loop for all controllers.
Between two turns discovery reports programs, the offers monitors follow what their controllers' observers publish,
constraints change, and lifecycles begin and end their sessions.

Task contexts are kept as text, and a constraint manager as what it currently says.
-/

namespace SensorKit.Auto

open Lib Common SensorKit.Core

/-- What the operator's code raises. -/
inductive OperatorError
  | scheduler (error : SchedulerError)
  | election (error : EvaluationError)
  | key (name : String)
  | value (state : InternalControllerState)
  | runtime (program controller : String)
deriving DecidableEq, Repr

/-- A built map of task contexts, as text. -/
abbrev TaskContextMap := String

/-! ## Configuration -/

/-- A program's scheduling configuration with its task contexts. -/
structure TaskingConfig extends ProgramConfig where
  contexts : TaskContextMap := "{}"
deriving DecidableEq, Repr

/-- Configuration for a single controller managed by the operator. -/
structure ControllerConfig (lib : IntervalTrees ℤ) where
  name : String
  dependsOn : List String := []
  estimatedStartupTime : ℤ := 0
  modes : List (Mode lib) := []
  tasking : List TaskingConfig := []
  contexts : TaskContextMap := "{}"

namespace ControllerConfig

variable {lib : IntervalTrees ℤ} (config : ControllerConfig lib)

/-- The names of the programs that the controller may be tasked by. -/
def programs : List String :=
  config.tasking.map fun tasking => tasking.program

/-- `mode`: the mode with the given name. -/
def mode (name : String) : Except OperatorError (Mode lib) :=
  match (Dict.ofList (config.modes.map fun mode => (mode.name, mode))).get? name with
  | some mode => .ok mode
  | none => .error (.key name)

/-- `program_config`: the program configuration for the given name. -/
def programConfig (program : String) : Except OperatorError TaskingConfig :=
  match (Dict.ofList (config.tasking.map fun tasking => (tasking.program, tasking))).get? program with
  | some tasking => .ok tasking
  | none => .error (.key program)

/-- The driver's `_context_maps`: user-configured contexts of the controller and of each program. -/
def contextMaps : Dict (Option String) TaskContextMap :=
  .ofList ((none, config.contexts) :: config.tasking.map fun tasking => (some tasking.program, tasking.contexts))

def contextMap (program : Option String) : Except OperatorError TaskContextMap :=
  match config.contextMaps.get? program with
  | some contexts => .ok contexts
  | none => .error (.key (program.getD "None"))

end ControllerConfig

/-! ## Lifecycles -/

/-- Demanded controller state, task contexts, and program. -/
structure DemandState where
  state : Option InternalControllerState
  contexts : Option TaskContextMap := none
  program : Option String := none
  interrupt : Bool := false
  programInterrupt : Bool := false
deriving DecidableEq, Repr

/-- Interruption flags do not affect demand equality. -/
def DemandState.same (demand other : DemandState) : Bool :=
  demand.state = other.state ∧ demand.contexts = other.contexts ∧ demand.program = other.program

/-- What the operator and the service see of a controller's lifecycle. -/
structure ControllerLifecycle where
  demand : DemandState := { state := none }
  enabled : Bool := false
  /-- A reactor runs. -/
  session : Bool := false
deriving DecidableEq, Repr

namespace ControllerLifecycle

variable (self : ControllerLifecycle)

/-- `procedures`: the states that may be demanded. -/
def procedures : List InternalControllerState :=
  [.operate, .standby, .shutdown]

/-- `enable`: allow the lifecycle to issue demand commands. -/
def enable : ControllerLifecycle :=
  { self with enabled := true }

/-- `disable`: withdraw demand. -/
def disable : ControllerLifecycle :=
  { self with enabled := false, demand := { state := none } }

/-- `set_demand_state`: set demand, and tell whether its state, contexts, or program changed. -/
def setDemandState (demand : InternalControllerState) (contexts : TaskContextMap) (program : Option String)
    (interrupt programInterrupt : Bool) : Except OperatorError (Bool × ControllerLifecycle) :=
  if demand ∈ procedures then
    let state : DemandState := ⟨some demand, some contexts, program, interrupt, programInterrupt⟩
    .ok (!state.same self.demand, { self with demand := state })
  else .error (.value demand)

end ControllerLifecycle

/-! ## Offers -/

/-- The monitor of the offers of the programs that discovery associates with a controller. -/
structure ControllerOffers where
  /-- The monitor has subscribed to the controller's observer. -/
  watching : Bool := false
  /-- The values of the observer that are still to be read, oldest first. -/
  pending : List (Finset String) := []
  /-- The programs that have a monitor task. -/
  monitors : Finset String := ∅
  /-- Those whose tasks have not begun yet. -/
  starting : Finset String := ∅
  /-- Cancelled tasks that have not ended yet. -/
  ending : Multiset String := 0
  offers : Dict String OfferWindows := .empty

namespace ControllerOffers

variable (self : ControllerOffers)

/-- `_discover_programs` subscribes, and gets the current value first. -/
def watch (value : Finset String) : ControllerOffers :=
  { self with watching := true, pending := [value] }

/-- The observer has been notified. -/
def notified (value : Finset String) : ControllerOffers :=
  if self.watching then { self with pending := self.pending ++ [value] } else self

/-- A turn of `_discover_programs`: it waits for the monitors that it has started. -/
def discover : Option ControllerOffers :=
  match self.pending with
  | [] => none
  | programs :: pending =>
    if self.starting = ∅ then
      some { self with
        pending
        monitors := programs
        starting := programs \ self.monitors
        ending := self.ending + (self.monitors \ programs).val }
    else none

/-- A monitor task begins. -/
def begin (program : String) : Option ControllerOffers :=
  if program ∈ self.starting then
    some { self with starting := self.starting.erase program, offers := self.offers.insert program [] }
  else none

/-- A monitor task has received an offering. -/
def offering (program : String) (windows : OfferWindows) : Option ControllerOffers :=
  if program ∈ self.monitors ∧ program ∉ self.starting then
    some { self with offers := self.offers.insert program (windows.mergeSort fun a b => toLex a ≤ toLex b) }
  else none

/-- A cancelled monitor task ends. -/
def finish (program : String) : Option ControllerOffers :=
  if program ∈ self.ending then
    some { self with ending := self.ending.erase program, offers := self.offers.erase program }
  else none

end ControllerOffers

/-! ## Programs -/

/-- Manages the desired enable state for programs. -/
structure ProgramStateManager where
  allPrograms : List String
  /-- The controllers that a program may be enabled for. -/
  controller : Dict String (List String) := .empty
  desiredEnable : Dict String String := .empty
  globalEnabled : Bool := true

namespace ProgramStateManager

variable (self : ProgramStateManager)

/-- `assign_controller`: register a controller as a candidate for a program. -/
def assignController (program controller : String) : ProgramStateManager :=
  let candidates := (self.controller.get? program).getD []
  { self with
    controller := self.controller.insert program
      (if controller ∈ candidates then candidates else candidates ++ [controller]) }

/-- `enable`: mark the program as enabled for its first registered candidate controller. -/
def enable (program : String) : Except OperatorError ProgramStateManager :=
  match (self.controller.get? program).getD [] with
  | [] => .ok self
  | target :: _ =>
    match self.desiredEnable.get? program with
    | none => .ok { self with desiredEnable := self.desiredEnable.insert program target }
    | some current =>
      if current ≠ "" ∧ current ≠ target then .error (.runtime program current)
      else if current = target then .ok self
      else .ok { self with desiredEnable := self.desiredEnable.insert program target }

/-- `disable`: mark the program as disabled. -/
def disable (program : String) : ProgramStateManager :=
  { self with desiredEnable := self.desiredEnable.erase program }

/-- `global_enable` and `global_disable`. -/
def setGlobal (enabled : Bool) : ProgramStateManager :=
  { self with globalEnabled := enabled }

/-- `enabled_programs`: the currently enabled programs. -/
def enabledPrograms : Finset String :=
  if self.globalEnabled then self.desiredEnable.keys.toFinset else ∅

end ProgramStateManager

/-! ## Drivers -/

/-- The clock as a controller's turn reads it. -/
structure TurnClock where
  first : ℤ
  second : ℤ
  now : ℤ
  demand : ℤ

/-- Operate a single controller. -/
structure ControllerDriver (lib : IntervalTrees ℤ) where
  config : ControllerConfig lib
  offers : ControllerOffers := {}
  scheduler : Scheduler lib
  constrained : Bool := false
  lifecycle : ControllerLifecycle := {}

namespace ControllerDriver

variable {lib : IntervalTrees ℤ} (self : ControllerDriver lib)

def create (config : ControllerConfig lib) : ControllerDriver lib where
  config
  scheduler := .create config.modes (config.tasking.map TaskingConfig.toProgramConfig)

/-- The two updates of the schedule. -/
def updateSchedule (programs : ProgramStateManager) (clock : TurnClock) : Except OperatorError (Scheduler lib) :=
  [clock.first, clock.second].foldlM (fun scheduler now =>
    (scheduler.update self.offers.offers programs.enabledPrograms now).mapError .scheduler) self.scheduler

/-- The intent now, or else by the time that the controller has started up. -/
def lookahead (scheduler : Scheduler lib) (now : ℤ) : Except OperatorError (Option ScheduleIntent) := do
  match ← (scheduler.getIntent now).mapError .scheduler with
  | some intent => return some intent
  | none =>
    if self.config.estimatedStartupTime ≠ 0 then
      (scheduler.getIntent (now + self.config.estimatedStartupTime)).mapError .scheduler
    else return none

/-- `evaluate_state`: update the schedule and cast election votes for schedule and constraints. -/
def evaluateState (programs : ProgramStateManager) (clock : TurnClock) (election : StateElection String) :
    Except OperatorError (ControllerDriver lib × StateElection String) := do
  let scheduler ← self.updateSchedule programs clock
  let intent ← self.lookahead scheduler clock.now
  let election := election.vote (some "schedule") self.config.name (if intent.isSome then some true else none)
  let election := election.vote (some "constraint") self.config.name (if self.constrained then some false else none)
  return ({ self with scheduler }, election)

/-- The target state and which program to use, if any, for the elected demand. -/
def target (operate : Bool) (now : ℤ) : Except OperatorError (InternalControllerState × Option String) := do
  if operate then
    match ← (self.scheduler.getIntent now).mapError .scheduler with
    | some intent =>
      match (← self.config.mode intent.mode).state with
      | .operate => return (.operate, intent.programs.head?)
      | .standby => return (.standby, none)
    -- This must be a forced override scenario.
    | none => return (.operate, none)
  else return (.shutdown, none)

/-- The contexts for a program, if any, and whether the program may be interrupted. -/
def demandContexts (program : Option String) : Except OperatorError (TaskContextMap × Bool) := do
  let contexts ← self.config.contextMap none
  match program with
  | some program =>
    let config ← self.config.programConfig program
    return (← self.config.contextMap (some program), config.interrupt)
  | none => return (contexts, false)

/-- `set_demand`: apply the elected operate/shutdown demand to the lifecycle. -/
def setDemand (operate : Bool) (now : ℤ) : Except OperatorError (Bool × ControllerDriver lib) := do
  let (state, program) ← self.target operate now
  -- Refuse to go up if a constraint is active.
  let state := if self.constrained then .shutdown else state
  let program := if self.constrained then none else program
  let (contexts, programInterrupt) ← self.demandContexts program
  let (changed, lifecycle) ←
    self.lifecycle.setDemandState state contexts program self.constrained programInterrupt
  return (changed, { self with lifecycle })

end ControllerDriver

/-! ## The operator -/

/-- Orchestrate a set of controllers. -/
structure VirtualOperator (lib : IntervalTrees ℤ) where
  election : StateElection String
  discovery : ProgramDiscovery := {}
  programs : ProgramStateManager
  drivers : Dict String (ControllerDriver lib)
  /-- The main loop has not been ended by an exception. -/
  running : Bool := true

namespace VirtualOperator

variable {lib : IntervalTrees ℤ}

def create (controllers : List (ControllerConfig lib)) : VirtualOperator lib where
  election := { graph := .ofList (controllers.map fun config => (config.name, config.dependsOn)) }
  programs :=
    (controllers.flatMap fun config => config.programs.map fun program => (program, config.name)).foldl
      (fun manager assigned => manager.assignController assigned.1 assigned.2)
      { allPrograms := (controllers.flatMap ControllerConfig.programs).dedup }
  drivers := .ofList (controllers.map fun config => (config.name, .create config))

variable (self : VirtualOperator lib)

/-- Tell a driver to update its votes. -/
def evaluateDriver (clock : String → TurnClock) (name : String) : Except OperatorError (VirtualOperator lib) :=
  match self.drivers.get? name with
  | none => .ok self
  | some driver => do
    let (driver, election) ← driver.evaluateState self.programs (clock name) self.election
    return { self with drivers := self.drivers.insert name driver, election }

/-- Tell the driver to make it so, if the controller is one of the agent's. -/
def demandDriver (clock : String → TurnClock) (demanded : String × Bool) : Except OperatorError (VirtualOperator lib) :=
  match self.drivers.get? demanded.1 with
  | none => .ok self
  | some driver => do
    let (_, driver) ← driver.setDemand demanded.2 (clock demanded.1).demand
    return { self with drivers := self.drivers.insert demanded.1 driver }

/-- If there is no explicit demand for a controller, the default is down. -/
def defaultDemand (demand : Dict String Bool) : Dict String Bool :=
  self.drivers.keys.foldl (fun demand name => if name ∈ demand.keys then demand else demand.insert name false) demand

/-- A turn of `_virtual_operator`, with the interpreter's recursion limit. -/
def turn (limit : ℕ) (clock : String → TurnClock) : VirtualOperator lib :=
  match forEach (fun operator name => operator.evaluateDriver clock name) self.drivers.keys self with
  | (operator, some _) => { operator with running := false }
  | (operator, none) =>
    match operator.election.evaluate limit with
    | .error _ => { operator with running := false }
    | .ok demand =>
      match forEach (fun operator demanded => operator.demandDriver clock demanded)
        (operator.defaultDemand demand).entries operator with
      | (operator, some _) => { operator with running := false }
      | (operator, none) => operator

/-- Change a controller's driver, if there is one and it can. -/
def changeDriver (controller : String) (change : ControllerDriver lib → Option (ControllerDriver lib)) :
    Option (VirtualOperator lib) :=
  (self.drivers.get? controller).bind fun driver =>
    (change driver).map fun driver => { self with drivers := self.drivers.insert controller driver }

/-- Discovery processes the report of a program, and notifies the observers. -/
def report (program : String) (state : Option ProgramEnableState) : VirtualOperator lib :=
  let discovery := self.discovery.monitorTask program state
  { self with
    discovery
    drivers := self.drivers.mapValues fun controller driver =>
      if state.bind ProgramEnableState.controller = some controller then
        { driver with offers := driver.offers.notified (discovery.controllerPrograms controller) }
      else driver }

end VirtualOperator

/-- What happens to the operator, other than through the agent's state. -/
inductive OperatorLabel
  /-- Discovery processes a report of a program. -/
  | report (program : String) (state : Option ProgramEnableState)
  /-- A controller's offers monitor starts. -/
  | watch (controller : String)
  /-- It reads the next set of programs. -/
  | discover (controller : String)
  /-- The monitor task of a program begins, gets an offering, or ends after it has been cancelled. -/
  | begin (controller program : String)
  | offering (controller program : String) (windows : OfferWindows)
  | finish (controller program : String)
  /-- The constraints of a controller become active or clear. -/
  | constrain (controller : String) (active : Bool)
  /-- The main loop makes a turn. -/
  | turn (clock : String → TurnClock)
  /-- A session of a controller's lifecycle begins, or ends with or without an error. -/
  | session (controller : String)
  | ended (controller : String)
  /-- The session ends because an emergency shutdown has succeeded. -/
  | emergency (controller : String)

namespace VirtualOperator

variable {lib : IntervalTrees ℤ}

/-- Change a controller's offers monitor. -/
def changeOffers (self : VirtualOperator lib) (controller : String)
    (change : ControllerOffers → Option ControllerOffers) : Option (VirtualOperator lib) :=
  self.changeDriver controller fun driver => (change driver.offers).map fun offers => { driver with offers }

/-- Change a controller's lifecycle. -/
def changeLifecycle (self : VirtualOperator lib) (controller : String)
    (change : ControllerLifecycle → Option ControllerLifecycle) : Option (VirtualOperator lib) :=
  self.changeDriver controller fun driver => (change driver.lifecycle).map fun lifecycle => { driver with lifecycle }

/-- One step of the operator. -/
def step (limit : ℕ) (self : VirtualOperator lib) : OperatorLabel → Option (VirtualOperator lib)
  | .report program state => some (self.report program state)
  | .watch controller => self.changeOffers controller fun offers =>
    if offers.watching then none else some (offers.watch (self.discovery.controllerPrograms controller))
  | .discover controller => self.changeOffers controller ControllerOffers.discover
  | .begin controller program => self.changeOffers controller (·.begin program)
  | .offering controller program windows => self.changeOffers controller (·.offering program windows)
  | .finish controller program => self.changeOffers controller (·.finish program)
  | .constrain controller active => self.changeDriver controller fun driver => some { driver with constrained := active }
  | .turn clock => if self.running then some (self.turn limit clock) else none
  | .session controller => self.changeLifecycle controller fun lifecycle =>
    if lifecycle.enabled ∧ ¬ lifecycle.session then some { lifecycle with session := true } else none
  | .ended controller => self.changeLifecycle controller fun lifecycle =>
    if lifecycle.session then some { lifecycle with session := false } else none
  -- Emergency shutdown requires operator intervention.
  | .emergency controller => self.changeLifecycle controller fun lifecycle =>
    if lifecycle.session then some { lifecycle.disable with session := false } else none

end VirtualOperator

end SensorKit.Auto
