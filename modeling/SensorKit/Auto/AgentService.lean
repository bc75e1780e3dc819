import SensorKit.Auto.Agent
import SensorKit.Auto.Operator

/-!
# The agent service

The service recovers its state, brings it in agreement with the configured controllers, and applies it to a new
operator. From then on a configure handler that has updated the state goes on, with no await in between, to apply the
snapshot that it took: all of it, whatever the request was about.
-/

namespace SensorKit.Auto

open Lib Common SensorKit.Core

variable {lib : IntervalTrees ℤ} {S R : Type}

/-- The configured controllers, by name. -/
structure AgentConfig (lib : IntervalTrees ℤ) where
  controllers : List (ControllerConfig lib)
  nodup : (controllers.map ControllerConfig.name).Nodup

/-- `AgentControllerInfo.default`: control enabled and no overrides. -/
def AgentControllerInfo.default : AgentControllerInfo :=
  ⟨true, none, none⟩

namespace AgentOperatingState

variable (self : AgentOperatingState)

/-- `derive_for_config_change`: the state reconciled against the configuration, or none if no change is needed. -/
def deriveForConfigChange (configs : List String) : Option AgentOperatingState :=
  if (self.controllers.map Prod.fst).toFinset = configs.toFinset then none
  else
    let controllers := self.controllers.filter fun controller => controller.1 ∈ configs
    let added := configs.filter fun name => name ∉ controllers.map Prod.fst
    some { self with controllers := controllers ++ added.map fun name => (name, .default) }

/-- Both the global gate and the controller's own one are open. -/
def gate (controller : String) : Bool :=
  self.globalControlEnabled && ((self.controllers.lookup controller).map AgentControllerInfo.controlEnabled).getD true

end AgentOperatingState

namespace AgentState

variable (self : AgentState S R)

/-- Apply the program exclusions to one program. -/
def applyProgram (manager : ProgramStateManager) (program : String) : Except OperatorError ProgramStateManager :=
  if program ∈ self.schedulerState.excludedPrograms then .ok (manager.disable program) else manager.enable program

/-- Apply the demand override and the gates to one controller. -/
def applyController (operator : VirtualOperator lib) (controller : String) :
    Except OperatorError (VirtualOperator lib) :=
  match operator.drivers.get? controller with
  | none => .error (.key controller)
  | some driver =>
    let lifecycle :=
      if self.operatingState.gate controller then driver.lifecycle.enable else driver.lifecycle.disable
    .ok { operator with
      election := match self.operatingState.controllers.lookup controller with
        | some info => operator.election.vote (some "override") controller info.demandOverride
        | none => operator.election
      drivers := operator.drivers.insert controller { driver with lifecycle } }

/-- `apply_to_operator`: the operator that it leaves, and what it has raised. -/
def applyToOperator (configs : List String) (operator : VirtualOperator lib) :
    VirtualOperator lib × Option OperatorError :=
  match forEach self.applyProgram operator.programs.allPrograms
    (operator.programs.setGlobal self.schedulerState.schedulingEnabled) with
  | (programs, some raised) => ({ operator with programs }, some raised)
  | (programs, none) => forEach self.applyController configs { operator with programs }

end AgentState

/-- The service's state and the operator. -/
structure AgentService (lib : IntervalTrees ℤ) (S R : Type) where
  agent : Agent S R
  operator : VirtualOperator lib

/-- What happens next in the service. -/
inductive ServiceLabel (S R : Type)
  | agent (label : AgentLabel S R)
  | operator (label : OperatorLabel)

namespace AgentService

/-- The names of the configured controllers. -/
def configs (config : AgentConfig lib) : List String :=
  config.controllers.map ControllerConfig.name

/-- The recovered state, in agreement with the configuration. -/
def reconciled (config : AgentConfig lib) (recovered : AgentState S R) : AgentState S R :=
  { recovered with
    operatingState := (recovered.operatingState.deriveForConfigChange (configs config)).getD recovered.operatingState }

/-- A service that has applied its state to a new operator. -/
def started (config : AgentConfig lib) (recovered : AgentState S R) : AgentService lib S R :=
  let state := reconciled config recovered
  { agent := .started state
    operator := (state.applyToOperator (configs config) (.create config.controllers)).1 }

variable (s : AgentService lib S R)

/-- The request of a handler that is about to apply its snapshot. -/
def finishing : ServiceLabel S R → Option AgentConfigureRequest
  | .agent (.resume .handler) =>
    match s.agent.handler with
    | .updating request .persisting => some request
    | _ => none
  | _ => none

/-- One step of the service. -/
def step (config : AgentConfig lib) (limit : ℕ) (s : AgentService lib S R) :
    ServiceLabel S R → Option (AgentService lib S R)
  | .agent label => (s.agent.step label).map fun agent =>
    if (s.finishing (.agent label)).isSome then
      { agent, operator := (s.agent.held.applyToOperator (configs config) s.operator).1 }
    else { s with agent }
  | .operator label => (s.operator.step limit label).map fun operator => { s with operator }

/-- The survey may task the western dome only. -/
def westDome : ControllerConfig (IntervalTrees.lists ℤ) :=
  { name := "west", tasking := [{ program := "survey" }] }

/-- Two domes that do not depend on each other. -/
def domes : AgentConfig (IntervalTrees.lists ℤ) where
  controllers := [{ name := "east" }, westDome]
  nodup := by decide

/-- A state with all gates open. -/
def openState : AgentState Unit Unit :=
  ⟨{ globalControlEnabled := true }, { schedulingEnabled := true }, ()⟩

end AgentService

end SensorKit.Auto
