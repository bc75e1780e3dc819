import SensorKit.Sensor.Workflow

/-!
# Compiling a bound collect

`CollectCompiler` emits planned steps in authored order: preparation, then for each epoch the settings
that have changed, an alignment point if asked for, and a block of captures for each instrument. It keeps
the governing setting of each placement and command type, the latest operation of each device and the
last capture of each instrument, from which it derives what a step waits for.
-/

namespace SensorKit.Sensor

open Lib

/-- State for deriving collect dependencies and planned steps. -/
structure CollectCompiler where
  steps : List PlannedStep := []
  /-- The governing command and its step, by placement and command type. -/
  governing : Dict (Placement × CommandType) (String × RoutedCommand) := .empty
  latest : Dict Placement String := .empty
  lastUnit : Dict Placement String := .empty
  prepared : List (Placement × String) := []
  emitted : ℕ := 0

namespace CollectCompiler

variable (collect : BoundCollect) (sensor : BoundSensor) (c : CollectCompiler)

/-- The name of the next step, that `_planned` gives it. -/
def nextName (group : String) (target : Option Placement) : String :=
  group ++ "/" ++ ((target.map Placement.device).getD "ordering") ++ "/" ++ toString (c.emitted + 1)

/-- Count and add a step. -/
def emit (step : PlannedStep) : CollectCompiler :=
  { c with steps := c.steps ++ [step], emitted := c.emitted + 1 }

/-- `_in_force`: whether the current setting has an equal command and timeout. -/
def inForce (routed : RoutedCommand) : Bool :=
  (c.governing.get? routed.governs).any (·.2 = routed)

/-- The step that `_setting` plans. -/
def settingStep (routed : RoutedCommand) (group : String) (path : List PathPart) : PlannedStep where
  name := c.nextName group (some routed.target)
  origin := ⟨collect.name, path, ""⟩
  group
  target := some routed.target
  command := some routed.command
  deps := Dependency.completion
    ((sensor.topology.readersOf routed.target).filterMap c.lastUnit.get? ++ (c.latest.get? routed.target).toList)
  failFast := collect.failFast
  timeoutS := routed.timeoutS

/-- `_setting`: emit a governing setting after preceding readers and device work complete. -/
def setting (routed : RoutedCommand) (group : String) (path : List PathPart) : CollectCompiler :=
  let step := c.settingStep collect sensor routed group path
  { c.emit step with
    governing := c.governing.insert routed.governs (step.name, routed)
    latest := c.latest.insert routed.target step.name }

/-- Emit one command of the preparation. -/
def prepareOne (routed : RoutedCommand) (position : ℕ) : CollectCompiler :=
  let step := c.settingStep collect sensor routed "prepare" [.name "prepare", .number position]
  { c.setting collect sensor routed "prepare" [.name "prepare", .number position] with
    prepared := c.prepared ++ [(routed.target, step.name)] }

/-- `_ports`: distinct selector-position commands from the participants' port paths. -/
def ports (participants : List Placement) : Except PlanningError (List RoutedCommand) := do
  let states ← participants.mapM sensor.topology.selectorStates
  return states.flatten.eraseDups.map fun state => { target := state.1, command := .selectPort state.2 }

/-- `_needs`: required successes and completion waits for an instrument's next block. -/
def needs (instrument : Placement) : Except PlanningError (List String × List String) := do
  let chain ← sensor.topology.chain instrument
  let governed := (c.governing.entries.filter (·.1.1 ∈ chain)).map (·.2.1)
  let prepared := (c.prepared.filter (·.1 ∈ chain)).map Prod.snd
  return ((governed ++ prepared).eraseDups, (c.lastUnit.get? instrument).toList)

/-- The acquisitions of an epoch by instrument, in first-seen order. -/
def blocks (units : List PlannedAcquisition) : Dict Placement (List PlannedAcquisition) :=
  units.foldl (fun blocks unit => blocks.insert unit.target ((blocks.get? unit.target).getD [] ++ [unit])) .empty

/-- The estimated duration of a block. -/
def span (units : List PlannedAcquisition) : ℚ :=
  (units.map PlannedAcquisition.estimatedDurationS).foldl (· + ·) 0

/-- The longest of the spans. -/
def longest (spans : List ℚ) : ℚ :=
  spans.max?.getD 0

/-- `_align`: a common readiness point, if the epoch asks for one, and the offsets of the blocks. -/
def align (epoch : BoundEpoch) (blocks : Dict Placement (List PlannedAcquisition)) (needs : List (List String × List String))
    (index : ℕ) : CollectCompiler × Option String × (List PlannedAcquisition → ℚ) :=
  if epoch.align ≠ .midpoint ∨ blocks.entries.length ≤ 1 then (c, none, fun _ => 0)
  else
    let group := "epoch " ++ toString index
    let step : PlannedStep :=
      { name := c.nextName group none
        origin := ⟨collect.name, [.number index, .name "align"], "align midpoints of epoch " ++ toString index⟩
        group
        deps := Dependency.completion ((needs.flatMap fun need => need.1 ++ need.2).eraseDups)
        failFast := collect.failFast }
    let longest := longest (blocks.values.map span)
    (c.emit step, some step.name, fun units => (longest - span units) / 2)

/-- The step of one acquisition of a block. -/
def unitStep (unit : PlannedAcquisition) (index : ℕ) (hard follows : List String) (delayS : ℚ) : PlannedStep :=
  let group := "epoch " ++ toString index
  { name := c.nextName group (some unit.target)
    origin := ⟨collect.name, [.number index, .name unit.acquisition.request, .number unit.acquisition.frameNumber], ""⟩
    group
    target := some unit.target
    command := some unit.command
    deps := hard.map (fun name => { on := name }) ++ Dependency.completion follows
    failFast := collect.failFast
    timeoutS := unit.timeoutS
    acquisition := some unit.acquisition
    delayS }

/-- The acquisitions of a block after its first, each of which follows the one before. -/
def emitRest (index : ℕ) (hard : List String) (state : CollectCompiler × String) (unit : PlannedAcquisition) :
    CollectCompiler × String :=
  let step := state.1.unitStep collect unit index hard [state.2] 0
  (state.1.emit step, step.name)

/-- `_emit_units`: emit one instrument's block with serial completion dependencies. -/
def emitUnits (units : List PlannedAcquisition) (index : ℕ) (hard soft : List String) (delayS : ℚ) : CollectCompiler :=
  match units with
  | [] => c
  | first :: rest =>
    let step := c.unitStep collect first index hard soft delayS
    let (c, previous) := rest.foldl (emitRest collect index hard) (c.emit step, step.name)
    { c with lastUnit := c.lastUnit.insert first.target previous }

/-- `_consistent`: check bound-epoch compatibility. -/
def consistent (epoch : BoundEpoch) (participants : List Placement) («where» : String) : Except PlanningError Unit := do
  exclusive sensor «where» participants
  let held ← epoch.settings.foldlM (fun (held : Held) routed => put held routed "the epoch" «where») .empty
  positioned held participants sensor «where»

/-- Emit a setting that has changed. -/
def change (index : ℕ) (c : CollectCompiler) (routed : RoutedCommand) : CollectCompiler :=
  if c.inForce routed then c
  else c.setting collect sensor routed ("epoch " ++ toString index) [.number index, .name routed.command.modelTag]

/-- The instruments of the units, in first-seen order. -/
def participants (units : List PlannedAcquisition) : List Placement :=
  (units.map PlannedAcquisition.target).eraseDups

/-- Emit the block of an instrument, whose needs are known. -/
def emitBlock (index : ℕ) (aligned : Option String) (offset : List PlannedAcquisition → ℚ) (c : CollectCompiler)
    (block : (Placement × List PlannedAcquisition) × List String × List String) : CollectCompiler :=
  c.emitUnits collect block.1.2 index block.2.1 (block.2.2 ++ aligned.toList) (offset block.1.2)

/-- `_compile_epoch`: emit changed settings and each instrument's acquisition block. -/
def compileEpoch (c : CollectCompiler) (epoch : BoundEpoch) (index : ℕ) : Except PlanningError CollectCompiler := do
  let participants := participants epoch.units
  consistent sensor epoch participants ("epoch " ++ toString index)
  let ports ← ports sensor participants
  let c := (ports ++ epoch.settings).foldl (change collect sensor index) c
  let blocks := blocks epoch.units
  let needs ← blocks.keys.mapM (c.needs sensor)
  let (c, aligned, offset) := c.align collect epoch blocks needs index
  return (blocks.entries.zip needs).foldl (emitBlock collect index aligned offset) c

/-- One turn of the loop of `_cleanup`, over the steps and the latest one of each device. -/
def cleanupStep (state : CollectCompiler × List PlannedStep × Dict Placement String) (routed : RoutedCommand × ℕ) :
    CollectCompiler × List PlannedStep × Dict Placement String :=
  let (c, steps, latest) := state
  let step : PlannedStep :=
    { name := c.nextName "cleanup" (some routed.1.target)
      origin := ⟨collect.name, [.name "cleanup", .number routed.2], ""⟩
      group := "cleanup"
      target := some routed.1.target
      command := some routed.1.command
      deps := Dependency.completion (latest.get? routed.1.target).toList
      failFast := false
      timeoutS := routed.1.timeoutS }
  ({ c with emitted := c.emitted + 1 }, steps ++ [step], latest.insert routed.1.target step.name)

/-- `_cleanup`: teardown armed by preparation, or by any command if there is none. -/
def cleanup : CleanupPlan :=
  let (_, steps, _) := collect.cleanup.zipIdx.foldl (cleanupStep collect) (c, [], .empty)
  { steps
    origin := ⟨collect.name, [.name "cleanup"], ""⟩
    «when» := .always
    timeoutS := collect.cleanupTimeoutS
    armedBy := some (if collect.prepare = [] then (c.steps.filter (·.command.isSome)).map PlannedStep.name
      else c.prepared.map Prod.snd) }

/-- The steps of the main graph. -/
def emission : Except PlanningError CollectCompiler := do
  let c : CollectCompiler := collect.prepare.zipIdx.foldl (fun c routed => c.prepareOne collect sensor routed.1 routed.2) {}
  collect.epochs.zipIdx.foldlM (fun c epoch => c.compileEpoch collect sensor epoch.1 epoch.2) c

end CollectCompiler

/-- `compile_collect`: compile a bound collect into executable graphs. -/
def compileCollect (collect : BoundCollect) (sensor : BoundSensor) (deadlines : List DeadlineRule)
    (rules : List OperatorRule) : Except PlanningError ExecutableWorkflow := do
  let c ← CollectCompiler.emission collect sensor
  lower collect.name c.steps sensor (if collect.cleanup = [] then [] else [c.cleanup collect]) deadlines rules

end SensorKit.Sensor
