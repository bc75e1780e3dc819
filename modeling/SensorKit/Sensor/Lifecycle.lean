import SensorKit.Sensor.Workflow

/-!
# Lifecycle tables

A table has phases of entries. An entry selects placements and runs its commands in order on each. A phase
follows the phase before it, or those that its `after` names, and waits for their completion; clauses of an
entry's `require` refine a wait. `TableCompiler` expands a table into planned steps, which are lowered to
the graphs of a workflow.
-/

namespace SensorKit.Sensor

open Lib Common

/-- Placements in structure traversal order. -/
def Topology.placements (t : Topology) : List Placement :=
  t.records.keys

inductive JoinKind where
  | all
  | sameDevice
  | sameChain
deriving DecidableEq, Repr

def JoinKind.name : JoinKind → String
  | .all => "all"
  | .sameDevice => "same-device"
  | .sameChain => "same-chain"

/-- A dependency on a named phase or entry, optionally narrowed by placement. -/
structure Join where
  name : String
  join : JoinKind := .all
  on : DependencyKind := .success
deriving DecidableEq, Repr

/-- A command and execution policy applied at each selected placement. -/
structure OpSpec where
  command : DeviceCommand
  optional : Bool := false
  unsupported : Unsupported := .error
  failFast : Option Bool := none
  sequence : DependencyKind := .success
  timeoutS : Option ℚ := none
deriving DecidableEq, Repr

/-- Resolve failure policy from the operation, phase, then table. -/
def OpSpec.effectiveFailFast (spec : OpSpec) (phase : Option Bool) (table : Bool) : Bool :=
  spec.failFast.getD (phase.getD table)

/-- A selection of placements and the commands to run on each. -/
structure Entry where
  select : Selection
  ops : List OpSpec
  exclude : Option Selection := none
  id : Option String := none
  require : List Join := []
  declares_ops : ops ≠ [] := by simp

namespace Entry

variable (entry : Entry)

/-- The selected placements after exclusions, in topology order. -/
def targets (sensor : BoundSensor) : Except PlanningError (List Placement) := do
  let selected ← keepM (entry.select.matches · (some sensor)) sensor.topology.placements
  match entry.exclude with
  | none => return selected
  | some exclude => keepM (fun p => do return !(← exclude.matches p (some sensor))) selected

/-- What names an entry in the origin of its operations: `id or position`. -/
def part (position : ℕ) : PathPart :=
  match entry.id with
  | none => .number position
  | some id => if id = "" then .number position else .name id

end Entry

/-- A named group of entries with inherited completion dependencies. -/
structure Phase where
  name : String
  entries : List Entry
  after : Option (List String) := none
  failFast : Option Bool := none

/-- A separate cleanup graph selected after the main workflow drains. -/
structure CleanupSpec where
  name : String
  entries : List Entry
  «when» : CleanupWhen := .always
  timeoutS : ℚ := 60
  armedBy : Option (List String) := none

/-- A named lifecycle table with phases, cleanup and a failure-policy default. -/
structure LifecycleWorkflow where
  name : String
  phases : List Phase
  failFast : Bool
  cleanup : List CleanupSpec := []

/-- Explicit predecessors, or the preceding phase when `after` is unset. -/
def LifecycleWorkflow.follows (table : LifecycleWorkflow) (index : ℕ) : List String :=
  match (table.phases[index]?).bind Phase.after with
  | some after => after
  | none => if index = 0 then [] else ((table.phases[index - 1]?).map Phase.name).toList

/-- A list of names, as a message shows it. -/
def shownNames (names : List String) : String :=
  "[" ++ ", ".intercalate (names.map fun name => "'" ++ name ++ "'") ++ "]"

/-- Single-use state for expanding a table into planned steps. -/
structure TableCompiler where
  table : LifecycleWorkflow
  sensor : BoundSensor
  steps : List PlannedStep := []
  deps : Dict String (List Dependency) := .empty
  «where» : Dict String Placement := .empty
  phaseSteps : Dict String (List String) := .empty
  phaseAfter : Dict String (List String) := .empty
  entrySteps : Dict String (List String) := .empty
  entryPhase : Dict String String := .empty
  emitted : ℕ := 0

namespace TableCompiler

variable (c : TableCompiler)

/-! ## Declarations -/

/-- One turn of the loop of `_declare_phase` over the entries. -/
def declareEntry (phase : String) (c : TableCompiler) (entry : Entry) : Except PlanningError TableCompiler :=
  match entry.id with
  | none => .ok c
  | some id =>
    if id ∈ c.entryPhase.keys then .error (.value ("duplicate entry id '" ++ id ++ "'"))
    else .ok { c with entryPhase := c.entryPhase.insert id phase }

/-- What a phase is declared to follow: `after`, or else the previous phase. One whose name is empty counts as none. -/
def following (phase : Phase) (previous : Option String) : List String :=
  match phase.after, previous with
  | some after, _ => after
  | none, some name => if name = "" then [] else [name]
  | none, none => []

/-- `_declare_phase`: register a phase and its entry ids, and return what it follows. -/
def declarePhase (phase : Phase) (previous : Option String) : Except PlanningError (TableCompiler × List String) := do
  if phase.name ∈ c.phaseSteps.keys then
    .error (.value ("duplicate phase name '" ++ phase.name ++ "'"))
  else
    let after := following phase previous
    let unknown := after.filter (· ∉ c.phaseSteps.keys)
    if unknown ≠ [] then
      .error (.value ("phase '" ++ phase.name ++ "': after names unknown or later phase(s) " ++ shownNames unknown ++
        "; phases may only follow earlier ones"))
    else
      let c := { c with
        phaseAfter := c.phaseAfter.insert phase.name after
        phaseSteps := c.phaseSteps.insert phase.name [] }
      let c ← phase.entries.foldlM (declareEntry phase.name) c
      return (c, after)

/-- `_targets`: an entry's targets, of which there must be some. -/
def targets (sensor : BoundSensor) («where» : String) (entry : Entry) : Except PlanningError (List Placement) := do
  let targets ← entry.targets sensor
  if targets = [] then
    .error (.value («where» ++ ": entry selects no device on this sensor (" ++ entry.select.modelDumpJson ++ ")"))
  else return targets

/-- One turn of the loop of `_selected` over the entries and their placements. Entries are told apart by position. -/
def reach («where» : String) (reached : Dict Placement (Entry × ℕ)) (turn : (Entry × ℕ) × Placement) :
    Except PlanningError (Dict Placement (Entry × ℕ)) :=
  match reached.get? turn.2 with
  | none => .ok (reached.insert turn.2 turn.1)
  | some held =>
    if held.2 = turn.1.2 then .ok reached
    else .error (.value («where» ++ ": '" ++ turn.2.device ++ "' is reached by two entries, " ++
      held.1.select.modelDumpJson ++ " and " ++ turn.1.1.select.modelDumpJson ++ "; narrow one with exclude"))

/-- `_selected`: the targets of a group of entries, which do not overlap. -/
def selected (sensor : BoundSensor) (entries : List Entry) («where» : String) :
    Except PlanningError (List (List Placement)) := do
  let chosen ← entries.mapM (targets sensor «where»)
  let _ ← ((entries.zipIdx.zip chosen).flatMap fun (entry, targets) => targets.map fun p => (entry, p)).foldlM
    (reach «where») .empty
  return chosen

/-- `_declaring_phase`: a target phase, or the phase declaring a target entry. -/
def declaringPhase (target «where» : String) : Except PlanningError String :=
  match c.entryPhase.get? target with
  | some phase => .ok phase
  | none =>
    if target ∈ c.phaseAfter.keys then .ok target
    else .error (.value («where» ++ ": require names unknown or later phase/entry '" ++ target ++ "'"))

/-- `_effective_steps`: a phase's steps, or recursively its predecessors' when empty. A phase follows earlier ones
only, so that the recursion is no deeper than there are phases. -/
def effectiveSteps : ℕ → String → List String
  | 0, _ => []
  | fuel + 1, phase =>
    let names := (c.phaseSteps.get? phase).getD []
    if names ≠ [] then names
    else (((c.phaseAfter.get? phase).getD []).flatMap (effectiveSteps fuel)).eraseDups

/-- The effective steps, with fuel for all phases. -/
def effective (phase : String) : List String :=
  c.effectiveSteps c.phaseSteps.keys.length phase

/-- `_soft_links`: inherited phase waits that explicit requirements do not replace. -/
def softLinks (entry : Entry) (after : List String) («where» : String) : Except PlanningError (List String) := do
  let required ← entry.require.mapM fun clause => c.declaringPhase clause.name «where»
  let shadowed := after.filter (· ∈ required)
  return ((after.filter (· ∉ shadowed)).flatMap c.effective).eraseDups

/-! ## Emission -/

/-- `_step`: a planned command with a unique internal name. -/
def step (spec : OpSpec) (placement : Placement) (group : String) (origin : List PathPart) (stated : Option Bool) :
    TableCompiler × PlannedStep :=
  let emitted := c.emitted + 1
  let step : PlannedStep :=
    { name := group ++ "/" ++ placement.device ++ "/" ++ toString emitted
      origin := { source := c.table.name, path := origin }
      group
      target := some placement
      command := some spec.command
      optional := spec.optional
      failFast := spec.effectiveFailFast stated c.table.failFast
      unsupported := spec.unsupported
      timeoutS := spec.timeoutS }
  ({ c with emitted, «where» := c.where.insert step.name placement }, step)

/-- What a command depends on at its placement: on the soft links if it is the first, else on the previous step. -/
def sequenced (spec : OpSpec) (soft : List String) : Option PlannedStep → List Dependency
  | none => Dependency.completion soft
  | some previous => [{ on := previous.name, kind := spec.sequence }]

/-- One turn of the inner loop of `_emit_entry`, over the steps at the placement so far. -/
def emitOp (placement : Placement) (soft : List String) (group : String) (origin : List PathPart)
    (stated : Option Bool) (state : TableCompiler × List PlannedStep) (op : OpSpec × ℕ) :
    TableCompiler × List PlannedStep :=
  let (c, step) := state.1.step op.1 placement group (origin ++ [.number op.2]) stated
  ({ c with deps := c.deps.insert step.name (sequenced op.1 soft state.2.getLast?) }, state.2 ++ [step])

/-- The serial commands of an entry at a placement. -/
def emitAt (entry : Entry) (soft : List String) (group : String) (origin : List PathPart) (stated : Option Bool)
    (placement : Placement) : TableCompiler × List PlannedStep :=
  entry.ops.zipIdx.foldl (emitOp placement soft group origin stated) (c, [])

/-- What `_emit_entry` has emitted: the steps, and each placement's first step. -/
structure Emitted where
  steps : List PlannedStep := []
  heads : List (Placement × String) := []

/-- `_emit_entry`: emit serial commands per placement. -/
def emitEntry (entry : Entry) (targets : List Placement) (soft : List String) (group : String)
    (origin : List PathPart) (stated : Option Bool) : TableCompiler × Emitted :=
  targets.foldl (fun (state : TableCompiler × Emitted) placement =>
    let (c, steps) := state.1.emitAt entry soft group origin stated placement
    (c, { steps := state.2.steps ++ steps
          heads := state.2.heads ++ (steps.head?.map fun step => (placement, step.name)).toList })) (c, {})

/-! ## Requirements -/

/-- `_narrowed`: filter target steps by the clause's device or path relationship. -/
def narrowed (clause : Join) (named : List String) (placement : Placement) : List String :=
  match clause.join with
  | .all => named
  | .sameDevice => named.filter fun name => (c.where.get? name).any (·.device = placement.device)
  | .sameChain => named.filter fun name => (c.where.get? name).any fun at_ =>
      placement.path.take at_.path.length = at_.path

/-- `_join`: filter a requirement's target steps and attach dependencies to the entry head. -/
def join (clause : Join) (named : List String) (placement : Placement) (head «where» : String) :
    Except PlanningError TableCompiler :=
  if named = [] then .error (.value («where» ++ ": require '" ++ clause.name ++ "' matches no step on this sensor"))
  else
    let narrowed := c.narrowed clause named placement
    -- An empty join would remove the inherited phase wait without replacing it.
    if narrowed = [] then
      .error (.value («where» ++ ": require '" ++ clause.name ++ "' with join='" ++ clause.join.name ++ "' " ++
        "matches no step for '" ++ placement.device ++ "'"))
    else
      let deps := (c.deps.get? head).getD [] ++ narrowed.map fun name => { on := name, kind := clause.on }
      .ok { c with deps := c.deps.insert head deps }

/-- The first steps of a group, with their entries and placements. -/
abbrev Heads := List (Entry × Placement × String)

/-- The steps that a clause names: those of an entry, or the effective ones of a phase. -/
def named (clause : Join) : List String :=
  if clause.name ∈ c.entryPhase.keys then (c.entrySteps.get? clause.name).getD [] else c.effective clause.name

/-- `_resolve_requires`: resolve entry requirements after emitting the whole phase, including peers. -/
def resolveRequires (heads : Heads) («where» : String) : Except PlanningError TableCompiler :=
  heads.foldlM (fun c (entry, placement, head) => entry.require.foldlM (fun (c : TableCompiler) clause =>
    c.join clause (c.named clause) placement head «where») c) c

/-! ## Phases and cleanup -/

/-- One turn of the loop of `_compile_phase`. -/
def compileEntry (phase : Phase) (after : List String) («where» : String) :
    TableCompiler × Heads → (Entry × List Placement) × ℕ → Except PlanningError (TableCompiler × Heads)
  | (c, heads), ((entry, targets), position) => do
    let soft ← c.softLinks entry after «where»
    let (c, emitted) := c.emitEntry entry targets soft phase.name [.name phase.name, entry.part position] phase.failFast
    let names := emitted.steps.map PlannedStep.name
    let c := { c with
      steps := c.steps ++ emitted.steps
      phaseSteps := c.phaseSteps.insert phase.name ((c.phaseSteps.get? phase.name).getD [] ++ names)
      entrySteps := match entry.id with
        | none => c.entrySteps
        | some id => c.entrySteps.insert id ((c.entrySteps.get? id).getD [] ++ names) }
    return (c, heads ++ emitted.heads.map fun (placement, head) => (entry, placement, head))

/-- `_compile_phase`: emit a phase and attach inherited and explicit dependencies. -/
def compilePhase (phase : Phase) (previous : Option String) : Except PlanningError TableCompiler := do
  let «where» := "phase '" ++ phase.name ++ "'"
  let (c, after) ← c.declarePhase phase previous
  let chosen ← selected c.sensor phase.entries «where»
  let (c, heads) ← (phase.entries.zip chosen).zipIdx.foldlM (compileEntry phase after «where») (c, [])
  c.resolveRequires heads «where»

/-- `_settled`: the steps with their accumulated dependencies. -/
def settled (steps : List PlannedStep) : List PlannedStep :=
  steps.map fun step => { step with deps := (c.deps.get? step.name).getD [] }

/-- `_declare_cleanup`: register entry ids and validate requirements within one cleanup spec. -/
def declareCleanup (spec : CleanupSpec) («where» : String) : Except PlanningError (Dict String (List String)) := do
  let declared ← spec.entries.foldlM (fun (declared : Dict String (List String)) entry => match entry.id with
    | none => .ok declared
    | some id =>
      if id ∈ declared.keys then .error (.value («where» ++ ": duplicate entry id '" ++ id ++ "'"))
      else .ok (declared.insert id [])) .empty
  let outside := (((spec.entries.flatMap Entry.require).map Join.name).filter
    (· ∉ declared.keys)).dedup.insertionSort (· ≤ ·)
  if outside ≠ [] then
    .error (.value («where» ++ ": require names entries outside it, " ++ ", ".intercalate outside ++
      "; a cleanup is ordered against itself " ++ "alone"))
  else return declared

/-- `_arming`: expand main-workflow entry ids into cleanup trigger step names. -/
def arming (spec : CleanupSpec) («where» : String) : Except PlanningError (Option (List String)) :=
  match spec.armedBy with
  | none => .ok none
  | some entries =>
    let unknown := (entries.filter (· ∉ c.entryPhase.keys)).dedup.insertionSort (· ≤ ·)
    if unknown ≠ [] then
      .error (.value («where» ++ ": armed_by names entries no phase declares, " ++ ", ".intercalate unknown))
    else .ok (some (entries.flatMap fun entry => (c.entrySteps.get? entry).getD []))

/-- What the first loop of `_cleanup` has emitted. -/
structure CleanupEmitted where
  declared : Dict String (List String)
  steps : List PlannedStep := []
  heads : Heads := []

/-- One turn of the first loop of `_cleanup`. -/
def cleanupEntry (spec : CleanupSpec) (state : TableCompiler × CleanupEmitted)
    (turn : (Entry × List Placement) × ℕ) : TableCompiler × CleanupEmitted :=
  let ((entry, targets), position) := turn
  let (c, emitted) := state.1.emitEntry entry targets [] spec.name
    [.name "cleanup", .name spec.name, entry.part position] none
  (c, {
    declared := match entry.id with
      | none => state.2.declared
      | some id =>
        let names := (state.2.declared.get? id).getD [] ++ emitted.steps.map PlannedStep.name
        state.2.declared.insert id names
    steps := state.2.steps ++ emitted.steps
    heads := state.2.heads ++ emitted.heads.map fun (placement, head) => (entry, placement, head) })

/-- `_cleanup`: compile a cleanup spec with internal dependencies and main-graph triggers. -/
def cleanup (spec : CleanupSpec) : Except PlanningError (TableCompiler × CleanupPlan) := do
  let «where» := "cleanup '" ++ spec.name ++ "'"
  let declared ← declareCleanup spec «where»
  let chosen ← selected c.sensor spec.entries «where»
  let (c, emitted) := (spec.entries.zip chosen).zipIdx.foldl (cleanupEntry spec) (c, { declared })
  let c ← emitted.heads.foldlM (fun c (entry, placement, head) => entry.require.foldlM
    (fun (c : TableCompiler) clause =>
      c.join clause ((emitted.declared.get? clause.name).getD []) placement head «where») c) c
  let armedBy ← c.arming spec «where»
  return (c, {
    steps := c.settled emitted.steps
    origin := { source := spec.name }
    «when» := spec.when
    timeoutS := spec.timeoutS
    armedBy })

/-- The loop of `run` over the phases. -/
def compilePhases : Except PlanningError TableCompiler := do
  let (c, _) ← c.table.phases.foldlM (fun ((c, previous) : TableCompiler × Option String) phase => do
    return (← c.compilePhase phase previous, some phase.name)) (c, none)
  return c

/-- Compile the cleanup specs, after all main-workflow trigger entries are indexed. -/
def compileCleanups : Except PlanningError (TableCompiler × List CleanupPlan) :=
  c.table.cleanup.foldlM (fun ((c, plans) : TableCompiler × List CleanupPlan) spec => do
    let (c, plan) ← c.cleanup spec
    return (c, plans ++ [plan])) (c, [])

end TableCompiler

/-- Compile a lifecycle table against a bound sensor. -/
def compileLifecycle (workflow : LifecycleWorkflow) (sensor : BoundSensor) (deadlines : List DeadlineRule)
    (rules : List OperatorRule) : Except PlanningError ExecutableWorkflow := do
  let c : TableCompiler := { table := workflow, sensor }
  let c ← c.compilePhases
  let (c, plans) ← c.compileCleanups
  lower workflow.name (c.settled c.steps) sensor plans deadlines rules

end SensorKit.Sensor
