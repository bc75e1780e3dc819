import SensorKit.Common.Dag
import SensorKit.Sensor.Collect

/-!
# Planned steps and their graphs

Compilers emit named steps with dependencies. `lower` checks names and capabilities, resolves
deadlines and operator rules, and builds graphs. Success dependencies become hard edges, completion
dependencies soft ones. An unsupported step that may be omitted produces no node, and its dependents
inherit its dependencies.
-/

namespace SensorKit.Sensor

open Lib Common

/-- A part of an authored path. -/
inductive PathPart where
  | name (name : String)
  | number (number : ℤ)
deriving DecidableEq, Repr

def PathPart.shown : PathPart → String
  | .name text => text
  | .number n => toString n

/-- Authored source, path and explanatory reason. -/
structure Origin where
  source : String
  path : List PathPart := []
  reason : String := ""
deriving DecidableEq, Repr

def Origin.shown (o : Origin) : String :=
  "/".intercalate (o.source :: o.path.map PathPart.shown)

inductive DependencyKind where
  | success
  | completion
deriving DecidableEq, Repr

/-- A named predecessor and the condition required before a step may run. -/
structure Dependency where
  on : String
  kind : DependencyKind := .success
deriving DecidableEq, Repr

def Dependency.completion (names : List String) : List Dependency :=
  names.map fun name => { on := name, kind := .completion }

inductive Unsupported where
  | error
  | omit
deriving DecidableEq, Repr

/-- A compiler's command or ordering step before graph construction. -/
structure PlannedStep where
  name : String
  origin : Origin
  group : String
  target : Option Placement := none
  command : Option DeviceCommand := none
  deps : List Dependency := []
  optional : Bool := false
  failFast : Bool := true
  unsupported : Unsupported := .error
  timeoutS : Option ℚ := none
  acquisition : Option Acquisition := none
  delayS : ℚ := 0
deriving DecidableEq, Repr

/-- The text, with blanks up to the width. -/
def padRight (width : ℕ) (text : String) : String :=
  text ++ String.ofList (List.replicate (width - text.length) ' ')

def PlannedStep.label (step : PlannedStep) : String :=
  match step.command, step.target with
  | some command, some target => padRight 18 command.formatCommand ++ " " ++ target.device ++ " @ " ++ target.pathStr
  | _, _ => if step.origin.reason = "" then step.name else step.origin.reason

/-- A graph payload containing one command for one placement. -/
structure Operation where
  target : Placement
  command : DeviceCommand
  origin : Origin
  timeoutS : Option ℚ := none
  acquisition : Option Acquisition := none
deriving DecidableEq, Repr

/-- The origin and target device label used in logs and audits. -/
def Operation.id (op : Operation) : String :=
  op.origin.shown ++ "@" ++ op.target.device

/-- An unsupported step removed during graph compilation. -/
structure Omission where
  origin : Origin
  target : Placement
  command : String
  reason : String
deriving DecidableEq, Repr

/-! ## Deadlines -/

inductive DeadlineTarget where
  | device (device : String)
  | «trait» (trait : String)
  | any
deriving DecidableEq, Repr

/-- `_named_target`. -/
def DeadlineTarget.named : DeadlineTarget → String
  | .device d => "device '" ++ d ++ "'"
  | .trait t => "trait '" ++ t ++ "'"
  | .any => "any"

/-- A time limit for one command, or every command, on a device, trait or any target. -/
structure DeadlineRule where
  target : DeadlineTarget
  command : Option String := none
  seconds : ℚ
deriving DecidableEq, Repr

/-- How specific a deadline rule is. -/
inductive Rung where
  | device
  | «trait»
  | any
deriving DecidableEq, Repr

/-- `_addressing`: rules at one specificity that match the placement. -/
def addressing (rules : List DeadlineRule) (rung : Rung) (target : Placement) (traits : List String) :
    List DeadlineRule :=
  rules.filter fun r => match rung, r.target with
    | .device, .device d => d = target.device
    | .trait, .trait t => t ∈ traits
    | .any, .any => true
    | _, _ => false

/-- `_the_rule`: require exactly one matching rule at the winning specificity. -/
def theRule (matched : List DeadlineRule) (command : String) (target : Placement) : Except PlanningError DeadlineRule :=
  match matched with
  | [rule] => .ok rule
  | _ => .error (.value ("'" ++ command ++ "' on '" ++ target.device ++ "' is given a deadline by " ++
      ", ".intercalate ((matched.map (·.target.named)).insertionSort (· ≤ ·)) ++ "; " ++
      "nothing ranks them, so name the device instead"))

/-- The first specificity at which a rule matches decides. -/
def firstAddressing (command : String) (target : Placement) (traits : List String) :
    List (List DeadlineRule × Rung) → Except PlanningError (Option ℚ)
  | [] => .ok none
  | (rules, rung) :: rest => do
    let matched := addressing rules rung target traits
    if matched = [] then firstAddressing command target traits rest
    else return some (← theRule matched command target).seconds

/-- Resolve an operation timeout from an explicit value or deadline rules. -/
def resolveDeadline (command : String) (target : Placement) (stated : List DeadlineRule) (explicit : Option ℚ)
    (facts : BoundSensor) : Except PlanningError (Option ℚ) :=
  match explicit with
  | some seconds => .ok (some seconds)
  | none =>
    let named := stated.filter (·.command = some command)
    let every := stated.filter (·.command = none)
    firstAddressing command target (facts.traits target)
      [(named, .device), (named, .trait), (named, .any), (every, .device), (every, .trait), (every, .any)]

/-! ## Operator rules -/

/-- An explained override of selected operations' outcomes or failure policy. It selects by
placement or by command, it changes something, and an outcome excludes a failure policy. -/
structure OperatorRule where
  reason : String
  select : Option Selection := none
  commands : List String := []
  /-- Whether the outcome is `ok`, or else `skipped`. -/
  outcome : Option Bool := none
  failFast : Option Bool := none
  optional : Option Bool := none
  addresses : select.isSome = true ∨ commands ≠ []
  changes : outcome.isSome = true ∨ failFast.isSome = true ∨ optional.isSome = true
  one_kind : outcome.isSome = true → failFast = none ∧ optional = none

/-- The command and placement filters against a planned step. -/
def OperatorRule.«matches» (rule : OperatorRule) (step : PlannedStep) (facts : BoundSensor) :
    Except PlanningError Bool :=
  match step.command, step.target with
  | some command, some target => do
    let selected ← match rule.select with
      | none => .ok true
      | some select => select.matches target (some facts)
    return selected && (rule.commands.isEmpty || command.modelTag ∈ rule.commands)
  | _, _ => .ok false

/-- `_effects`: node failure policy and the first matching operator rule. -/
def effects (step : PlannedStep) (rules : List OperatorRule) (facts : BoundSensor) :
    Except PlanningError (OnFailure × Bool × Option NodeOverride) := do
  let policy (failFast : Bool) : OnFailure := if failFast then .stop else .skip
  match ← rules.findM? (·.matches step facts) with
  | none => return (policy step.failFast, step.optional, none)
  | some rule => return (policy (rule.failFast.getD step.failFast), rule.optional.getD step.optional,
      rule.outcome.map fun ok => { ok, reason := rule.reason })

/-! ## Graphs of steps -/

/-- `_checked`: index steps after checking names, command-target pairs and dependencies. -/
def checked (steps : List PlannedStep) : Except PlanningError (Dict String PlannedStep) := do
  let byName ← steps.foldlM (fun (byName : Dict String PlannedStep) step =>
    if step.name ∈ byName.keys then .error (.value ("two steps are named '" ++ step.name ++ "'"))
    else if step.command.isNone ≠ step.target.isNone then
      .error (.value ("step '" ++ step.name ++ "' has no " ++ (if step.target.isNone then "target" else "command") ++
        "; a command and the " ++ "placement receiving it are set together or not at all"))
    else .ok (byName.insert step.name step)) .empty
  let dangling := ((steps.flatMap fun step => step.deps.map Dependency.on).filter
    (· ∉ byName.keys)).dedup.insertionSort (· ≤ ·)
  if dangling = [] then return byName
  else .error (.value ("steps depend on names nothing emitted: " ++ ", ".intercalate dangling))

/-- One turn of the loop of `_fates`, over the omitted names and their records. -/
def fate (facts : BoundSensor) :
    List String × List Omission → PlannedStep → Except PlanningError (List String × List Omission)
  | (omitted, omissions), step =>
    match step.command, step.target with
    | some command, some target =>
      let named := command.modelTag
      if named ∈ facts.supportedCommands target.device then .ok (omitted, omissions)
      else
        let reason := "'" ++ target.device ++ "' does not support '" ++ named ++ "'"
        match step.unsupported with
        | .error => .error (.value ("step '" ++ step.name ++ "': " ++ reason))
        | .omit => .ok (omitted ++ [step.name],
            omissions ++ [{ origin := step.origin, target, command := named, reason }])
    | _, _ => .ok (omitted, omissions)

/-- `_fates`: find unsupported steps to omit and record their reasons. -/
def fates (steps : List PlannedStep) (facts : BoundSensor) : Except PlanningError (List String × List Omission) :=
  steps.foldlM (fate facts) ([], [])

/-- One turn of the loop of `_merged`. -/
def mergeDep (kinds : Dict String DependencyKind) (dep : Dependency) : Dict String DependencyKind :=
  if kinds.get? dep.on = some .success then kinds else kinds.insert dep.on dep.kind

/-- `_merged`: merge duplicate predecessors, retaining success requirements. -/
def merged (deps : List Dependency) : List Dependency :=
  (deps.foldl mergeDep .empty).entries.map fun (name, kind) => { on := name, kind }

abbrev ResolvedDeps := Dict String (List Dependency)

/-- `_resolve`: replace omitted predecessors with their dependencies recursively. A name is seen
once on the way, so the recursion is no deeper than there are steps. -/
def resolveStep (byName : Dict String PlannedStep) (omitted : List String) :
    ℕ → String → ResolvedDeps → List String → Except PlanningError (ResolvedDeps × List Dependency)
  | 0, name, _, _ => .error (.value ("omitted steps depend on each other, through '" ++ name ++ "'"))
  | fuel + 1, name, resolved, seen =>
    match resolved.get? name with
    | some deps => .ok (resolved, deps)
    | none =>
      if name ∈ seen then .error (.value ("omitted steps depend on each other, through '" ++ name ++ "'"))
      else do
        let deps := ((byName.get? name).map PlannedStep.deps).getD []
        let (resolved, here) ← deps.foldlM (fun (resolved, here) dep =>
          if dep.on ∈ omitted then do
            let (resolved, inherited) ← resolveStep byName omitted fuel dep.on resolved (name :: seen)
            return (resolved, here ++ inherited.map fun (i : Dependency) =>
              { on := i.on, kind := if dep.kind = .success ∧ i.kind = .success then .success else .completion })
          else return (resolved, here ++ [dep])) (resolved, [])
        return (resolved.insert name (merged here), merged here)

/-- `_resolved`: each step's dependencies through omitted predecessors. -/
def resolvedDeps (byName : Dict String PlannedStep) (omitted : List String) : Except PlanningError ResolvedDeps :=
  byName.keys.foldlM (fun resolved name => do
    let (resolved, _) ← resolveStep byName omitted (byName.keys.length + 1) name resolved []
    return resolved) .empty

/-- What the first loop of `_compile` has built. -/
structure Compiling where
  builder : GraphBuilder (Option Operation) := {}
  nodes : Dict String ℕ := .empty
  operations : Dict String Operation := .empty

/-- `Operation.planned` with its deadline, none for an ordering step. -/
def planned (step : PlannedStep) (facts : BoundSensor) (deadlines : List DeadlineRule) :
    Except PlanningError (Option Operation) :=
  match step.command, step.target with
  | some command, some target => do
    let timeoutS ← resolveDeadline command.modelTag target deadlines step.timeoutS facts
    return some { target, command, origin := step.origin, timeoutS, acquisition := step.acquisition }
  | _, _ => .ok none

/-- One turn of the first loop of `_compile`. -/
def Compiling.add (facts : BoundSensor) (deadlines : List DeadlineRule) (rules : List OperatorRule)
    (omitted : List String) (c : Compiling) (step : PlannedStep) : Except PlanningError Compiling := do
  if step.name ∈ omitted then return c
  else
    let payload ← planned step facts deadlines
    let (onFailure, optional, override) ← effects step rules facts
    return {
      builder := c.builder.add step.label step.group payload onFailure optional step.delayS override
      nodes := c.nodes.insert step.name c.builder.nodes.length
      operations := match payload with
        | some op => c.operations.insert step.name op
        | none => c.operations }

/-- The nodes that a step's dependencies of a kind name. -/
def edges (nodes : Dict String ℕ) (deps : List Dependency) (kind : DependencyKind) : List ℕ :=
  (deps.filter (·.kind = kind)).filterMap fun d => nodes.get? d.on

/-- The second loop of `_compile`: add the edges. -/
def Compiling.edged (c : Compiling) (resolved : ResolvedDeps) : GraphBuilder (Option Operation) :=
  c.nodes.entries.foldl (fun builder (named, nid) =>
    let deps := (resolved.get? named).getD []
    (builder.require nid (edges c.nodes deps .success)).order nid (edges c.nodes deps .completion)) c.builder

/-- `builder.build()`, with its value error. -/
def built (builder : GraphBuilder (Option Operation)) : Except PlanningError (Graph (Option Operation)) :=
  match builder.build with
  | .ok graph => .ok graph
  | .error message => .error (.value message)

/-- `_compile`: one step list into a graph, operation index and omission records. -/
def compile (steps : List PlannedStep) (facts : BoundSensor) (deadlines : List DeadlineRule)
    (rules : List OperatorRule) :
    Except PlanningError (Graph (Option Operation) × Dict String Operation × List Omission) := do
  let byName ← checked steps
  let (omitted, omissions) ← fates steps facts
  let resolved ← resolvedDeps byName omitted
  let c ← steps.foldlM (Compiling.add facts deadlines rules omitted) {}
  let graph ← built (c.edged resolved)
  return (graph, c.operations, omissions)

/-! ## Workflows -/

inductive CleanupWhen where
  | always
  | failure
  | cancelled
  | failureOrCancelled
deriving DecidableEq, Repr

/-- Planned cleanup steps with outcome, timeout and arming conditions. -/
structure CleanupPlan where
  steps : List PlannedStep
  origin : Origin
  «when» : CleanupWhen := .always
  timeoutS : ℚ := 60
  armedBy : Option (List String) := none

/-- A separate graph eligible to run after the main graph drains. -/
structure Cleanup where
  graph : Graph (Option Operation)
  «when» : CleanupWhen
  timeoutS : ℚ
  origin : Origin
  armedBy : Option (List Operation) := none

/-- A compiled graph with cleanup graphs and omissions. -/
structure ExecutableWorkflow where
  name : String
  graph : Graph (Option Operation)
  cleanup : List Cleanup := []
  omissions : List Omission := []

/-- `_operations`: operation payloads, without ordering nodes. -/
def operationsOf (graph : Graph (Option Operation)) : List Operation :=
  graph.nodes.filterMap Node.payload

/-- `_arming`: resolve named cleanup triggers to emitted main-workflow operations. -/
def arming (plan : CleanupPlan) (steps : List PlannedStep) (operations : Dict String Operation) :
    Except PlanningError (Option (List Operation)) :=
  match plan.armedBy with
  | none => .ok none
  | some names =>
    let unknown := (names.filter (· ∉ steps.map PlannedStep.name)).dedup.insertionSort (· ≤ ·)
    if unknown = [] then .ok (some (names.filterMap operations.get?))
    else .error (.value ("cleanup '" ++ plan.origin.source ++ "' arms on steps the run does not " ++ "hold: " ++
      ", ".intercalate unknown))

/-- `_deadlines_within`: validate numeric operation deadlines. -/
def deadlinesWithin (operations : List Operation) (graph : String) : Except PlanningError Unit :=
  operations.forM fun operation => match operation.timeoutS with
    | none => .ok ()
    | some timeout =>
      if 0 < timeout then .ok ()
      else .error (.value ("operation '" ++ operation.id ++ "' in " ++ graph ++ " resolved to a deadline " ++ "of " ++
        toString timeout ++ " seconds"))

/-- `_bounded`: validate a cleanup graph's timeout and its operation deadlines. -/
def bounded (plan : Cleanup) : Except PlanningError Unit := do
  let named := "cleanup '" ++ plan.origin.source ++ "'"
  if 0 < plan.timeoutS then deadlinesWithin (operationsOf plan.graph) named
  else .error (.value (named ++ " has a total deadline of " ++ toString plan.timeoutS ++ " seconds"))

/-- `_armed_within`: check that cleanup triggers belong to the main graph. -/
def armedWithin (plan : Cleanup) (held : List Operation) : Except PlanningError Unit :=
  let outside := ((plan.armedBy.getD []).filter (· ∉ held)).map Operation.id
  if outside = [] then .ok ()
  else .error (.value ("cleanup '" ++ plan.origin.source ++ "' arms on operations the run does " ++ "not hold: " ++
    ", ".intercalate outside))

/-- `_validated`: check operation labels, deadlines and cleanup trigger membership. -/
def validated (workflow : ExecutableWorkflow) : Except PlanningError Unit := do
  let operations := operationsOf workflow.graph
  let ids := operations.map Operation.id
  let dupes := (ids.filter fun i => 1 < ids.count i).dedup.insertionSort (· ≤ ·)
  if dupes = [] then
    deadlinesWithin operations "the run"
    workflow.cleanup.forM fun plan => do
      bounded plan
      armedWithin plan operations
  else .error (.value ("operations share an id: " ++ ", ".intercalate dupes))

/-- A cleanup graph of its plan, with its omissions. -/
def tearDown (plan : CleanupPlan) (steps : List PlannedStep) (operations : Dict String Operation)
    (facts : BoundSensor) (deadlines : List DeadlineRule) (rules : List OperatorRule) :
    Except PlanningError (Cleanup × List Omission) := do
  let (graph, _, unbuilt) ← compile plan.steps facts deadlines rules
  let armedBy ← arming plan steps operations
  return (⟨graph, plan.when, plan.timeoutS, plan.origin, armedBy⟩, unbuilt)

/-- Build executable main and cleanup graphs from planned steps. -/
def lower (name : String) (steps : List PlannedStep) (facts : BoundSensor) (cleanup : List CleanupPlan)
    (deadlines : List DeadlineRule) (rules : List OperatorRule) : Except PlanningError ExecutableWorkflow := do
  let (graph, operations, omissions) ← compile steps facts deadlines rules
  let plans ← cleanup.mapM fun plan => tearDown plan steps operations facts deadlines rules
  let workflow : ExecutableWorkflow :=
    { name, graph, cleanup := plans.map Prod.fst, omissions := omissions ++ plans.flatMap Prod.snd }
  validated workflow
  return workflow

end SensorKit.Sensor
