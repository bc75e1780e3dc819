import SensorKit.Sensor.Lifecycle

/-!
# Site policies

Policies generate the standard tables. What a generated table would run where a sensor has no equipment for
it is pruned when tables are composed; its phases stay, with their order.
-/

namespace SensorKit.Sensor

open Lib

/-- Site options for generating standard lifecycle tables. -/
structure SensorPolicies where
  concurrentDomeAndMountInit : Bool := false
  concurrentDomeAndMountDeinit : Bool := false
  concurrentDomeInitOpen : Bool := false
  concurrentDomeDeinitClose : Bool := false
  alwaysDeinitDome : Bool := false
  concurrentMountAndMirrorCoverInit : Bool := false
deriving DecidableEq, Repr

/-- `_ops`: a default-argument command, omitted when the target lacks support. -/
def op (tag : String) (sequence : DependencyKind := .success) (optional : Bool := false)
    (failFast : Option Bool := none) : OpSpec :=
  { command := ⟨⟨tag, none⟩, []⟩, unsupported := .omit, sequence, optional, failFast }

/-- An entry for the devices that support a command. -/
def supporting (tag : String) (ops : List OpSpec) (id : Option String := none) (declares_ops : ops ≠ [] := by simp) :
    Entry :=
  { select := .supports tag, ops, id, declares_ops }

namespace SensorPolicies

variable (policies : SensorPolicies)

/-- `_init_table`. -/
def initTable : LifecycleWorkflow :=
  -- A dome lacking Init must still open and close.
  let enclosure := "CloseEnclosure"
  -- Separate phases permit overlap without duplicate targets in a phase.
  let dome : List Phase :=
    if policies.concurrentDomeInitOpen then
      [{ name := "enclosure-init", after := some [], entries := [supporting enclosure [op "Init"] "init-enclosure"] },
        { name := "enclosure-open", after := some [],
          entries := [supporting enclosure [op "OpenEnclosure"] "open-enclosure"] }]
    else
      [{ name := "enclosure",
          entries := [supporting enclosure [op "Init", op "OpenEnclosure"] "init-open-enclosure"] }]
  let opened := dome.map Phase.name
  let mountAfter := if policies.concurrentDomeAndMountInit then [] else opened
  -- Cover opening either shares mount prerequisites or waits for dome and mount.
  let opticsAfter := if policies.concurrentMountAndMirrorCoverInit then mountAfter else opened ++ ["mount"]
  let phases := dome ++
    [{ name := "mount", after := some mountAfter, entries := [supporting "FollowTarget" [op "Init"] "init-mount"] },
      { name := "optics", after := some opticsAfter,
        entries := [supporting "CloseMirrorCover" [op "OpenMirrorCover"] "open-mirror-cover"] }]
  -- Any attempted bring-up command arms one halt on failure or domain abort.
  let halt : CleanupSpec :=
    { name := "halt"
      entries := [{ select := .kind "any", ops := [op "Stop" .success true (some false)] }]
      «when» := .failureOrCancelled
      armedBy := some ((phases.flatMap Phase.entries).filterMap Entry.id) }
  { name := "init", phases, failFast := true, cleanup := [halt] }

/-- The phases of `_shutdown_table` that close the dome. -/
def closing : List Phase :=
  if policies.concurrentDomeDeinitClose then
    [{ name := "enclosure-close", after := some ["halt"],
        entries := [supporting "CloseEnclosure" [op "CloseEnclosure"]] },
      { name := "enclosure-deinit", after := some ["halt"], entries := [supporting "CloseEnclosure" [op "Deinit"]] }]
  else
    -- When always is set, failed closure must still allow deinitialization.
    let deinit := op "Deinit" (if policies.alwaysDeinitDome then .completion else .success)
    [{ name := "enclosure", after := some ["halt"],
        entries := [supporting "CloseEnclosure" [op "CloseEnclosure", deinit]] }]

/-- `_shutdown_table`. -/
def shutdownTable : LifecycleWorkflow where
  name := "shutdown"
  failFast := !policies.alwaysDeinitDome
  phases :=
    [{ name := "optics", entries := [supporting "CloseMirrorCover" [op "CloseMirrorCover"]] },
      { name := "mount", after := some ["optics"], entries := [supporting "FollowTarget" [op "Deinit"]] },
      -- Attempt enclosure Stop before closure; failure must not block closing.
      { name := "halt", after := some [if policies.concurrentDomeAndMountDeinit then "optics" else "mount"],
        entries := [supporting "CloseEnclosure" [op "Stop" .success true (some false)]] }] ++
    policies.closing

/-- `tables`: the `init`, `standby`, `shutdown` and `recover` tables. -/
def tables : List LifecycleWorkflow :=
  let every := Selection.kind "any"
  -- Complete reconnect attempts before stopping motion.
  let recover : LifecycleWorkflow :=
    { name := "recover"
      failFast := false
      phases := [{ name := "reconnect", entries := [{ select := every, ops := [op "Connect"] }] },
        { name := "halt", entries := [{ select := every, ops := [op "Stop"] }] }] }
  [policies.initTable, { policies.initTable with name := "standby" }, policies.shutdownTable, recover]

end SensorPolicies

/-! ## Pruning -/

/-- The entries that select something. -/
def selecting (sensor : BoundSensor) (entries : List Entry) : Except PlanningError (List Entry) :=
  keepM (fun entry => do return (← entry.targets sensor) ≠ []) entries

/-- `_pruned_cleanup`: prune cleanup entries and trigger ids, or return none when unusable. -/
def prunedCleanup (sensor : BoundSensor) (kept : List (Option String)) (spec : CleanupSpec) :
    Except PlanningError (Option CleanupSpec) := do
  let entries ← selecting sensor spec.entries
  let armedBy := spec.armedBy.map (·.filter (some · ∈ kept))
  if entries = [] ∨ spec.armedBy.any (· ≠ []) ∧ armedBy.all (· = []) then return none
  else return some { spec with entries, armedBy }

/-- `_pruned`: a generated table without empty selections, retaining its phases. -/
def pruned (sensor : BoundSensor) (table : LifecycleWorkflow) : Except PlanningError LifecycleWorkflow := do
  let phases ← table.phases.mapM fun phase => do return { phase with entries := ← selecting sensor phase.entries }
  let kept := (phases.flatMap Phase.entries).map Entry.id
  let cleanup ← table.cleanup.mapM (prunedCleanup sensor kept)
  return { table with phases, cleanup := cleanup.reduceOption }

/-- `compose_tables`, up to the check of the composed definition: authored tables replace generated ones by name. -/
def composeTables (authored generated : List LifecycleWorkflow) (sensor : BoundSensor) :
    Except PlanningError (List LifecycleWorkflow) := do
  let unmatched := generated.filter fun table => table.name ∉ authored.map LifecycleWorkflow.name
  return authored ++ (← unmatched.mapM (pruned sensor))

end SensorKit.Sensor
