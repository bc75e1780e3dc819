import Mathlib.Algebra.Order.Ring.Rat
import SensorKit.Sensor.Selection

/-!
# Routing commands to placements

Commands are routed to supporting placements on the chains of participating instruments. A sensor
subject uses one common target, an instrument subject routes per chain. Scope and selection narrow
the candidates.
-/

namespace SensorKit.Sensor

open Lib

/-- A registered command class: its tag, in the namespace it is registered in. -/
structure CommandType where
  tag : String
  «namespace» : Option String := none
deriving DecidableEq, Repr

/-- The value of a command's argument. -/
inductive Argument where
  | text (value : String)
  | number (value : ℚ)
  | nested (json : String)
deriving DecidableEq, Repr

namespace Argument

/-- The value as a diagnostic shows it. -/
def shown : Argument → String
  | .text value => "'" ++ value ++ "'"
  | .number value => toString value
  | .nested json => json

end Argument

/-- A command: its class, and the arguments that differ from their defaults. -/
structure DeviceCommand where
  commandType : CommandType
  arguments : List (String × Argument)
deriving DecidableEq, Repr

namespace DeviceCommand

def modelTag (c : DeviceCommand) : String := c.commandType.tag

/-- `SelectPort(port=port)`. -/
def selectPort (port : String) : DeviceCommand :=
  ⟨⟨"SelectPort", none⟩, [("port", .text port)]⟩

/-- `CameraCapture(integration_time=integration_time, context=None)`. -/
def cameraCapture (integrationTime : ℚ) : DeviceCommand :=
  ⟨⟨"CameraCapture", none⟩, [("integration_time", .number integrationTime)]⟩

/-- `format_command`: the name and the nondefault arguments. -/
def formatCommand (c : DeviceCommand) : String :=
  if c.arguments = [] then c.modelTag
  else c.modelTag ++ "(" ++ ", ".intercalate (c.arguments.map fun (k, v) => k ++ "=" ++ v.shown) ++ ")"

end DeviceCommand

inductive Scope where
  | any
  | «private»
  | shared
deriving DecidableEq, Repr

def Scope.name : Scope → String
  | .any => "any"
  | .private => "private"
  | .shared => "shared"

inductive Subject where
  | sensor
  | «instrument»
deriving DecidableEq, Repr

/-- Group all sensor participants together, or each instrument separately. -/
def partition (subject : Subject) (participants : List Placement) : List (List Placement) :=
  match subject with
  | .sensor => [participants]
  | .instrument => participants.map fun p => [p]

/-- A command with its target placement and optional explicit timeout. -/
structure RoutedCommand where
  target : Placement
  command : DeviceCommand
  timeoutS : Option ℚ := none
deriving DecidableEq, Repr

/-- The target placement and command type governing collect state. -/
def RoutedCommand.governs (r : RoutedCommand) : Placement × CommandType :=
  (r.target, r.command.commandType)

/-- Participant paths, for diagnostics. -/
def formatPaths (placements : List Placement) : String :=
  if placements = [] then "<no instrument>" else ", ".intercalate (placements.map Placement.pathStr)

/-- Choose command targets on a bound sensor. -/
structure CommandRouter where
  sensor : BoundSensor

namespace CommandRouter

variable (router : CommandRouter)

/-- `_reachable`: the participants' chains, each placement at its first occurrence. -/
def reachable (participants : List Placement) : Except PlanningError (List Placement) := do
  let chains ← participants.mapM router.sensor.topology.chain
  return chains.flatten.eraseDups

/-- Whether any device on the participating chains supports the command. -/
def supportedOn (command : String) (participants : List Placement) : Except PlanningError Bool := do
  return (← router.reachable participants).any fun p => command ∈ router.sensor.supportedCommands p.device

/-- `_named`: restrict reachable placements to an explicitly named device. -/
def named (device : String) (reachable : List Placement) (command : String) (participants : List Placement) :
    Except PlanningError (List Placement) :=
  match reachable.find? (·.device = device) with
  | none => .error (.value ("'" ++ device ++ "' is not on " ++ formatPaths participants))
  | some placement =>
    if command ∈ router.sensor.supportedCommands device then .ok [placement]
    else .error (.value ("'" ++ device ++ "' does not support '" ++ command ++ "'"))

/-- `_eligible`: chain membership and scope for one participant. -/
def eligible (placement participant : Placement) (scope : Scope) : Except PlanningError Bool := do
  if placement ∉ (← router.sensor.topology.chain participant) then return false
  match scope with
  | .private => return placement ∈ (← router.sensor.topology.private participant)
  | .shared => return placement ∉ (← router.sensor.topology.private participant)
  | .any => return true

/-- `_covering`: keep only candidates present on every participant's chain. -/
def covering (candidates participants : List Placement) (command : String) :
    Except PlanningError (List Placement) := do
  let common ← keepM (fun p => participants.allM fun q => do return p ∈ (← router.sensor.topology.chain q)) candidates
  if common = [] then
    .error (.value ("'" ++ command ++ "' is supported on " ++ formatPaths participants ++ ", but by no " ++
      "device every one of them looks through; a sensor-scope " ++ "command lands on one device or on none"))
  else return common

/-- Whether a reachable placement may take the command. -/
def candidate (command : String) (participants : List Placement) (select : Option Selection) (scope : Scope)
    (p : Placement) : Except PlanningError Bool := do
  if command ∉ router.sensor.supportedCommands p.device then return false
  if !(← participants.anyM fun q => router.eligible p q scope) then return false
  match select with
  | none => return true
  | some select => select.matches p (some router.sensor)

/-- The reachable placements, or the named one of them. -/
def restricted (device : Option String) (reachable : List Placement) (command : String)
    (participants : List Placement) : Except PlanningError (List Placement) :=
  match device with
  | none => .ok reachable
  | some device => router.named device reachable command participants

/-- The candidates that the subject admits. -/
def covered (subject : Subject) (candidates participants : List Placement) (command : String) :
    Except PlanningError (List Placement) :=
  match subject with
  | .sensor => router.covering candidates participants command
  | .instrument => .ok candidates

/-- The shallowest depth for a sensor, the deepest for an instrument. -/
def bestDepth (subject : Subject) (candidates : List Placement) : ℕ :=
  match subject with
  | .sensor => (candidates.map Placement.depth).min?.getD 0
  | .instrument => (candidates.map Placement.depth).max?.getD 0

/-- `_winner`: one target for a participant group, by filters and depth. -/
def winner (command : DeviceCommand) (subject : Subject) (participants : List Placement) (select : Option Selection)
    (scope : Scope) (device : Option String) : Except PlanningError Placement := do
  let tag := command.modelTag
  let reachable ← router.reachable participants
  let reachable ← router.restricted device reachable tag participants
  let candidates ← keepM (router.candidate tag participants select scope) reachable
  if candidates = [] then
    .error (.value ("no device on " ++ formatPaths participants ++ " supports '" ++ tag ++ "'" ++
      (if scope = .any then "" else " as a " ++ scope.name ++ " device") ++
      (if select.isNone then "" else " and satisfies the selection")))
  else
    let candidates ← router.covered subject candidates participants tag
    let winners := (candidates.filter (·.depth = bestDepth subject candidates)).insertionSort fun p q =>
      p.path < q.path ∨ p.path = q.path ∧ p.device ≤ q.device
    match winners with
    | [winner] => return winner
    -- Equal depths are ambiguous.
    | _ => .error (.value ("'" ++ tag ++ "' is supported by " ++
        ", ".intercalate (winners.map fun p => "'" ++ p.device ++ "'") ++ " at the same " ++ "position on " ++
        formatPaths participants ++ "; name one with device, or " ++ "set a scope"))

/-- Choose targets for a command, one routed command per target. -/
def route (command : DeviceCommand) (subject : Subject) (participants : List Placement) (select : Option Selection)
    (scope : Scope) (device : Option String) : Except PlanningError (List RoutedCommand) := do
  let targets ← (partition subject participants).mapM fun group =>
    router.winner command subject group select scope device
  return targets.eraseDups.map fun target => { target, command }

/-! ## Where commands go -/

variable {router} {command : DeviceCommand} {subject : Subject} {participants : List Placement}
  {select : Option Selection} {scope : Scope} {device : Option String} {p : Placement}

theorem onChain_of_reachable {placements : List Placement} (h : router.reachable participants = .ok placements)
    (mem : p ∈ placements) : ∃ q, router.sensor.topology.OnChain q p := by
  simp only [reachable, bind_eq_ok, pure_eq_ok] at h
  obtain ⟨chains, visited, rfl⟩ := h
  obtain ⟨chain, mem, inside⟩ := List.mem_flatten.1 (List.mem_eraseDups.1 mem)
  obtain ⟨q, -, found⟩ := exists_of_mem_mapM visited mem
  exact ⟨q, chain, Topology.lookup_eq_ok.1 found, inside⟩

theorem mem_of_named {tag name : String} {reachable kept : List Placement}
    (h : router.named name reachable tag participants = .ok kept) (mem : p ∈ kept) : p ∈ reachable := by
  simp only [named] at h
  split at h
  · simp at h
  · rename_i placement found
    split_ifs at h
    cases h
    obtain rfl := List.mem_singleton.1 mem
    exact List.mem_of_find?_eq_some found

theorem mem_of_covering {tag : String} {candidates kept : List Placement}
    (h : router.covering candidates participants tag = .ok kept) (mem : p ∈ kept) : p ∈ candidates := by
  simp only [covering, bind_eq_ok] at h
  obtain ⟨common, tested, h⟩ := h
  split_ifs at h
  obtain rfl := pure_eq_ok.1 h
  exact (mem_of_keepM tested mem).1

theorem onChain_of_winner (h : router.winner command subject participants select scope device = .ok p) :
    ∃ q, router.sensor.topology.OnChain q p := by
  simp only [winner, bind_eq_ok] at h
  obtain ⟨placements, reached, named, restricted, candidates, tested, h⟩ := h
  split_ifs at h
  obtain ⟨common, covered, h⟩ := bind_eq_ok.1 h
  split at h
  case h_2 => simp at h
  rename_i best eq
  obtain rfl := pure_eq_ok.1 h
  have winner : best ∈ common := by
    have : best ∈ [best] := by simp
    rw [← eq, List.mem_insertionSort] at this
    exact List.mem_of_mem_filter this
  have mem : best ∈ candidates := by
    cases subject with
    | sensor => exact mem_of_covering covered winner
    | «instrument» => exact Except.ok.inj covered ▸ winner
  have mem : best ∈ named := (mem_of_keepM tested mem).1
  refine onChain_of_reachable reached ?_
  cases device with
  | none => exact Except.ok.inj restricted ▸ mem
  | some name => exact mem_of_named restricted mem

/-- **A routed command goes to a placement on a chain.** -/
theorem onChain_of_route {routed : List RoutedCommand} {r : RoutedCommand}
    (h : router.route command subject participants select scope device = .ok routed) (mem : r ∈ routed) :
    ∃ q, router.sensor.topology.OnChain q r.target := by
  simp only [route, bind_eq_ok, pure_eq_ok] at h
  obtain ⟨targets, won, rfl⟩ := h
  obtain ⟨target, found, rfl⟩ := List.mem_map.1 mem
  obtain ⟨group, -, won⟩ := exists_of_mem_mapM won (List.mem_eraseDups.1 found)
  exact onChain_of_winner won

end CommandRouter

end SensorKit.Sensor
