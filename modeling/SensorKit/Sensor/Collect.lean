import SensorKit.Sensor.Routing

/-!
# Collects and their packing

An authored collect lists epochs of instrument requests under settings. `pack` chooses
instruments, routes the settings and splits requests that cannot share an epoch, and returns a
collect whose settings are routed to placements and whose units are camera captures.
-/

namespace SensorKit.Sensor

open Lib

/-- Integration time and optional command timeout for one capture. -/
structure AcquisitionRequest where
  integrationTimeS : ℚ
  timeoutS : Option ℚ := none
deriving DecidableEq, Repr

/-- A command request with routing filters and an optional explicit timeout. -/
structure CommandRequest where
  command : DeviceCommand
  subject : Subject := .instrument
  select : Option Selection := none
  scope : Scope := .any
  device : Option String := none
  timeoutS : Option ℚ := none
  requires : List Selection := []
  prefers : List Selection := []

inductive Distribute where
  | one
  | each
deriving DecidableEq, Repr

/-- The requested target and camera parameters of a collect, with a frame number. -/
structure CollectKeyword where
  content : String
  frameNumber : ℤ
deriving DecidableEq, Repr

/-- Acquisitions to repeat on selected instruments under requested settings. -/
structure InstrumentRequest where
  id : String
  acquisition : AcquisitionRequest
  count : ℤ := 1
  distribute : Distribute := .one
  collect : Option CollectKeyword := none
  select : Option Selection := none
  settings : List CommandRequest := []
  requires : List Selection := []
  prefers : List Selection := []
  assignment : Option String := none

/-- One frame's request identity, numbering and planned keywords. -/
structure Acquisition where
  request : String
  index : ℤ
  frameNumber : ℤ
  keywords : Option CollectKeyword := none
deriving DecidableEq, Repr

/-- A capture command for a chosen instrument, with frame metadata and estimate. -/
structure PlannedAcquisition where
  acquisition : Acquisition
  target : Placement
  command : DeviceCommand
  estimatedDurationS : ℚ
  timeoutS : Option ℚ := none
deriving DecidableEq, Repr

inductive Align where
  | start
  | midpoint
deriving DecidableEq, Repr

/-- A group of acquisitions under one configuration, before or after binding. -/
structure Epoch (Setting Unit : Type) where
  units : List Unit
  settings : List Setting := []
  align : Align := .start

/-- An ordered set of configuration epochs with preparation and cleanup. -/
structure Collect (Setting Unit : Type) where
  name : String
  epochs : List (Epoch Setting Unit)
  prepare : List Setting := []
  cleanup : List Setting := []
  cleanupTimeoutS : ℚ := 60
  failFast : Bool := true

abbrev RequestEpoch := Epoch CommandRequest InstrumentRequest
abbrev CollectIntent := Collect CommandRequest InstrumentRequest
abbrev BoundEpoch := Epoch RoutedCommand PlannedAcquisition
abbrev BoundCollect := Collect RoutedCommand PlannedAcquisition

/-! ## Requests -/

namespace CommandRequest

variable (request : CommandRequest)

/-- Route this command, check target requirements and attach its authored timeout. -/
def resolve (participants : List Placement) (sensor : BoundSensor) : Except PlanningError (List RoutedCommand) := do
  let router : CommandRouter := ⟨sensor⟩
  let named := request.command.modelTag
  let unsupported ← (partition request.subject participants).findM? fun group => do
    return !(← router.supportedOn named group)
  if request.device.isNone ∧ unsupported.isSome then
    .error (.settingUnsatisfiable ("no device on " ++ formatPaths (unsupported.getD []) ++ " supports '" ++ named ++
      "', so " ++ "nothing can establish what it was asked for"))
  else
    let routed ← router.route request.command request.subject participants request.select request.scope request.device
    let unmet ← routed.findSomeM? fun r => do
      let requirement ← request.requires.findM? fun requirement => do
        return !(← requirement.matches r.target (some sensor))
      return requirement.map fun requirement => (r.target, requirement)
    match unmet with
    | some (target, requirement) =>
      .error (.settingUnsatisfiable ("'" ++ target.device ++ "' takes '" ++ named ++ "' for " ++
        formatPaths participants ++ " but " ++ "does not satisfy " ++ requirement.modelDumpJson))
    | none => return routed.map fun r => { r with timeoutS := request.timeoutS }

/-- `_alone`: whether the request routes successfully for one participant. -/
def alone (participant : Placement) (sensor : BoundSensor) : Except PlanningError Bool :=
  match request.resolve [participant] sensor with
  | .ok _ => .ok true
  | .error (.key placement) => .error (.key placement)
  | .error _ => .ok false

/-- Raise a routing error, as a conflict if each participant routes successfully alone. -/
def raiseShared (participants : List Placement) (sensor : BoundSensor) (error : PlanningError) (message : String) :
    Except PlanningError (List RoutedCommand) := do
  if participants.length > 1 then
    if ← participants.allM (request.alone · sensor) then .error (.packingConflict message) else .error error
  else .error error

/-- Route an epoch setting, distinguishing combined-participant conflicts. -/
def resolveShared (participants : List Placement) (sensor : BoundSensor) :
    Except PlanningError (List RoutedCommand) :=
  match request.resolve participants sensor with
  | .ok routed => .ok routed
  | .error (.key placement) => .error (.key placement)
  | .error (.settingUnsatisfiable message) => .error (.settingUnsatisfiable message)
  | .error (.value message) => request.raiseShared participants sensor (.value message) message
  | .error (.packingConflict message) => request.raiseShared participants sensor (.packingConflict message) message
  | .error (.selection message) => request.raiseShared participants sensor (.selection message) message

end CommandRequest

namespace InstrumentRequest

variable (request : InstrumentRequest)

/-- Expand the full request into camera captures for one chosen instrument. -/
def expand (target : Placement) (firstFrame firstIndex : ℤ) : List PlannedAcquisition :=
  (List.range request.count.toNat).map fun offset =>
    { acquisition :=
        { request := request.id
          index := firstIndex + offset
          frameNumber := firstFrame + offset
          keywords := request.collect.map fun c => { c with frameNumber := firstFrame + offset } }
      target
      command := .cameraCapture request.acquisition.integrationTimeS
      estimatedDurationS := request.acquisition.integrationTimeS
      timeoutS := request.acquisition.timeoutS }

/-- The named assignment group or a unique key for an unnamed request. -/
def assignmentKey (epoch position : ℕ) : Bool × String :=
  match request.assignment with
  | none => (false, toString epoch ++ "/" ++ toString position)
  | some name => (true, name)

/-- Instrument selection at the placement and requirements over its chain. -/
def admits (placement : Placement) (sensor : BoundSensor) : Except PlanningError Bool := do
  let selected ← match request.select with
    | none => .ok true
    | some select => select.matches placement (some sensor)
  if !selected then return false
  else
    let chain ← sensor.topology.chain placement
    request.requires.allM fun requirement => requirement.reaches chain (some sensor)

/-- Check that the request has a positive count and nonnegative integration. -/
def check («where» : String) : Except PlanningError Unit :=
  if request.count < 1 then
    .error (.value («where» ++ ": request '" ++ request.id ++ "' takes " ++ toString request.count ++ " " ++
      "acquisition(s); drop the request instead"))
  else if request.acquisition.integrationTimeS < 0 then
    .error (.value («where» ++ ": request '" ++ request.id ++ "' integrates for " ++
      toString request.acquisition.integrationTimeS ++ " seconds"))
  else .ok ()

end InstrumentRequest

/-! ## Settings that share an epoch -/

/-- The settings of an epoch by placement and command type, each with who asked for it. -/
abbrev Held := Dict (Placement × CommandType) (RoutedCommand × String)

def shownTimeout (timeout : Option ℚ) : String :=
  (timeout.map toString).getD "None"

/-- `_put`: merge a setting by placement and command type, requiring equal requests. -/
def put (held : Held) (routed : RoutedCommand) (origin «where» : String) : Except PlanningError Held :=
  match held.get? routed.governs with
  | none => .ok (held.insert routed.governs (routed, origin))
  | some (seen, by_) =>
    if seen.command ≠ routed.command then
      .error (.packingConflict («where» ++ ": '" ++ routed.target.device ++ "' is asked for " ++
        routed.command.formatCommand ++ " by " ++ origin ++ " and for " ++ seen.command.formatCommand ++ " by " ++
        by_ ++ "; a device holds " ++ "one value per epoch"))
    else if seen.timeoutS ≠ routed.timeoutS then
      .error (.value («where» ++ ": " ++ origin ++ " and " ++ by_ ++ " ask '" ++ routed.target.device ++ "' for " ++
        routed.command.formatCommand ++ " under deadlines of " ++ shownTimeout routed.timeoutS ++ " and " ++
        shownTimeout seen.timeoutS ++ " seconds; nothing here " ++ "chooses between them"))
    else .ok held

/-- `_positioned`: reject authored settings on selectors whose positions follow from the
participants. -/
def positioned (held : Held) (participants : List Placement) (sensor : BoundSensor) («where» : String) :
    Except PlanningError Unit := do
  let states ← participants.mapM sensor.topology.selectorStates
  let positioned := states.flatten.map Prod.fst
  let commanded := ((held.keys.filter (·.1 ∈ positioned)).map (·.1.device)).dedup.insertionSort (· ≤ ·)
  if commanded = [] then return ()
  else .error (.value («where» ++ ": selector positions follow from the participants; do not " ++ "command " ++
    ", ".intercalate (commanded.map fun device => "'" ++ device ++ "'")))

/-- `_exclusive`: reject participants requiring different ports of one selector. -/
def exclusive (sensor : BoundSensor) («where» : String) : List Placement → Except PlanningError Unit
  | [] => .ok ()
  | a :: participants => do
    participants.forM fun b => do
      match ← sensor.topology.mutuallyExclusive a b with
      | none => return ()
      | some selector => .error (.packingConflict («where» ++ ": '" ++ a.device ++ "' and '" ++ b.device ++
          "' are on different " ++ "ports of selector '" ++ selector.device ++ "'"))
    exclusive sensor «where» participants

/-! ## Groups of requests -/

/-- The requests of an assignment group with their containing authored epochs. -/
abbrev Members := List (InstrumentRequest × RequestEpoch)

/-- A request with its chosen instruments. -/
abbrev Assigned := List (InstrumentRequest × List Placement)

/-- `_asked`: unique request ids in a group. -/
def asked (members : Members) : String :=
  ", ".intercalate ((members.map fun (member, _) => "'" ++ member.id ++ "'").dedup.insertionSort (· ≤ ·))

/-- `_duration`: group integration time for load ranking. -/
def duration (members : Members) : ℚ :=
  (members.map fun (member, _) => member.acquisition.integrationTimeS * member.count).sum

/-- `_establishes`: check all segment and epoch settings against one instrument's chain. -/
def establishes (members : Members) (placement : Placement) (sensor : BoundSensor) : Except PlanningError Unit :=
  members.forM fun (member, epoch) => (epoch.settings ++ member.settings).forM fun setting => do
    let _ ← setting.resolve [placement] sensor

/-- One turn of the loop of `_eligible`, over the first refusal and the settled instruments. -/
def settles (members : Members) (sensor : BoundSensor) :
    Option String × List Placement → Placement → Except PlanningError (Option String × List Placement)
  | (refused, settled), placement =>
    match establishes members placement sensor with
    | .ok () => .ok (refused, settled ++ [placement])
    | .error (.settingUnsatisfiable unmet) => .ok (some (refused.getD unmet), settled)
    | .error e => .error e

/-- `_eligible`: instruments satisfying every segment and routing all group settings. -/
def eligible (members : Members) (sensor : BoundSensor) («where» : String) : Except PlanningError (List Placement) := do
  let admitted ← keepM (fun placement => members.allM fun (member, _) => member.admits placement sensor)
    sensor.topology.instruments
  if admitted = [] then .error (.value («where» ++ ": no instrument satisfies " ++ asked members))
  else
    let (refused, settled) ← admitted.foldlM (settles members sensor) (none, [])
    if settled = [] then .error (.settingUnsatisfiable («where» ++ ": " ++ refused.getD "None"))
    else return settled

/-- How many of the elements satisfy the test. -/
def countM {α : Type} (p : α → Except PlanningError Bool) (xs : List α) : Except PlanningError ℕ :=
  xs.foldlM (fun n x => do return if ← p x then n + 1 else n) 0

/-- `_preferred`: satisfied chain and target preferences across every segment. -/
def preferred (members : Members) (placement : Placement) (sensor : BoundSensor) : Except PlanningError ℕ := do
  let chain ← sensor.topology.chain placement
  let chained ← members.mapM fun (member, _) => countM (·.reaches chain (some sensor)) member.prefers
  let targeted ← members.mapM fun (member, _) =>
    (member.settings.filter (!·.prefers.isEmpty)).mapM fun setting => do
      let routed ← setting.resolve [placement] sensor
      routed.mapM fun r => countM (·.matches r.target (some sensor)) setting.prefers
  return (chained ++ targeted.flatten.flatten).foldl Nat.add 0

/-- `_unranked`: reject target preferences on epoch, preparation and cleanup settings. -/
def unranked (intent : CollectIntent) : Except PlanningError Unit :=
  let epochs := intent.epochs.zipIdx.map fun (epoch, index) => ("epoch " ++ toString index, epoch.settings)
  let placed : List (String × List CommandRequest) :=
    epochs ++ [("preparation", intent.prepare), ("cleanup", intent.cleanup)]
  let misplaced := (placed.filter fun (_, settings) => settings.any (!·.prefers.isEmpty)).map Prod.fst
  if misplaced = [] then .ok ()
  else .error (.value (", ".intercalate misplaced ++ ": target preferences rank instruments, so only " ++
    "instrument settings may carry them"))

abbrev Groups := Dict (Bool × String) Members

/-- `_grouped`: validate requests and group them with their containing authored epochs. -/
def grouped (intent : CollectIntent) : Except PlanningError Groups := do
  let groups ← intent.epochs.zipIdx.foldlM (fun groups (epoch, index) =>
    epoch.units.zipIdx.foldlM (fun (groups : Groups) (request, position) => do
      request.check ("epoch " ++ toString index)
      let key := request.assignmentKey index position
      return groups.insert key ((groups.get? key).getD [] ++ [(request, epoch)])) groups) .empty
  groups.entries.forM fun ((named, name), members) =>
    if named ∧ (members.map fun (m, _) => m.distribute).dedup.length > 1 then
      .error (.value ("assignment '" ++ name ++ "' mixes distribute values; every " ++
        "segment of one request takes the same instruments"))
    else .ok ()
  return groups

/-! ## The packer -/

/-- Single-use state for assigning instruments and splitting epochs. -/
structure CollectPacker where
  sensor : BoundSensor
  groups : Groups
  chosen : Dict (Bool × String) (List Placement) := .empty
  load : Dict Placement ℚ := .empty
  frames : Dict Placement ℤ := .empty
  ordinals : Dict (String × Placement) ℤ := .empty

/-- The settings that a child epoch's requests hold it to. -/
def settled (sensor : BoundSensor) (assigned : Assigned) (epoch : RequestEpoch) («where» : String) :
    Except PlanningError Held := do
  let participants := (assigned.flatMap Prod.snd).eraseDups
  let held ← epoch.settings.foldlM (fun held setting => do
    (← setting.resolveShared participants sensor).foldlM (fun held r => put held r "the epoch" «where») held) .empty
  assigned.foldlM (fun held (request, targets) => request.settings.foldlM (fun held setting => do
    (← setting.resolve targets sensor).foldlM (fun held r =>
      put held r ("request '" ++ request.id ++ "'") «where») held) held) held

namespace CollectPacker

variable (c : CollectPacker)

/-- `_resolved`: route and merge epoch settings and each request's instrument settings. -/
def resolved (assigned : Assigned) (epoch : RequestEpoch) («where» : String) :
    Except PlanningError (List RoutedCommand) := do
  let participants := (assigned.flatMap Prod.snd).eraseDups
  exclusive c.sensor «where» participants
  let held ← settled c.sensor assigned epoch «where»
  positioned held participants c.sensor «where»
  return held.values.map Prod.fst

/-- `_fits`: whether assigned requests can share an epoch. -/
def fits (assigned : Assigned) (epoch : RequestEpoch) («where» : String) : Except PlanningError Bool :=
  match c.resolved assigned epoch «where» with
  | .ok _ => .ok true
  | .error (.packingConflict _) => .ok false
  | .error e => .error e

/-- The members of an assignment group. -/
def members (key : Bool × String) : Members :=
  (c.groups.get? key).getD []

/-- `_options`: rank an assignment group's eligible instrument sets. -/
def options (key : Bool × String) («where» : String) : Except PlanningError (List (List Placement)) := do
  let members := c.members key
  let eligible ← eligible members c.sensor «where»
  if members.head?.any fun (first, _) => first.distribute = .each then return [eligible]
  else
    let keyed ← eligible.mapM fun p => do
      return (p, ← preferred members p c.sensor, (c.load.get? p).getD 0)
    let ranked := keyed.insertionSort fun a b => a.2.1 > b.2.1 ∨ a.2.1 = b.2.1 ∧ a.2.2 ≤ b.2.2
    return ranked.map fun (p, _) => [p]

/-- `_bind`: record a group's first assignment and charge its full duration to each target. -/
protected def bind (key : Bool × String) (targets : List Placement) : CollectPacker :=
  if key ∈ c.chosen.keys then c
  else { c with
    chosen := c.chosen.insert key targets
    load := targets.foldl (fun load target =>
      load.insert target ((load.get? target).getD 0 + duration (c.members key))) c.load }

/-- Expand a request on one of its targets: the units, and the packer with the next numbers. -/
def expand (request : InstrumentRequest) (target : Placement) : CollectPacker × List PlannedAcquisition :=
  let frame := (c.frames.get? target).getD 0
  let c := { c with frames := c.frames.insert target (frame + request.count) }
  match request.assignment with
  | none => (c, request.expand target frame 0)
  | some name =>
    let ordinal := (c.ordinals.get? (name, target)).getD 0
    ({ c with ordinals := c.ordinals.insert (name, target) (ordinal + request.count) },
      request.expand target frame ordinal)

/-- Expand a request on a further target. -/
def expandTarget (request : InstrumentRequest) (state : CollectPacker × List PlannedAcquisition)
    (target : Placement) : CollectPacker × List PlannedAcquisition :=
  ((state.1.expand request target).1, state.2 ++ (state.1.expand request target).2)

/-- Expand a request on its targets. -/
def expandTargets (state : CollectPacker × List PlannedAcquisition) (assigned : InstrumentRequest × List Placement) :
    CollectPacker × List PlannedAcquisition :=
  assigned.2.foldl (expandTarget assigned.1) state

/-- `_child`: expand assigned requests and route the child epoch's settings. -/
def child (assigned : Assigned) (epoch : RequestEpoch) («where» : String) :
    Except PlanningError (CollectPacker × BoundEpoch) := do
  let (c, units) := assigned.foldl expandTargets (c, [])
  let settings ← c.resolved assigned epoch «where»
  return (c, { units, settings, align := epoch.align })

/-- The instruments already chosen for a group, or its ranked options. -/
def offered (key : Bool × String) («where» : String) : Except PlanningError (List (List Placement)) :=
  match c.chosen.get? key with
  | some targets => .ok [targets]
  | none => c.options key «where»

/-- One turn of the first loop of `_pack_epoch`, over the closed children and the open one. -/
def place (epoch : RequestEpoch) (index : ℕ) :
    CollectPacker × List Assigned × Assigned → InstrumentRequest × ℕ →
      Except PlanningError (CollectPacker × List Assigned × Assigned)
  | (c, closed, current), (request, position) => do
    let «where» := "epoch " ++ toString index
    let key := request.assignmentKey index position
    let options ← c.offered key «where»
    match ← options.findM? fun option => c.fits (current ++ [(request, option)]) epoch «where» with
    | some targets => return (c.bind key targets, closed, current ++ [(request, targets)])
    | none =>
      let targets := options.headD []
      -- A request that fails alone cannot be repaired by splitting epochs.
      let _ ← c.resolved [(request, targets)] epoch «where»
      return (c.bind key targets, closed ++ [current], [(request, targets)])

/-- `_pack_epoch`: pack one authored epoch into compatible child epochs. -/
def packEpoch (epoch : RequestEpoch) (index : ℕ) : Except PlanningError (CollectPacker × List BoundEpoch) := do
  let (c, closed, current) ← epoch.units.zipIdx.foldlM (place epoch index) (c, [], [])
  ((closed ++ [current]).filter (!·.isEmpty)).foldlM (fun (c, packed) assigned => do
    let (c, child) ← c.child assigned epoch ("epoch " ++ toString index)
    return (c, packed ++ [child])) (c, [])

end CollectPacker

/-- Route requests over the participants of a collect. -/
def routeAll (requests : List CommandRequest) (participants : List Placement) (sensor : BoundSensor) :
    Except PlanningError (List RoutedCommand) := do
  let routed ← requests.mapM (·.resolve participants sensor)
  return routed.flatten

/-- Choose instruments, route commands and split incompatible configuration epochs. The keywords
replace any in the sensor. -/
def pack (intent : CollectIntent) (sensor : BoundSensor)
    (deviceKeywords : Option (Dict String (Dict String Keyword))) : Except PlanningError BoundCollect := do
  let sensor := { sensor with keywords := some (deviceKeywords.getD .empty) }
  unranked intent
  let groups ← grouped intent
  let (_, packed) ← intent.epochs.zipIdx.foldlM (fun (c, packed) (epoch, index) => do
    let (c, children) ← c.packEpoch epoch index
    return (c, packed ++ children)) (({ sensor, groups } : CollectPacker), [])
  let participants := (packed.flatMap fun epoch => epoch.units.map PlannedAcquisition.target).eraseDups
  let prepare ← routeAll intent.prepare participants sensor
  let cleanup ← routeAll intent.cleanup participants sensor
  return {
    name := intent.name
    epochs := packed
    prepare, cleanup
    cleanupTimeoutS := intent.cleanupTimeoutS
    failFast := intent.failFast }

/-! ## What packing returns -/

/-- Each setting of the epoch is routed to a placement on a chain, and each unit is a camera
capture. -/
structure Packed (t : Topology) (epoch : BoundEpoch) : Prop where
  placed : ∀ r ∈ epoch.settings, ∃ q, t.OnChain q r.target
  captures : ∀ unit ∈ epoch.units, ∃ time, unit.command = .cameraCapture time

/-- Each setting held is routed to a placement on a chain. -/
def Placed (t : Topology) (held : Held) : Prop :=
  ∀ v ∈ held.values, ∃ q, t.OnChain q v.1.target

variable {sensor : BoundSensor} {t : Topology} {participants : List Placement} {request : CommandRequest}
  {routed : List RoutedCommand} {r : RoutedCommand} {held held' : Held} {origin «where» : String}
  {assigned : Assigned} {epoch : RequestEpoch} {c c' : CollectPacker}

theorem onChain_of_resolve (h : request.resolve participants sensor = .ok routed) (mem : r ∈ routed) :
    ∃ q, sensor.topology.OnChain q r.target := by
  simp only [CommandRequest.resolve, bind_eq_ok] at h
  obtain ⟨unsupported, -, h⟩ := h
  split_ifs at h
  obtain ⟨targets, route, h⟩ := bind_eq_ok.1 h
  obtain ⟨unmet, -, h⟩ := bind_eq_ok.1 h
  cases unmet with
  | some => simp at h
  | none =>
    obtain rfl := pure_eq_ok.1 h
    obtain ⟨r, found, rfl⟩ := List.mem_map.1 mem
    exact CommandRouter.onChain_of_route (r := r) route found

theorem raiseShared_ne_ok {error : PlanningError} {message : String} :
    request.raiseShared participants sensor error message ≠ .ok routed := by
  intro h
  simp only [CommandRequest.raiseShared] at h
  split_ifs at h
  obtain ⟨alone, -, h⟩ := bind_eq_ok.1 h
  split_ifs at h

theorem onChain_of_resolveShared (h : request.resolveShared participants sensor = .ok routed) (mem : r ∈ routed) :
    ∃ q, sensor.topology.OnChain q r.target := by
  simp only [CommandRequest.resolveShared] at h
  split at h
  case h_1 resolved =>
    cases h
    exact onChain_of_resolve resolved mem
  case h_2 => simp at h
  case h_3 => simp at h
  all_goals exact absurd h raiseShared_ne_ok

/-- What merging a setting does: it is new at its key, or equal to what is held there. -/
theorem put_eq_ok (h : put held r origin «where» = .ok held') :
    (held.get? r.governs = none ∧ held' = held.insert r.governs (r, origin)) ∨
      ∃ seen by_, held.get? r.governs = some (seen, by_) ∧ seen.command = r.command ∧ seen.timeoutS = r.timeoutS ∧
        held' = held := by
  simp only [put] at h
  split at h
  · rename_i free
    exact .inl ⟨free, (Except.ok.inj h).symm⟩
  · rename_i seen by_ found
    split_ifs at h with command timeout
    exact .inr ⟨seen, by_, found, not_not.1 command, not_not.1 timeout, (Except.ok.inj h).symm⟩

theorem Placed.put (h : Placed t held) (on : ∃ q, t.OnChain q r.target)
    (hp : Sensor.put held r origin «where» = .ok held') : Placed t held' := by
  rcases put_eq_ok hp with ⟨-, rfl⟩ | ⟨_, _, _, _, _, rfl⟩
  · intro v mem
    obtain ⟨k, found⟩ := Dict.mem_values.1 mem
    rw [Dict.get?_insert] at found
    split_ifs at found with same
    · cases found
      exact on
    · exact h v (Dict.mem_values.2 ⟨k, found⟩)
  · exact h

theorem Placed.putAll (h : Placed t held) (on : ∀ r ∈ routed, ∃ q, t.OnChain q r.target)
    (hp : routed.foldlM (fun held r => Sensor.put held r origin «where») held = .ok held') : Placed t held' :=
  foldlM_invariant (Placed t) hp h fun _ _ r mem inv turn => inv.put (on r mem) turn

theorem placed_of_settled (h : settled sensor assigned epoch «where» = .ok held) : Placed sensor.topology held := by
  simp only [settled, bind_eq_ok] at h
  obtain ⟨held₁, shared, own⟩ := h
  refine foldlM_invariant (Placed sensor.topology) own ?_ fun _ _ assigned _ inv turn => ?_
  · refine foldlM_invariant (Placed sensor.topology) shared (by simp [Placed, Dict.empty, Dict.values])
      fun _ _ setting _ inv turn => ?_
    obtain ⟨routed, resolved, turn⟩ := bind_eq_ok.1 turn
    exact inv.putAll (fun r => onChain_of_resolveShared resolved) turn
  · refine foldlM_invariant (Placed sensor.topology) turn inv fun _ _ setting _ inv turn => ?_
    obtain ⟨routed, resolved, turn⟩ := bind_eq_ok.1 turn
    exact inv.putAll (fun r => onChain_of_resolve resolved) turn

namespace CollectPacker

theorem onChain_of_resolved (h : c.resolved assigned epoch «where» = .ok routed) (mem : r ∈ routed) :
    ∃ q, c.sensor.topology.OnChain q r.target := by
  simp only [resolved, bind_eq_ok, pure_eq_ok] at h
  obtain ⟨-, -, held, settled, -, -, rfl⟩ := h
  obtain ⟨v, found, rfl⟩ := List.mem_map.1 mem
  exact placed_of_settled settled v found

theorem bind_sensor (key : Bool × String) (targets : List Placement) : (c.bind key targets).sensor = c.sensor := by
  simp only [CollectPacker.bind]
  split_ifs <;> rfl

theorem expand_sensor (request : InstrumentRequest) (target : Placement) :
    (c.expand request target).1.sensor = c.sensor := by
  simp only [expand]
  split <;> rfl

theorem captures_of_expand {request : InstrumentRequest} {target : Placement} {unit : PlannedAcquisition}
    (mem : unit ∈ (c.expand request target).2) : ∃ time, unit.command = .cameraCapture time := by
  have units : ∃ frame index, unit ∈ request.expand target frame index := by
    simp only [expand] at mem
    split at mem
    · exact ⟨_, _, mem⟩
    · exact ⟨_, _, mem⟩
  obtain ⟨frame, index, mem⟩ := units
  obtain ⟨offset, -, rfl⟩ := List.mem_map.1 mem
  exact ⟨_, rfl⟩

theorem packed_of_child {child : BoundEpoch} (h : c.child assigned epoch «where» = .ok (c', child)) :
    c'.sensor = c.sensor ∧ Packed c.sensor.topology child := by
  simp only [CollectPacker.child, bind_eq_ok, pure_eq_ok] at h
  obtain ⟨settings, resolved, h⟩ := h
  let Inv (state : CollectPacker × List PlannedAcquisition) : Prop :=
    state.1.sensor = c.sensor ∧ ∀ unit ∈ state.2, ∃ time, unit.command = .cameraCapture time
  have targets (request : InstrumentRequest) (targets : List Placement) : ∀ state, Inv state →
      Inv (targets.foldl (expandTarget request) state) := by
    induction targets with
    | nil => exact fun _ inv => inv
    | cons target targets ih =>
      intro state inv
      refine ih _ ⟨(expand_sensor request target).trans inv.1, fun unit mem => ?_⟩
      rcases List.mem_append.1 mem with mem | mem
      · exact inv.2 unit mem
      · exact captures_of_expand mem
  have all (assigned : Assigned) : ∀ state, Inv state → Inv (assigned.foldl expandTargets state) := by
    induction assigned with
    | nil => exact fun _ inv => inv
    | cons a assigned ih => exact fun state inv => ih _ (targets a.1 a.2 state inv)
  obtain ⟨sensor, captures⟩ := all assigned (c, []) ⟨rfl, by simp⟩
  cases h
  exact ⟨sensor, fun r mem => by simpa [sensor] using onChain_of_resolved resolved mem, captures⟩

theorem sensor_of_place {index : ℕ} {closed closed' : List Assigned} {current current' : Assigned}
    {request : InstrumentRequest × ℕ}
    (h : place epoch index (c, closed, current) request = .ok (c', closed', current')) : c'.sensor = c.sensor := by
  simp only [place, bind_eq_ok] at h
  obtain ⟨options, -, targets, -, h⟩ := h
  cases targets with
  | some targets =>
    cases pure_eq_ok.1 h
    exact bind_sensor _ _
  | none =>
    obtain ⟨-, -, h⟩ := bind_eq_ok.1 h
    cases pure_eq_ok.1 h
    exact bind_sensor _ _

theorem packed_of_packEpoch {index : ℕ} {packed : List BoundEpoch} (h : c.packEpoch epoch index = .ok (c', packed)) :
    c'.sensor = c.sensor ∧ ∀ e ∈ packed, Packed c.sensor.topology e := by
  simp only [packEpoch, bind_eq_ok] at h
  obtain ⟨⟨c₁, closed, current⟩, placed, h⟩ := h
  have sensor : c₁.sensor = c.sensor :=
    foldlM_invariant (fun state => state.1.sensor = c.sensor) placed rfl fun _ _ _ _ inv turn =>
      (sensor_of_place turn).trans inv
  refine foldlM_invariant (fun state => state.1.sensor = c.sensor ∧ ∀ e ∈ state.2, Packed c.sensor.topology e) h
    ⟨sensor, by simp⟩ ?_
  rintro ⟨c₁, packed₁⟩ ⟨c₂, packed₂⟩ assigned - ⟨sensor, packed⟩ turn
  obtain ⟨⟨c₃, child⟩, bound, turn⟩ := bind_eq_ok.1 turn
  cases pure_eq_ok.1 turn
  obtain ⟨same, here⟩ := packed_of_child bound
  refine ⟨same.trans sensor, fun e mem => ?_⟩
  rcases mem_snoc.1 mem with mem | rfl
  · exact packed e mem
  · exact sensor ▸ here

end CollectPacker

theorem onChain_of_routeAll {requests : List CommandRequest} (h : routeAll requests participants sensor = .ok routed)
    (mem : r ∈ routed) : ∃ q, sensor.topology.OnChain q r.target := by
  simp only [routeAll, bind_eq_ok, pure_eq_ok] at h
  obtain ⟨all, resolved, rfl⟩ := h
  obtain ⟨some_, mem, inside⟩ := List.mem_flatten.1 mem
  obtain ⟨request, -, resolved⟩ := exists_of_mem_mapM resolved mem
  exact onChain_of_resolve resolved inside

/-- **What packing returns**: preparation and settings routed to placements on chains, and camera
captures. -/
theorem packed_of_pack {intent : CollectIntent} {keywords : Option (Dict String (Dict String Keyword))}
    {collect : BoundCollect} (h : pack intent sensor keywords = .ok collect) :
    (∀ r ∈ collect.prepare, ∃ q, sensor.topology.OnChain q r.target) ∧
      ∀ epoch ∈ collect.epochs, Packed sensor.topology epoch := by
  simp only [pack, bind_eq_ok, pure_eq_ok] at h
  obtain ⟨-, -, groups, -, ⟨c, packed⟩, folded, prepare, prepared, cleanup, -, rfl⟩ := h
  have placed (r : RoutedCommand) (mem : r ∈ prepare) : ∃ q, sensor.topology.OnChain q r.target := by
    obtain ⟨q, on⟩ := onChain_of_routeAll prepared mem
    exact ⟨q, on⟩
  refine ⟨placed, ?_⟩
  have inv := foldlM_invariant (fun state : CollectPacker × List BoundEpoch =>
    state.1.sensor.topology = sensor.topology ∧ ∀ e ∈ state.2, Packed sensor.topology e) folded ⟨rfl, by simp⟩ ?_
  · exact inv.2
  rintro ⟨c₁, packed₁⟩ ⟨c₂, packed₂⟩ ⟨epoch, index⟩ - ⟨topology, packed⟩ turn
  obtain ⟨⟨c₃, children⟩, bound, turn⟩ := bind_eq_ok.1 turn
  cases pure_eq_ok.1 turn
  obtain ⟨same, here⟩ := CollectPacker.packed_of_packEpoch bound
  refine ⟨(congrArg BoundSensor.topology same).trans topology, fun e mem => ?_⟩
  rcases List.mem_append.1 mem with mem | mem
  · exact packed e mem
  · exact topology ▸ here e mem

end SensorKit.Sensor
