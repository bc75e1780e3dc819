import SensorKit.Sensor.Topology

/-!
# Bound sensors and selections

A bound sensor is a topology with what its devices report. A selection is a predicate over one
placement, or over an instrument's chain, that reads a bound sensor.
-/

namespace SensorKit.Sensor

open Lib

/-- What a device reports, with the registered traits that this establishes. -/
structure DeviceDetails where
  supportedCommands : List String := []
  publishedKeywords : List String := []
  traits : List String := []
deriving DecidableEq, Repr

/-- A keyword value, in its JSON form. -/
abbrev Keyword := String

/-- A topology with reported device details, and with device keywords for planning if any were
supplied. -/
structure BoundSensor where
  topology : Topology
  details : Dict String DeviceDetails
  keywords : Option (Dict String (Dict String Keyword)) := none

namespace BoundSensor

variable (sensor : BoundSensor)

/-- Reported command identifiers, none for an unknown device. -/
def supportedCommands (device : String) : List String :=
  ((sensor.details.get? device).map DeviceDetails.supportedCommands).getD []

def publishedKeywords (device : String) : List String :=
  ((sensor.details.get? device).map DeviceDetails.publishedKeywords).getD []

/-- The supplied keywords of a device, none if no mapping was supplied. -/
def deviceKeywords (device : String) : Option (Dict String Keyword) :=
  sensor.keywords.map fun keywords => (keywords.get? device).getD .empty

/-- Established traits, none for an unknown placement. -/
def traits (placement : Placement) : List String :=
  if placement ∈ sensor.topology.records.keys then
    ((sensor.details.get? placement.device).map DeviceDetails.traits).getD []
  else []

end BoundSensor

/-- A predicate at a field path of a keyword: its JSON form, and what it says of a keyword, or of
its absence. -/
structure FieldMatch where
  field : Option String := none
  predicate : String
  test : Option Keyword → Bool

/-- A predicate over one placement or an instrument chain. -/
inductive Selection where
  | «trait» (trait : String)
  | tag (tag : String)
  | device (device : String)
  | kind (kind : String)
  | «instrument» (instrument : Bool)
  | supports (supports : String)
  | publishes (publishes : String)
  | keyword (keyword : String) (fieldMatch : FieldMatch)
  | allOf (members : List Selection)
  | anyOf (members : List Selection)
  | negated (member : Selection)

/-- `_known`: require a bound sensor for a predicate. -/
def known (facts : Option BoundSensor) (question : String) : Except PlanningError BoundSensor :=
  match facts with
  | some sensor => .ok sensor
  | none => .error (.selection ("'" ++ question ++ "' is answered from a bound sensor, and none was given"))

mutual

/-- Whether one placement satisfies the predicate. -/
def Selection.«matches» (placement : Placement) (facts : Option BoundSensor) : Selection → Except PlanningError Bool
  | .trait trait => do
    let known ← known facts ("trait: " ++ trait)
    return trait ∈ known.traits placement
  | .tag tag => do
    let known ← known facts ("tag: " ++ tag)
    return tag ∈ (← known.topology.tags placement)
  | .device device => return device = placement.device
  | .kind kind => do
    let known ← known facts ("kind: " ++ kind)
    let recorded ← known.topology.kind placement
    return kind = "any" ∨ kind = recorded
  | .instrument «instrument» => do
    let known ← known facts ("instrument: " ++ if «instrument» then "True" else "False")
    return (← known.topology.instrument placement) = «instrument»
  | .supports supports => do
    let known ← known facts ("supports: " ++ supports)
    return supports ∈ known.supportedCommands placement.device
  | .publishes publishes => do
    let known ← known facts ("publishes: " ++ publishes)
    return publishes ∈ known.publishedKeywords placement.device
  | .keyword keyword fieldMatch => do
    let known ← known facts ("keyword: " ++ keyword)
    match known.deviceKeywords placement.device with
    | none => .error (.selection ("'keyword: " ++ keyword ++
        "' is answered from device keywords, and none were given"))
    | some copied => return fieldMatch.test (copied.get? keyword)
  | .allOf members => matchesAll placement facts members
  | .anyOf members => matchesAny placement facts members
  | .negated member => do return !(← member.matches placement facts)

def matchesAll (placement : Placement) (facts : Option BoundSensor) : List Selection → Except PlanningError Bool
  | [] => .ok true
  | s :: members => do if ← s.matches placement facts then matchesAll placement facts members else return false

def matchesAny (placement : Placement) (facts : Option BoundSensor) : List Selection → Except PlanningError Bool
  | [] => .ok false
  | s :: members => do if ← s.matches placement facts then return true else matchesAny placement facts members

end

mutual

/-- Whether the chain satisfies the predicate. -/
def Selection.reaches (chain : List Placement) (facts : Option BoundSensor) : Selection → Except PlanningError Bool
  | .allOf members => reachesAll chain facts members
  | .anyOf members => reachesAny chain facts members
  | .negated member => do return !(← member.reaches chain facts)
  | simple => chain.anyM (simple.matches · facts)

def reachesAll (chain : List Placement) (facts : Option BoundSensor) : List Selection → Except PlanningError Bool
  | [] => .ok true
  | s :: members => do if ← s.reaches chain facts then reachesAll chain facts members else return false

def reachesAny (chain : List Placement) (facts : Option BoundSensor) : List Selection → Except PlanningError Bool
  | [] => .ok false
  | s :: members => do if ← s.reaches chain facts then return true else reachesAny chain facts members

end

def jsonString (s : String) : String :=
  "\"" ++ s ++ "\""

/-- The JSON object with the one field. -/
def jsonField (key value : String) : String :=
  "\x7b" ++ jsonString key ++ ":" ++ value ++ "\x7d"

mutual

/-- `model_dump_json(by_alias=True)` of a selection. -/
def Selection.modelDumpJson : Selection → String
  | .trait trait => jsonField "trait" (jsonString trait)
  | .tag tag => jsonField "tag" (jsonString tag)
  | .device device => jsonField "device" (jsonString device)
  | .kind kind => jsonField "kind" (jsonString kind)
  | .instrument «instrument» => jsonField "instrument" (if «instrument» then "true" else "false")
  | .supports supports => jsonField "supports" (jsonString supports)
  | .publishes publishes => jsonField "publishes" (jsonString publishes)
  | .keyword keyword fieldMatch =>
    "\x7b\"keyword\":" ++ jsonString keyword ++ ",\"field\":" ++ (fieldMatch.field.map jsonString).getD "null" ++
      ",\"predicate\":" ++ fieldMatch.predicate ++ "\x7d"
  | .allOf members => jsonField "all_of" ("[" ++ ",".intercalate (modelDumpAll members) ++ "]")
  | .anyOf members => jsonField "any_of" ("[" ++ ",".intercalate (modelDumpAll members) ++ "]")
  | .negated member => jsonField "not" member.modelDumpJson

def modelDumpAll : List Selection → List String
  | [] => []
  | s :: members => s.modelDumpJson :: modelDumpAll members

end

end SensorKit.Sensor
