import Mathlib.Data.Finset.Basic
import SensorKit.Common.Interval
import SensorKit.Lib.Dict
import SensorKit.Lib.Fallible

/-!
# The scheduler

A scheduler combines the configured modes and the programs' offers into a schedule. Each update evaluates the modes,
stacks them by priority, combines the offers of the enabled programs, and stamps the modes' intervals with the
candidate programs. Instants and durations are in microseconds. How a mode evaluates its criteria is its own; a mode
that raises has no intervals.
-/

namespace SensorKit.Auto

open Lib Common

/-- An enabled program that is not configured, or overlapping intervals. -/
inductive SchedulerError
  | key (program : String)
  | assertion
deriving DecidableEq, Repr

inductive ModeState
  | operate
  | standby
deriving DecidableEq, Repr

/-- What `update` passes to the modes' criteria. -/
structure ModeContext (lib : IntervalTrees ℤ) where
  timeRef : ℤ
  previousCombined : lib.Tree (List String)
  offerHistory : lib.Tree (List String)

/-- A named operating mode with an associated sensor state. -/
structure Mode (lib : IntervalTrees ℤ) where
  name : String
  state : ModeState := .operate
  /-- The common intervals of all criteria, none if one of them raises. -/
  evaluate : ModeContext lib → Option (lib.Tree Unit)

/-- `Mode.__lt__`: operate states take priority over standby states. -/
def Mode.lt {lib : IntervalTrees ℤ} (self other : Mode lib) : Bool :=
  self.state ≠ other.state ∧ self.state = .operate

/-- Scheduling configuration for a single program within a controller. -/
structure ProgramConfig where
  program : String
  priority : ℤ := 5
  interrupt : Bool := false
deriving DecidableEq, Repr

/-- The intended operating mode and ordered program candidates for a schedule interval. -/
structure ScheduleIntent where
  mode : String
  programs : List String := []
deriving DecidableEq, Repr

/-- Windows offered by a program: left and right ends. -/
abbrev OfferWindows := List (ℤ × ℤ)

structure Scheduler (lib : IntervalTrees ℤ) where
  modes : List (Mode lib)
  programConfigs : Dict String ProgramConfig
  combinedOffers : lib.Tree (List String) := lib.empty
  intervals : lib.Tree ScheduleIntent := lib.empty
  offerHistory : lib.Tree (List String) := lib.empty

variable {lib : IntervalTrees ℤ}

/-- Sorted in priority order, in reverse. -/
def sortModes (modes : List (Mode lib)) : List (Mode lib) :=
  modes.mergeSort fun a b => !a.lt b

/-- `create_schedule`: the combined offers and the schedule. -/
def createSchedule (lib : IntervalTrees ℤ) (modes : List (Mode lib)) (evaluatedModes : List (lib.Tree Unit))
    (offers : List (String × OfferWindows)) : lib.Tree (List String) × lib.Tree ScheduleIntent :=
  let schedule := stackIntervalTrees lib ((modes.map fun mode => (⟨mode.name, []⟩ : ScheduleIntent)).zip evaluatedModes)
  let combined := combineIntervalTrees lib offers
  (combined, stampIntervalTrees lib schedule combined fun target stamp => ⟨target.mode, stamp⟩)

namespace Scheduler

variable (self : Scheduler lib)

/-- A scheduler that has not been updated. -/
def create (modes : List (Mode lib)) (configs : List ProgramConfig) : Scheduler lib where
  modes := sortModes modes
  programConfigs := .ofList (configs.map fun config => (config.program, config))

/-- `get_intent`: the scheduled intent at the given time, if any. -/
def getIntent (dt : ℤ) : Except SchedulerError (Option ScheduleIntent) :=
  match lib.at_ self.intervals dt with
  | [] => .ok none
  | [iv] => .ok (some iv.data)
  | _ => .error .assertion

/-- Add an interval to the offer history if it is not there. -/
def remember (history : lib.Tree (List String)) (iv : Interval ℤ (List String)) : lib.Tree (List String) :=
  if lib.has history iv then history else lib.add history iv

/-- An in-progress window that has disappeared is remembered up to now. -/
def rememberTruncated (now : ℤ) (combined : lib.Tree (List String)) (history : lib.Tree (List String))
    (iv : Interval ℤ (List String)) : lib.Tree (List String) :=
  if h : iv.begin < now ∧ now < iv.end then
    if lib.overlaps combined iv.begin iv.end then history else remember history ⟨iv.begin, now, iv.data, h.1⟩
  else history

/-- An hour, in microseconds. -/
def hour : ℤ := 3600000000

/-- `_support_after_activity`: the offer history after an update. -/
def supportAfterActivity (now : ℤ) (previous combined history : lib.Tree (List String)) : lib.Tree (List String) :=
  let history := (lib.intervals previous).foldl (rememberTruncated now combined) history
  let history := (lib.intervals combined).foldl remember history
  let stale := (lib.intervals history).filter fun iv => iv.end ≤ now - hour
  stale.foldl lib.remove history

/-- The configured priority of a program. -/
def priority (program : String) : Except SchedulerError ℤ :=
  match self.programConfigs.get? program with
  | some config => .ok config.priority
  | none => .error (.key program)

/-- The offers of the enabled programs, sorted by configured priority. -/
def sortedOffers (offers : Dict String OfferWindows) (enabled : Finset String) :
    Except SchedulerError (List (String × OfferWindows)) := do
  let keyed ← (offers.entries.filter fun item => item.1 ∈ enabled).mapM fun item => do
    return (← self.priority item.1, item)
  return (keyed.mergeSort fun a b => a.1 ≤ b.1).map Prod.snd

/-- The context that an update passes to the modes. -/
def context (now : ℤ) : ModeContext lib :=
  ⟨now, self.combinedOffers, self.offerHistory⟩

/-- The modes' intervals. -/
def evaluatedModes (now : ℤ) : List (lib.Tree Unit) :=
  self.modes.map fun mode => (mode.evaluate (self.context now)).getD lib.empty

/-- The scheduler with the combined offers and the schedule that an update creates. -/
def updated (now : ℤ) (created : lib.Tree (List String) × lib.Tree ScheduleIntent) : Scheduler lib :=
  { self with
    combinedOffers := created.1
    intervals := created.2
    offerHistory := supportAfterActivity now self.combinedOffers created.1 self.offerHistory }

/-- `update`: updates the schedule. -/
def update (offers : Dict String OfferWindows) (enabled : Finset String) (now : ℤ) :
    Except SchedulerError (Scheduler lib) := do
  let offers ← self.sortedOffers offers enabled
  return self.updated now (createSchedule lib self.modes (self.evaluatedModes now) offers)

/-- The arguments of an update: the offers, the enabled programs and the clock. -/
structure UpdateCall where
  offers : Dict String OfferWindows
  enabled : Finset String
  now : ℤ

/-- A sequence of updates. -/
def updates (calls : List UpdateCall) : Except SchedulerError (Scheduler lib) :=
  calls.foldlM (fun s call => s.update call.offers call.enabled call.now) self

end Scheduler

end SensorKit.Auto
