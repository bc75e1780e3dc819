import Mathlib.Data.Nat.Notation

/-!
# Controller state

A controller publishes three records: whether it is enabled, its operating state with the
lifecycle input that goes with it, and the execution of its current task. What operating
state it should publish while no lifecycle task is pending is the business of
`ControllerStateResolver`, which weighs task results, reported states and a latch.

`K` is the type of lifecycle inputs, the keyword dictionaries of the source.
-/

namespace SensorKit.Core

/-- High-level controller states. -/
inductive InternalControllerState where
  | operate
  | standby
  | shutdown
  | error
  | unknown
  | transition
deriving DecidableEq, Repr

/-- The value of the state, as it appears in texts. -/
def InternalControllerState.value : InternalControllerState → String
  | .operate => "operate"
  | .standby => "standby"
  | .shutdown => "shutdown"
  | .error => "error"
  | .unknown => "unknown"
  | .transition => "transition"

/-- The part of a task that a controller looks at. -/
structure Task where
  taskType : String
  targetState : Option InternalControllerState := none
  /-- The task is a `RecoverTask`. -/
  recovers : Bool := false
deriving DecidableEq, Repr

/-- Metadata recorded when a task completes, with the text of the error it raised, if any. -/
structure TaskFinishInfo where
  aborted : Bool := false
  error : Option String := none
deriving DecidableEq, Repr

/-- The identity of an execution: minted by this process, in order of admission, or recovered
from the one before it. -/
inductive TaskId where
  | minted (n : ℕ)
  | recovered
deriving DecidableEq, Repr

/-- The current task execution status of a controller. -/
structure TaskExecutionState where
  executing : Bool := false
  aborting : Bool := false
  finished : Option TaskFinishInfo := none
  execution : Option TaskId
deriving DecidableEq, Repr

/-- Reported operating state and lifecycle input. -/
structure ControllerOperatingState (K : Type) where
  current : InternalControllerState
  previous : Option InternalControllerState := none
  target : Option InternalControllerState := none
  context : K
deriving DecidableEq, Repr

/-- An operating state paired with its lifecycle input. -/
structure StateWithInput (K : Type) where
  state : InternalControllerState
  context : K
deriving DecidableEq, Repr

variable {K : Type}

/-- `derive`, with every field given. The previous state is not rotated out by a state that
stays the same. -/
def ControllerOperatingState.derive (o : ControllerOperatingState K) (current : InternalControllerState)
    (target : Option InternalControllerState) (context : K) : ControllerOperatingState K where
  current
  previous := if current = o.current then o.previous else some o.current
  target
  context

/-- A latched state. Each latch is an object of its own, told apart from an equal one by `id`. -/
structure Latch (K : Type) extends StateWithInput K where
  id : ℕ
deriving DecidableEq, Repr

/-- Select a controller's settled state from task results, observed states, and a latch. -/
structure ControllerStateResolver (K : Type) where
  observed : Option (StateWithInput K) := none
  inferred : InternalControllerState := .unknown
  commanded : StateWithInput K
  latch : Option (Latch K) := none
  /-- How many latches have been made. -/
  latches : ℕ := 0
deriving DecidableEq, Repr

namespace ControllerStateResolver

variable (r : ControllerStateResolver K)

/-- The state to publish while no lifecycle task is pending or running. -/
def settled : StateWithInput K :=
  match r.latch, r.observed with
  | some latch, _ => latch.toStateWithInput
  | none, some observed => observed
  | none, none => ⟨r.inferred, r.commanded.context⟩

/-- Hold a state until a lifecycle task succeeds. -/
def hold (state : InternalControllerState) (context : K) : ControllerStateResolver K :=
  { r with latch := some { state, context, id := r.latches }, latches := r.latches + 1 }

/-- `__init__`. -/
def init (context : K) (latched : Bool) : ControllerStateResolver K :=
  let r : ControllerStateResolver K := { commanded := ⟨.unknown, context⟩ }
  if latched then r.hold .unknown context else r

/-- `record_observed`: apply a state reported by the controller. -/
def recordObserved (state : InternalControllerState) (context : Option K) : ControllerStateResolver K :=
  match state, context with
  | .unknown, _ => r.hold .unknown r.settled.context
  | .error, _ => r.hold .error r.settled.context
  | state, some context => { r with observed := some ⟨state, context⟩ }
  | _, none => r

/-- `record_success`: apply a successful lifecycle task, with no target for recovery. -/
def recordSuccess (target : Option InternalControllerState) (context : K) : ControllerStateResolver K :=
  match target with
  | none => { r with latch := none, inferred := .unknown }
  | some target => { r with latch := none, inferred := target, commanded := ⟨target, context⟩ }

/-- `record_finish`: apply a finished lifecycle task with the given target, submitted input,
finish, and whether it began. -/
def recordFinish (target : Option InternalControllerState) (submitted : K) (finish : TaskFinishInfo)
    (began : Bool) : ControllerStateResolver K :=
  let context := if target.isSome then submitted else r.settled.context
  match finish.error, finish.aborted, began with
  -- A task that never began leaves the hardware and the latch as they were.
  | none, true, false => r
  | none, false, _ => r.recordSuccess target context
  | none, true, true => r.hold .unknown context
  | some _, _, _ => r.hold .error context

variable [DecidableEq K]

/-- `confirms`: no known state was reported or the latest one is the target. -/
def confirms (target : StateWithInput K) : Bool :=
  r.observed = none ∨ r.observed = some target

/-- The latch, if it is another than the one seen before. -/
def latchedSince (seen : Option ℕ) : Option (Latch K) :=
  r.latch.filter fun latch => some latch.id ≠ seen

end ControllerStateResolver

/-- Controller state. -/
structure ControllerState (K : Type) where
  enabled : Bool := true
  operatingState : ControllerOperatingState K
  executionState : TaskExecutionState
deriving DecidableEq, Repr

namespace ControllerState

variable (s : ControllerState K)

/-- Whether `init_impl` latches a recovered operating state: a restart is not a successful
command, so an unsettled state stays latched. -/
def latched (o : ControllerOperatingState K) : Bool :=
  match o.current, o.previous, o.target with
  -- UNKNOWN since the first start has nothing to latch.
  | .unknown, none, none => false
  | .unknown, _, _ | .error, _, _ | .transition, _, _ => true
  | _, _, target => target.isSome

/-- `_normalize_startup_state`. A `legacy` record was stored without a lifecycle input. -/
def normalize (legacy : Bool) : ControllerState K :=
  let o := s.operatingState
  if o.current = .unknown ∧ o.target = none ∧ ¬legacy ∧ ¬s.executionState.executing then s
  else
    { s with
      operatingState := o.derive .unknown none o.context
      executionState :=
        if s.executionState.executing then
          { finished := some { aborted := true }, execution := s.executionState.execution }
        else s.executionState }

end ControllerState

end SensorKit.Core
