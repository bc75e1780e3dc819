import SensorKit.Lib.Indexed
import SensorKit.Lib.Run

/-!
# Registrations of a service

A service context registers implementations, each in a call of its own, while its service task maintains their leases. Once
the leases have expired, or something has failed, the service task detaches the implementations that are tracked by then. The
context is an implementation itself, whose registration starts the service task.
-/

namespace SensorKit.Core

open Lib

/-- The await at which a call of `register_impl` is, or how it has ended. -/
inductive RegisterPhase where
  | leasing
  | initializing
  | attaching
  | attached
  | failed (tracked : Bool)
deriving DecidableEq, Repr

/-- An implementation with the call that registers it, and how often its `detach` has been called. -/
structure Registration where
  isService : Bool
  phase : RegisterPhase
  detachCalls : ℕ := 0
deriving DecidableEq, Repr

/-- `init_impl` has completed. -/
def Registration.Initialized (registration : Registration) : Prop :=
  match registration.phase with
  | .attaching | .attached | .failed true => True
  | .leasing | .initializing | .failed false => False

instance (registration : Registration) : Decidable registration.Initialized := by
  unfold Registration.Initialized
  split <;> infer_instance

/-- The await at which `_service_task` is. On its way out it knows whether it `ran_detach`. -/
inductive ServiceTask where
  | notStarted
  | refreshing
  | detaching
  | leavingGroup (ranDetach : Bool)
  | closingListeners (ranDetach : Bool)
  | detachingLast
  | ended
deriving DecidableEq, Repr

structure ServiceContext where
  registrations : List Registration := []
  impls : List ℕ := []
  task : ServiceTask := .notStarted
  shutdownCalled : Bool := false
deriving DecidableEq, Repr

inductive ServiceLabel where
  /-- `register_impl` is called. -/
  | register (isService acquireLease : Bool)
  /-- The lease is acquired, or not. -/
  | leased (i : ℕ) (ok : Bool)
  /-- The service's own `init_impl` creates the service task, which enters its task group. -/
  | start (i : ℕ)
  | initialized (i : ℕ) (ok : Bool)
  | attached (i : ℕ) (ok : Bool)
  | shutdown
  /-- `refresh_loop` returns, since the leases have been expired on purpose. -/
  | refreshReturns
  /-- `refresh_loop` raises: a lease is lost, its refresh fails, or a task of the group fails and cancels it. -/
  | refreshRaises
  /-- A task of the group fails and cancels the detaching. -/
  | taskFails
  /-- The calls of `detach` that are awaited have all ended. -/
  | detached
  /-- The tasks of the group have all ended. -/
  | leftGroup
  /-- The request listeners are shut down, or that failed or took too long. -/
  | closedListeners
deriving DecidableEq, Repr

namespace ServiceContext

variable (context : ServiceContext)

def setPhase (i : ℕ) (phase : RegisterPhase) : ServiceContext :=
  match context.registrations[i]? with
  | some registration => { context with registrations := context.registrations.set i { registration with phase } }
  | none => context

/-- `_run_detach` up to its await: it calls `detach` of each implementation that is tracked. -/
def runDetach (task : ServiceTask) : ServiceContext :=
  { context with
    task
    registrations := context.registrations.mapIdx fun i registration =>
      { registration with detachCalls := registration.detachCalls + context.impls.count i } }

def step : ServiceLabel → Option ServiceContext
  | .register isService acquireLease =>
    some { context with
      registrations := context.registrations ++ [⟨isService, if acquireLease then .leasing else .initializing, 0⟩] }
  | .leased i ok => do
    let registration ← context.registrations[i]?
    if registration.phase = .leasing then some (context.setPhase i (if ok then .initializing else .failed false)) else none
  | .start i => do
    let registration ← context.registrations[i]?
    if registration.phase = .initializing ∧ registration.isService = true ∧ context.task = .notStarted then
      some { context with task := .refreshing }
    else none
  | .initialized i ok => do
    let registration ← context.registrations[i]?
    if registration.phase = .initializing ∧ (registration.isService = true → ok = true → context.task ≠ .notStarted) then
      if ok then some { context.setPhase i .attaching with impls := context.impls ++ [i] }
      else some (context.setPhase i (.failed false))
    else none
  | .attached i ok => do
    let registration ← context.registrations[i]?
    if registration.phase = .attaching then some (context.setPhase i (if ok then .attached else .failed true)) else none
  | .shutdown => some { context with shutdownCalled := true }
  | .refreshReturns =>
    if context.task = .refreshing ∧ context.shutdownCalled = true then some (context.runDetach .detaching) else none
  | .refreshRaises => if context.task = .refreshing then some { context with task := .leavingGroup false } else none
  | .taskFails => if context.task = .detaching then some { context with task := .leavingGroup true } else none
  | .detached =>
    match context.task with
    | .detaching => some { context with task := .leavingGroup true }
    | .detachingLast => some { context with task := .ended }
    | _ => none
  | .leftGroup =>
    match context.task with
    | .leavingGroup ranDetach => some { context with task := .closingListeners ranDetach }
    | _ => none
  | .closedListeners =>
    match context.task with
    | .closingListeners true => some { context with task := .ended }
    | .closingListeners false => some (context.runDetach .detachingLast)
    | _ => none

end ServiceContext

end SensorKit.Core
