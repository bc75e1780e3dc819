import SensorKit.Sensor.Workflow

/-!
# Sending an operation

`Dispatcher.perform` records an attempt, sends the operation's command in a task of its own and waits for
it, under the operation's timeout and until the caller is cancelled. A call that was cancelled or timed out
is followed by one Abort, where the device supports it. Both tasks are cancelled and waited for before
`perform` goes on, and the first cancellation of the caller is held until then.
-/

namespace SensorKit.Sensor

open Lib Common

/-- An error that a device call raises, a timeout of the transport or another one. -/
inductive CallError where
  | timeout (message : String)
  | other (message : String)
deriving DecidableEq, Repr

/-- How the task of a device call ends. -/
inductive CallEnd (ν : Type) where
  | result (value : ν)
  | failed (error : CallError)
  | cancelled
deriving DecidableEq, Repr

/-- `_dropped`: whether the local call was cancelled or ended with a timeout. -/
def CallEnd.dropped {ν : Type} : CallEnd ν → Bool
  | .cancelled | .failed (.timeout _) => true
  | _ => false

/-- A task that the dispatcher owns. A cancellation that reaches it while it runs may be ignored by the call. -/
inductive OwnedTask (ν : Type) where
  | created (requested : Bool)
  | running
  | ended (sent : Bool) (ending : CallEnd ν)
deriving DecidableEq, Repr

namespace OwnedTask

variable {ν : Type}

def done : OwnedTask ν → Bool
  | .ended _ _ => true
  | _ => false

/-- Whether the client has been given the command. -/
def sent : OwnedTask ν → Bool
  | .created _ => false
  | .running => true
  | .ended sent _ => sent

def cancel : OwnedTask ν → OwnedTask ν
  | .created _ => .created true
  | task => task

/-- The task gives the command to the client, unless it has been cancelled before. -/
def begins : OwnedTask ν → Option (OwnedTask ν)
  | .created false => some .running
  | _ => none

/-- A call ends in any way. A task that has not begun can only be cancelled. -/
def ends (ending : CallEnd ν) : OwnedTask ν → Option (OwnedTask ν)
  | .running => some (.ended true ending)
  | .created _ =>
    match ending with
    | .cancelled => some (.ended false .cancelled)
    | _ => none
  | .ended _ _ => none

end OwnedTask

/-- What ends a wait: the task is done, the timeout has passed, or the caller is cancelled. -/
inductive Wake where
  | done
  | timeout
  | cancelled
deriving DecidableEq, Repr

/-- Where `_owned` is: in its initial wait, or draining with whether the task expired. The first cancellation of
the caller is held. -/
structure OwnedWait where
  draining : Option Bool := none
  cancelled : Option ℕ := none
deriving DecidableEq, Repr

namespace OwnedWait

variable {ν : Type}

/-- The initial wait ends, and the task is cancelled. -/
def stop (expired : Bool) (task : OwnedTask ν) (w : OwnedWait) : OwnedTask ν × OwnedWait :=
  (task.cancel, { w with draining := some expired })

/-- `_until_stopped` and the drain of `_owned` go on, where `arrived` cancellations came before. -/
def resume (seconds : Option ℚ) (interruptible : Bool) (arrived : ℕ) (task : OwnedTask ν) (w : OwnedWait) :
    Wake → Option (OwnedTask ν × OwnedWait)
  | .done =>
    if task.done then
      match w.draining with
      | none => some (w.stop false task)
      | some _ => some (task, w)
    else none
  | .timeout =>
    if w.draining = none ∧ seconds.isSome then some (w.stop (!task.done) task) else none
  | .cancelled =>
    let w := { w with cancelled := w.cancelled.or (some arrived) }
    if w.draining = none ∧ (interruptible ∨ task.done) then some (w.stop false task) else some (task, w)

/-- What `_owned` returns once the task has drained: whether it expired. -/
def returned (task : OwnedTask ν) (w : OwnedWait) : Option Bool :=
  if task.done then w.draining else none

end OwnedWait

/-! ## Operations -/

/-- A command as it is sent, with its header if it is an acquisition. -/
structure Outgoing (κ : Type) where
  command : DeviceCommand
  context : Option κ
deriving DecidableEq

/-- The header sources, clients and capabilities of one run. `merge` merges contexts in precedence order. -/
structure Dispatcher (κ : Type) where
  sensor : BoundSensor
  clients : List String
  contexts : Dict String κ := .empty
  base : Option κ := none
  planned : CollectKeyword → κ
  merge : List (Option κ) → κ

namespace Dispatcher

variable {κ : Type} (d : Dispatcher κ)

/-- Build a fresh acquisition context with sources in precedence order. -/
def header (operation : Operation) : Except PlanningError κ := do
  let chain ← d.sensor.topology.chain operation.target
  let planned := (operation.acquisition.bind Acquisition.keywords).map d.planned
  return d.merge (d.base :: chain.map (fun p => d.contexts.get? p.device) ++ [planned])

/-- The command to send, with a fresh header for an acquisition. -/
def outgoing (operation : Operation) : Except PlanningError (Outgoing κ) :=
  match operation.acquisition with
  | none => .ok { command := operation.command, context := none }
  | some _ => do
    let header ← d.header operation
    return { command := operation.command, context := some header }

def supportsAbort (device : String) : Bool :=
  "Abort" ∈ d.sensor.supportedCommands device

end Dispatcher

/-- Abort response timeout in seconds. -/
def abortTimeoutS : ℚ := 5

/-- Result of the built-in Abort attempt for a dropped call. -/
inductive Interruption where
  | acknowledged
  | unsupported
  | failed (error : Option CallError)
  | timedOut
deriving DecidableEq, Repr

/-- An error of an operation: that of the call, its timeout, or a cancellation, of the caller or of the call alone. -/
inductive Failure where
  | call (error : CallError)
  | timeout (message : String)
  | cancelled (caller : Option ℕ)
deriving DecidableEq, Repr

inductive OperationOutcome (ν : Type) where
  | begin
  | ok (value : ν)
  | failed (error : Failure)
  | cancelled
deriving DecidableEq, Repr

/-- A begin or terminal event for an attempted operation. -/
structure OperationEvent (ν : Type) where
  operation : Operation
  node : ℕ
  outcome : OperationOutcome ν
deriving DecidableEq, Repr

/-- What `perform` does that others see, in order. -/
inductive Deed (κ ν : Type) where
  | attempt (operation : Operation)
  | notify (event : OperationEvent ν)
  | send (command : Outgoing κ)
  | abort
  | interrupted (interruption : Interruption)
deriving DecidableEq

inductive PerformEnding (ν : Type) where
  | returned (value : ν)
  | raised (error : Failure)
  | lookup (message : String)
  | header (error : PlanningError)
deriving DecidableEq, Repr

inductive PerformPhase (ν : Type) where
  | calling (wait : OwnedWait)
  | aborting (expired : Bool) (cancelled : Option ℕ) (wait : OwnedWait)
  | ended (ending : PerformEnding ν)
deriving DecidableEq, Repr

/-- One run of `perform`, with the tasks it has created. -/
structure Performing (κ ν : Type) where
  phase : PerformPhase ν
  call : Option (Outgoing κ × OwnedTask ν) := none
  abort : Option (OwnedTask ν) := none
  deeds : List (Deed κ ν) := []
  /-- How many cancellations of the caller have arrived. -/
  cancellations : ℕ := 0
deriving DecidableEq

inductive PerformLabel (ν : Type) where
  | callBegins
  | callEnds (ending : CallEnd ν)
  | abortBegins
  | abortEnds (ending : CallEnd ν)
  | wake (wake : Wake)
deriving DecidableEq

namespace Performing

variable {κ ν : Type} (d : Dispatcher κ) (operation : Operation) (node : ℕ) (s : Performing κ ν)

def notify (outcome : OperationOutcome ν) : Performing κ ν :=
  { s with deeds := s.deeds ++ [.notify ⟨operation, node, outcome⟩] }

/-- The run up to its first wait. -/
def start : Performing κ ν :=
  let device := operation.target.device
  if device ∉ d.clients then { phase := .ended (.lookup ("no client for device '" ++ device ++ "'")) }
  else
    match d.outgoing operation with
    | .error e => { phase := .ended (.header e) }
    | .ok command =>
      { phase := .calling {}
        call := some (command, .created false)
        deeds := [.attempt operation, .notify ⟨operation, node, .begin⟩] }

/-- `_concluded`: the outcome and the error of a call. -/
def concluded (ending : CallEnd ν) (expired : Bool) (cancelled : Option ℕ) : OperationOutcome ν × PerformEnding ν :=
  match ending with
  | .result value => (.ok value, .returned value)
  | .failed error => (.failed (.call error), .raised (.call error))
  | .cancelled =>
    if expired ∧ cancelled = none then
      let error := Failure.timeout ("'" ++ operation.id ++ "' did not finish within " ++
        shownTimeout operation.timeoutS ++ "s")
      (.failed error, .raised error)
    else (.cancelled, .raised (.cancelled cancelled))

/-- Emit the terminal event, then end. A held cancellation of the caller takes precedence. -/
def conclude (ending : CallEnd ν) (expired : Bool) (cancelled : Option ℕ) : Performing κ ν :=
  let (outcome, ends) := concluded operation ending expired cancelled
  { s.notify operation node outcome with
    phase := .ended (if cancelled.isSome then .raised (.cancelled cancelled) else ends) }

/-- The interruption that an Abort task's ending stands for. -/
def interruption (ending : CallEnd ν) (expired : Bool) : Interruption :=
  if expired then .timedOut
  else
    match ending with
    | .cancelled => .failed none
    | .failed error => .failed (some error)
    | .result _ => .acknowledged

/-- Go on from the call: attempt an Abort for a dropped one. -/
def afterCall (ending : CallEnd ν) (expired : Bool) (cancelled : Option ℕ) : Performing κ ν :=
  if ending.dropped then
    if d.supportsAbort operation.target.device then
      { s with abort := some (.created false), phase := .aborting expired cancelled {} }
    else
      ({ s with deeds := s.deeds ++ [Deed.interrupted .unsupported] }).conclude operation node ending expired cancelled
  else s.conclude operation node ending expired cancelled

/-- Go on from the Abort: record its outcome. -/
def afterAbort (ending : CallEnd ν) (expired : Bool) (cancelled : Option ℕ) (abort : CallEnd ν) (abortExpired : Bool)
    (abortCancelled : Option ℕ) : Performing κ ν :=
  ({ s with deeds := s.deeds ++ [Deed.interrupted (interruption abort abortExpired)] }).conclude operation node ending expired
    (cancelled.or abortCancelled)

/-- A cancellation of the caller is counted as it arrives. -/
def arrive (cause : Wake) : Performing κ ν :=
  if cause = .cancelled then { s with cancellations := s.cancellations + 1 } else s

/-- A wait of `perform` goes on. -/
def wake (cause : Wake) : Option (Performing κ ν) := do
  let arrived := s.cancellations
  let s := s.arrive cause
  match s.phase, s.call with
  | .calling wait, some (command, task) =>
    let (task, wait) ← wait.resume operation.timeoutS true arrived task cause
    let s := { s with call := some (command, task), phase := .calling wait }
    match task, wait.returned task with
    | .ended _ ending, some expired => return s.afterCall d operation node ending expired wait.cancelled
    | _, _ => return s
  | .aborting expired cancelled wait, some (_, .ended _ ending) =>
    let abort ← s.abort
    let (abort, wait) ← wait.resume (some abortTimeoutS) false arrived abort cause
    let s := { s with abort := some abort, phase := .aborting expired cancelled wait }
    match abort, wait.returned abort with
    | .ended _ abortEnding, some abortExpired =>
      return s.afterAbort operation node ending expired cancelled abortEnding abortExpired wait.cancelled
    | _, _ => return s
  | _, _ => none

/-- One step: a task begins or ends, or a wait goes on. -/
def step : PerformLabel ν → Option (Performing κ ν)
  | .callBegins => do
    let (command, task) ← s.call
    let task ← task.begins
    return { s with call := some (command, task), deeds := s.deeds ++ [.send command] }
  | .callEnds ending => do
    let (command, task) ← s.call
    let task ← task.ends ending
    return { s with call := some (command, task) }
  | .abortBegins => do
    let abort ← s.abort
    let abort ← abort.begins
    return { s with abort := some abort, deeds := s.deeds ++ [.abort] }
  | .abortEnds ending => do
    let abort ← s.abort
    let abort ← abort.ends ending
    return { s with abort := some abort }
  | .wake cause => s.wake d operation node cause

end Performing

end SensorKit.Sensor
