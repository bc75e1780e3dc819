import SensorKit.Auto.Operator
import SensorKit.Common.AsyncObserver
import SensorKit.Lib.Indexed
import SensorKit.Lib.Run

/-!
# Driving the programs' enable state

`ProgramStateManager` notifies its watcher of each change of what is desired. Two watchers and the retries call
`_handle_program`, which reads the remote state under the program's lock, then the desired target, and sends a request
if they differ. Each await may take any time, and a request that has failed at its caller may still take effect.
-/

namespace SensorKit.Auto

open Lib Common SensorKit.Core

structure ProgramEnableStateRequest where
  enable : Bool
  controller : Option String
deriving DecidableEq, Repr

/-- `_set_enable_state` of the program, as far as its enable state is concerned. -/
def setEnableState (state : ProgramEnableState) (request : ProgramEnableStateRequest) : ProgramEnableState :=
  if request.enable = false ∧ state.enabled = false then state else ⟨request.enable, request.controller⟩

/-- What `_handle_program` sends. An empty name is no target. -/
def requestFor (target : Option String) : ProgramEnableStateRequest :=
  match target.filter (· ≠ "") with
  | some target => ⟨true, some target⟩
  | none => ⟨false, none⟩

/-- Nothing is to be sent. -/
def Agrees (state : ProgramEnableState) (target : Option String) : Prop :=
  match target.filter (· ≠ "") with
  | some target => state.enabled = true ∧ state.controller = some target
  | none => state.enabled = false

instance (state : ProgramEnableState) (target : Option String) : Decidable (Agrees state target) := by
  unfold Agrees
  split <;> infer_instance

namespace ProgramStateManager

/-- `get_target_controller`. -/
def getTargetController (self : ProgramStateManager) (program : String) : Option String :=
  if self.globalEnabled then self.desiredEnable.get? program else none

end ProgramStateManager

/-! ## The tasks -/

/-- How far a call of `_handle_program` has come. -/
inductive HandlerStage where
  /-- It waits for the program's lock. -/
  | waiting
  | reading
  /-- The store has answered; a program without a state is a `KVError`. -/
  | read (state : Option ProgramEnableState)
  /-- The request is sent, and has taken effect or not. -/
  | requesting (request : ProgramEnableStateRequest) (effective : Bool)
deriving DecidableEq, Repr

/-- A watcher or a retry. A retry sleeps while its program is still to be handled. -/
structure DriveTask where
  todo : List String
  handler : Option (String × HandlerStage) := none
deriving DecidableEq, Repr

structure ProgramDrive where
  manager : ProgramStateManager
  onChange : AsyncObserver (Option String) := { value := none }
  /-- `known_programs` of the discovery. -/
  knownPrograms : AsyncObserver (List String) := { value := [] }
  previousDiscovered : List String := []
  /-- The stored enable states. -/
  remote : Dict String ProgramEnableState := .empty
  /-- Requests on which their callers have given up. -/
  abandoned : List (String × ProgramEnableStateRequest) := []
  /-- `_watch_changes`, then `_watch_discovery`, then the retries. -/
  tasks : List DriveTask := []

inductive DriveLabel where
  | assignController (program controller : String)
  | enable (program : String)
  | disable (program : String)
  | setGlobal (enabled : Bool)
  | discovered (programs : List String)
  /-- A program comes up, and stores its state. -/
  | register (program : String) (state : ProgramEnableState)
  /-- `start`: the watchers run up to their first await. -/
  | start
  | takeChange
  | takeDiscovered
  /-- Call `_handle_program` for the next program; a retry wakes. -/
  | next (k : ℕ)
  | acquire (k : ℕ)
  | read (k : ℕ)
  | decide (k : ℕ)
  | effect (k : ℕ)
  | answer (k : ℕ)
  /-- The call raises: an error of the backend, a refusal, or a timeout. -/
  | fail (k : ℕ)
  | lateEffect (j : ℕ)
deriving DecidableEq, Repr

namespace ProgramDrive

variable (s : ProgramDrive)

/-- What is desired has changed, and the watcher is notified of it, or nothing has. -/
def changed (manager : ProgramStateManager) (item : Option String) (change : Bool) : ProgramDrive :=
  if change then { s with manager, onChange := s.onChange.notify item } else s

def setTask (k : ℕ) (task : DriveTask) : ProgramDrive :=
  { s with tasks := s.tasks.set k task }

/-- Some call of `_handle_program` holds the program's lock. -/
def Locked (program : String) : Prop :=
  ∃ task ∈ s.tasks, ∃ h ∈ task.handler, h.1 = program ∧ h.2 ≠ .waiting

instance (program : String) : Decidable (s.Locked program) :=
  inferInstanceAs (Decidable (∃ task ∈ s.tasks, ∃ h ∈ task.handler, h.1 = program ∧ h.2 ≠ .waiting))

/-- The call has raised, and a retry sleeps. -/
def retry (k : ℕ) (task : DriveTask) (program : String) : ProgramDrive :=
  { s with tasks := s.tasks.set k { task with handler := none } ++ [{ todo := [program] }] }

/-- The request takes effect at the program. -/
def serve (program : String) (request : ProgramEnableStateRequest) : Option ProgramDrive := do
  let state ← s.remote.get? program
  return { s with remote := s.remote.insert program (setEnableState state request) }

/-- The programs in which the two sets differ. -/
def symmetricDifference (programs previous : List String) : List String :=
  programs.filter (· ∉ previous) ++ previous.filter (· ∉ programs)

/-- The task with the handler that it awaits. -/
def handling (k : ℕ) : Option (DriveTask × String × HandlerStage) := do
  let task ← s.tasks[k]?
  let handler ← task.handler
  return (task, handler)

def step (s : ProgramDrive) : DriveLabel → Option ProgramDrive
  | .assignController program controller => some { s with manager := s.manager.assignController program controller }
  | .enable program =>
    match s.manager.enable program with
    | .ok manager => some (s.changed manager (some program)
        (manager.desiredEnable.get? program ≠ s.manager.desiredEnable.get? program))
    | .error _ => some s
  | .disable program => some (s.changed (s.manager.disable program) (some program)
      (s.manager.desiredEnable.get? program).isSome)
  | .setGlobal enabled => some (s.changed (s.manager.setGlobal enabled) none (s.manager.globalEnabled != enabled))
  | .discovered programs => some { s with knownPrograms := s.knownPrograms.notify programs }
  | .register program state =>
    if s.remote.get? program = none then some { s with remote := s.remote.insert program state } else none
  | .start =>
    if s.tasks = [] then
      some { s with
        onChange := s.onChange.consume
        knownPrograms := s.knownPrograms.consume
        tasks := [{ todo := [] }, { todo := [] }] }
    else none
  | .takeChange =>
    if s.tasks[0]? = some { todo := [] } then do
      let (item, onChange) ← s.onChange.take
      let todo := match item with
        | none => s.manager.allPrograms
        | some program => [program]
      return { s with onChange }.setTask 0 { todo }
    else none
  | .takeDiscovered =>
    if s.tasks[1]? = some { todo := [] } then do
      let (programs, knownPrograms) ← s.knownPrograms.take
      let todo := (symmetricDifference programs s.previousDiscovered).filter (· ∈ s.manager.allPrograms)
      return { s with knownPrograms, previousDiscovered := programs }.setTask 1 { todo }
    else none
  | .next k => do
    let task ← s.tasks[k]?
    match task.todo, task.handler with
    | program :: todo, none => return s.setTask k { todo, handler := some (program, .waiting) }
    | _, _ => none
  | .acquire k => do
    let (task, program, stage) ← s.handling k
    if stage = .waiting ∧ ¬ s.Locked program then return s.setTask k { task with handler := some (program, .reading) }
    else none
  | .read k => do
    let (task, program, stage) ← s.handling k
    if stage = .reading then
      return s.setTask k { task with handler := some (program, .read (s.remote.get? program)) }
    else none
  | .decide k => do
    let (task, program, stage) ← s.handling k
    match stage with
    | .read none => return s.retry k task program
    | .read (some state) =>
      let target := s.manager.getTargetController program
      if Agrees state target then return s.setTask k { task with handler := none }
      else return s.setTask k { task with handler := some (program, .requesting (requestFor target) false) }
    | _ => none
  | .effect k => do
    let (task, program, stage) ← s.handling k
    match stage with
    | .requesting request false =>
      let s ← s.serve program request
      return s.setTask k { task with handler := some (program, .requesting request true) }
    | _ => none
  | .answer k => do
    let (task, _, stage) ← s.handling k
    match stage with
    | .requesting _ true => return s.setTask k { task with handler := none }
    | _ => none
  | .fail k => do
    let (task, program, stage) ← s.handling k
    match stage with
    | .reading => return s.retry k task program
    | .requesting request effective =>
      let abandoned := if effective then s.abandoned else s.abandoned ++ [(program, request)]
      return { s with abandoned }.retry k task program
    | _ => none
  | .lateEffect j => do
    let (program, request) ← s.abandoned[j]?
    let s ← s.serve program request
    return { s with abandoned := s.abandoned.eraseIdx j }

/-! ## What re-drives a program -/

/-- A notification concerns one program, or all. -/
def Concerns (item : Option String) (program : String) : Prop :=
  ∀ named ∈ item, named = program

instance (item : Option String) (program : String) : Decidable (Concerns item program) :=
  inferInstanceAs (Decidable (∀ named ∈ item, named = program))

/-- The current desired target. -/
def desired (program : String) : Option String :=
  s.manager.getTargetController program

def Known (program : String) : Prop :=
  program ∈ s.manager.allPrograms ∧ program ∈ s.knownPrograms.value

/-- The remote enable state is as desired. -/
def Settled (program : String) : Prop :=
  ∃ state ∈ s.remote.get? program, Agrees state (s.desired program)

/-- A change of what is desired is queued. -/
def Changed (program : String) : Prop :=
  ∃ item ∈ s.onChange.queued, Concerns item program

/-- The program's discovery is queued. -/
def Discovered (program : String) : Prop :=
  program ∉ s.previousDiscovered ∧ ∃ programs ∈ s.knownPrograms.queued, program ∈ programs

/-- Some call of `_handle_program` for the program has come to such a stage. -/
def Handled (program : String) (stage : HandlerStage → Prop) : Prop :=
  ∃ task ∈ s.tasks, ∃ h ∈ task.handler, h.1 = program ∧ stage h.2

/-- The handler has not yet compared the state with the target. -/
def Undecided : HandlerStage → Prop
  | .waiting | .reading | .read _ => True
  | .requesting .. => False

/-- The handler has sent the request for the target. -/
def Requests (target : Option String) : HandlerStage → Prop
  | .requesting request _ => request = requestFor target
  | _ => False

/-- A watcher that has taken a notification is still to come to the program, or a retry sleeps. -/
def Due (program : String) : Prop :=
  ∃ task ∈ s.tasks, program ∈ task.todo

def RetryScheduled (program : String) : Prop :=
  ∃ task ∈ s.tasks.drop 2, program ∈ task.todo

/-- A trace is left that re-drives the program, unless its state is as desired. -/
def Traced (program : String) : Prop :=
  s.Settled program ∨ s.Changed program ∨ s.Discovered program ∨ s.Handled program Undecided ∨ s.Due program ∨
    s.Handled program (Requests (s.desired program))

/-- The same, without the programs to which a watcher is still to come, and without the requests on their way. -/
def NarrowlyTraced (program : String) : Prop :=
  s.Settled program ∨ s.Changed program ∨ s.Discovered program ∨ s.Handled program Undecided ∨
    s.RetryScheduled program

/-! ## The conditions of a run -/

/-- The notification that a call sends. -/
def notice : DriveLabel → Option (Option String)
  | .enable program =>
    match s.manager.enable program with
    | .ok manager =>
      if manager.desiredEnable.get? program ≠ s.manager.desiredEnable.get? program then some (some program) else none
    | .error _ => none
  | .disable program => if (s.manager.desiredEnable.get? program).isSome then some (some program) else none
  | .setGlobal enabled => if s.manager.globalEnabled != enabled then some none else none
  | _ => none

/-- The queue is not full, or what it loses is queued again for each program concerned. -/
def KeepsNotices (a : DriveLabel) : Prop :=
  ∀ item ∈ s.notice a, defaultMaxsize ≤ s.onChange.queued.length → ∀ lost ∈ s.onChange.queued.head?,
    ∀ program ∈ s.manager.allPrograms, Concerns lost program →
      ∃ other ∈ AsyncObserver.put s.onChange.queued item, Concerns other program

/-- The handler is still to read the state, or could not. -/
def Unread : HandlerStage → Prop
  | .waiting | .reading | .read none => True
  | _ => False

/-- The program's state is still to be read by some handler. -/
def ToBeRead (program : String) : Prop :=
  s.Changed program ∨ s.Due program ∨ s.Handled program Unread

/-- A request that has failed at its caller takes effect, if at all, before the state is read anew. -/
def EffectsInTime : DriveLabel → Prop
  | .lateEffect j => ∀ r ∈ s.abandoned[j]?, s.ToBeRead r.1
  | _ => True

instance : DecidablePred Undecided
  | .waiting | .reading | .read _ => inferInstanceAs (Decidable True)
  | .requesting .. => inferInstanceAs (Decidable False)

instance (target : Option String) : DecidablePred (Requests target)
  | .requesting request _ => inferInstanceAs (Decidable (request = requestFor target))
  | .waiting | .reading | .read _ => inferInstanceAs (Decidable False)

instance : DecidablePred Unread
  | .waiting | .reading | .read none => inferInstanceAs (Decidable True)
  | .read (some _) | .requesting .. => inferInstanceAs (Decidable False)

section Decide

variable (program : String) (stage : HandlerStage → Prop) [DecidablePred stage]

instance : Decidable (s.Known program) :=
  inferInstanceAs (Decidable (program ∈ s.manager.allPrograms ∧ program ∈ s.knownPrograms.value))

instance : Decidable (s.Settled program) :=
  inferInstanceAs (Decidable (∃ state ∈ s.remote.get? program, Agrees state (s.desired program)))

instance : Decidable (s.Changed program) :=
  inferInstanceAs (Decidable (∃ item ∈ s.onChange.queued, Concerns item program))

instance : Decidable (s.Discovered program) :=
  inferInstanceAs (Decidable (program ∉ s.previousDiscovered ∧
    ∃ programs ∈ s.knownPrograms.queued, program ∈ programs))

instance : Decidable (s.Handled program stage) :=
  inferInstanceAs (Decidable (∃ task ∈ s.tasks, ∃ h ∈ task.handler, h.1 = program ∧ stage h.2))

instance : Decidable (s.Due program) :=
  inferInstanceAs (Decidable (∃ task ∈ s.tasks, program ∈ task.todo))

instance : Decidable (s.RetryScheduled program) :=
  inferInstanceAs (Decidable (∃ task ∈ s.tasks.drop 2, program ∈ task.todo))

instance : Decidable (s.Traced program) :=
  inferInstanceAs (Decidable (_ ∨ _ ∨ _ ∨ _ ∨ _ ∨ _))

instance : Decidable (s.NarrowlyTraced program) :=
  inferInstanceAs (Decidable (_ ∨ _ ∨ _ ∨ _ ∨ _))

instance : Decidable (s.ToBeRead program) :=
  inferInstanceAs (Decidable (_ ∨ _ ∨ _))

end Decide

instance (a : DriveLabel) : Decidable (s.KeepsNotices a) :=
  inferInstanceAs (Decidable (∀ item ∈ s.notice a, defaultMaxsize ≤ s.onChange.queued.length →
    ∀ lost ∈ s.onChange.queued.head?, ∀ program ∈ s.manager.allPrograms, Concerns lost program →
      ∃ other ∈ AsyncObserver.put s.onChange.queued item, Concerns other program))

instance (a : DriveLabel) : Decidable (s.EffectsInTime a) :=
  match a with
  | .lateEffect j => inferInstanceAs (Decidable (∀ r ∈ s.abandoned[j]?, s.ToBeRead r.1))
  | .assignController .. | .enable _ | .disable _ | .setGlobal _ | .discovered _ | .register .. | .start | .takeChange
  | .takeDiscovered | .next _ | .acquire _ | .read _ | .decide _ | .effect _ | .answer _ | .fail _ =>
    inferInstanceAs (Decidable True)

end ProgramDrive

end SensorKit.Auto
