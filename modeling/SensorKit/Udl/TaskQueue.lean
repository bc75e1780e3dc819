import SensorKit.Core.ProgramOffers
import SensorKit.Lib.Run

/-!
# The queue of collect requests

Requests are kept in the order of their starts. An operation expires what it finds at the head of the queue, and whatever
changes the queue rebuilds all offers from the executing request and the queued ones. Times are in microseconds.
-/

namespace SensorKit.Udl

open Lib Core

variable {lib : IntervalTrees ℤ}

/-- The part of a `CollectRequestFull` that the queue reads. -/
structure CollectRequest where
  id : String
  startTime : Option ℤ
  endTime : Option ℤ
deriving DecidableEq, Repr

/-- `datetime.min` and `datetime.max`. -/
def datetimeMin : ℤ := -62135596800000000

def datetimeMax : ℤ := 253402300799999999

namespace CollectRequest

variable (request : CollectRequest) (now : ℤ)

/-- The priority of a request, by start and then by end. -/
def key : ℤ × ℤ := (request.startTime.getD datetimeMin, request.endTime.getD datetimeMax)

def keyLe (request other : CollectRequest) : Bool :=
  request.key.1 < other.key.1 ∨ request.key.1 = other.key.1 ∧ request.key.2 ≤ other.key.2

def Expired : Prop := ∃ stop ∈ request.endTime, stop ≤ now

instance : Decidable (request.Expired now) := inferInstanceAs (Decidable (∃ stop ∈ request.endTime, stop ≤ now))

/-- The window of the request has opened. -/
def Opened : Prop := request.startTime.getD now ≤ now

instance : Decidable (request.Opened now) := inferInstanceAs (Decidable (_ ≤ _))

/-- The offer that the queue makes of a request, with some end. -/
def offer («end» : Option ℤ) : ℤ × Option ℤ × String := (request.startTime.getD now, «end», request.id)

end CollectRequest

/-- A queue, with the program that it makes offers for, and what its `on_expired` callback has been called for. -/
structure TaskQueue (lib : IntervalTrees ℤ) where
  tasks : List CollectRequest := []
  executing : Option CollectRequest := none
  program : OfferingProgram lib := {}
  reported : List CollectRequest := []

/-- A call, with what it reads from the clock, for expiry and then for the offers. -/
inductive QueueCall where
  | push (request : CollectRequest) (now : ℤ)
  | pop (now later : ℤ)
  | peek (now : ℤ)
  | remove (taskId : String) (now : ℤ)
deriving DecidableEq, Repr

inductive QueueResult where
  | done
  | task (request : Option CollectRequest)
  | removed (found : Bool)
  | raised (error : String)
deriving DecidableEq, Repr

namespace TaskQueue

variable (deadband : ℤ) (queue : TaskQueue lib)

/-- The offers of the executing request, with the deadband, and of some queued ones. -/
def offersWith (tasks : List CollectRequest) (now : ℤ) : List (ℤ × Option ℤ × String) :=
  (queue.executing.toList.map fun request => request.offer now (request.endTime.map (· + deadband))) ++
    tasks.map fun request => request.offer now request.endTime

/-- Update the offer window from the executing request plus queued tasks. -/
def updateOffers (now : ℤ) : TaskQueue lib × Except String Unit :=
  match queue.program.clearOffers.addOffers (queue.offersWith deadband queue.tasks now) with
  | (program, .ok ()) => ({ queue with program := program.publishOffers }, .ok ())
  | (program, .error error) => ({ queue with program }, .error error)

/-- The queue after an update of its offers, and what the call returns if that goes through. -/
def updating (now : ℤ) (result : QueueResult) : TaskQueue lib × QueueResult :=
  match queue.updateOffers deadband now with
  | (queue, .ok ()) => (queue, result)
  | (queue, .error error) => (queue, .raised error)

/-- Remove expired tasks from the head, and report them. -/
def expire (now : ℤ) : TaskQueue lib :=
  { queue with
    tasks := queue.tasks.dropWhile fun request => request.Expired now
    reported := queue.reported ++ queue.tasks.takeWhile fun request => request.Expired now }

/-- Add a request, and sort by start and end to maintain priority. -/
def insert (request : CollectRequest) : TaskQueue lib :=
  { queue with tasks := (queue.tasks ++ [request]).mergeSort CollectRequest.keyLe }

def pushTask (request : CollectRequest) (now : ℤ) : TaskQueue lib × QueueResult :=
  (queue.insert request).updating deadband now .done

/-- Start on the head of the queue. -/
def start (head : CollectRequest) : TaskQueue lib := { queue with tasks := queue.tasks.tail, executing := some head }

def popTask (now later : ℤ) : TaskQueue lib × QueueResult :=
  let queue := queue.expire now
  match queue.tasks.head? with
  | none => (queue, .task none)
  | some head =>
    if head.Opened now then (queue.start head).updating deadband later (.task (some head)) else (queue, .task none)

def peekTask (now : ℤ) : TaskQueue lib × QueueResult :=
  let queue := queue.expire now
  (queue, .task queue.tasks.head?)

/-- Forget a request, executing or queued. -/
def without (taskId : String) : TaskQueue lib :=
  { queue with
    executing := queue.executing.filter fun request => request.id ≠ taskId
    tasks := queue.tasks.filter fun request => request.id ≠ taskId }

/-- The request is executing or queued. -/
def Has (taskId : String) : Prop :=
  (∃ request ∈ queue.executing, request.id = taskId) ∨ ∃ request ∈ queue.tasks, request.id = taskId

instance (taskId : String) : Decidable (queue.Has taskId) := inferInstanceAs (Decidable (_ ∨ _))

def removeTask (taskId : String) (now : ℤ) : TaskQueue lib × QueueResult :=
  if queue.Has taskId then (queue.without taskId).updating deadband now (.removed true)
  else (queue.without taskId, .removed false)

def call : QueueCall → TaskQueue lib × QueueResult
  | .push request now => queue.pushTask deadband request now
  | .pop now later => queue.popTask deadband now later
  | .peek now => queue.peekTask now
  | .remove taskId now => queue.removeTask deadband taskId now

/-- A call leaves a queue, also when it raises. -/
def step (call : QueueCall) : Option (TaskQueue lib) := some (queue.call deadband call).1

end TaskQueue

/-! ## What the queue promises -/

/-- A request that has not expired, and that starts no later than any other one that has not. -/
def Earliest (tasks : List CollectRequest) (now : ℤ) (request : CollectRequest) : Prop :=
  request ∈ tasks ∧ ¬request.Expired now ∧ ∀ other ∈ tasks, ¬other.Expired now → request.key.1 ≤ other.key.1

/-- The time at which a call expires requests, if it does. -/
def QueueCall.expiresAt : QueueCall → Option ℤ
  | .pop now _ => some now
  | .peek now => some now
  | _ => none

/-- The request that a call takes out of the queue, if it does. -/
def QueueCall.taken : QueueCall → QueueResult → Option CollectRequest
  | .pop _ _, .task request => request
  | _, _ => none

/-- The time at which a call with this result has published the offers, if it has. -/
def QueueCall.publishedAt : QueueCall → QueueResult → Option ℤ
  | .push _ now, .done => some now
  | .pop _ later, .task (some _) => some later
  | .remove _ now, .removed true => some now
  | _, _ => none

namespace TaskQueue

variable (deadband : ℤ) (queue : TaskQueue lib)

/-- The windows of the executing request and of the queued requests that still have one. -/
def windows (now : ℤ) : List (Interval ℤ String) :=
  windowsOf (queue.offersWith deadband (queue.tasks.filter fun request => ¬request.Expired now) now)

/-- What the queue promises of a call, given what it leaves and returns. The clock reads no time before `datetime.min`. -/
structure Kept (call : QueueCall) (after : TaskQueue lib) (result : QueueResult) : Prop where
  runs : ∀ error, result ≠ .raised error
  returns : ∀ now later, call = .pop now later → datetimeMin ≤ now →
    ((∃ request, result = .task (some request)) ↔ ∃ request, Earliest queue.tasks now request ∧ request.Opened now)
  earliest : ∀ now later request, call = .pop now later → result = .task (some request) →
    Earliest queue.tasks now request ∧ request.Opened now
  expired : ∃ gone, after.reported = queue.reported ++ gone ∧
    (∀ request ∈ gone, ∃ now ∈ call.expiresAt, request.Expired now) ∧
    ∀ now ∈ call.expiresAt, queue.tasks = gone ++ (call.taken result).toList ++ after.tasks
  published : ∀ now ∈ call.publishedAt result, ∃ tree, after.program.published = some tree ∧
    ∀ window, window ∈ lib.intervals tree ↔ window ∈ after.windows deadband now

/-- Offers can be made of a queue: every request in it has an end after its start, or after the current time if it has no
start, where the end of the executing one has the deadband added; and no queued one has expired, unless its offer is that of
the executing one. -/
structure Offerable (now : ℤ) : Prop where
  all : AllOffered (queue.offersWith deadband queue.tasks now)
  live : ∀ request ∈ queue.tasks, request.Expired now →
    ∃ running ∈ queue.executing, running.offer now (running.endTime.map (· + deadband)) = request.offer now request.endTime

/-- A call that the queue is safe against: what it makes offers of can be offered. -/
def Safe : QueueCall → Prop
  | .push request now => (queue.insert request).Offerable deadband now
  | .pop now later => ∀ head ∈ (queue.expire now).tasks.head?, head.Opened now →
    ((queue.expire now).start head).Offerable deadband later
  | .peek _ => True
  | .remove taskId now => queue.Has taskId → (queue.without taskId).Offerable deadband now

end TaskQueue

end SensorKit.Udl
