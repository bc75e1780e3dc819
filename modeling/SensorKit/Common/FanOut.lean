import SensorKit.Common.AsyncObserver
import SensorKit.Lib.Fallible
import SensorKit.Lib.Indexed
import SensorKit.Lib.Run

/-!
# Fanning out to subscribers

An `AsyncObserver` with any number of subscribers. Each has a bounded queue of its own, from which a consumer takes values
and marks them done, and a policy for when the queue is full. A turn of `notify` changes the queue and the subscription of
one subscriber.
-/

namespace SensorKit.Common

open Lib

variable {α : Type}

inductive OverflowPolicy
  | dropOldest
  | close
deriving DecidableEq, Repr

/-- What the queues and the observer raise. -/
inductive ObserverError
  | queueFull
  | queueEmpty
  | queueShutDown
  | runtime
  | value
deriving DecidableEq, Repr

/-! ## Queues -/

/-- An `asyncio.Queue`, with the number of values that have been put and not marked done. -/
structure BoundedQueue (α : Type) where
  maxsize : ℕ
  items : List α := []
  unfinished : ℕ := 0
  isShutdown : Bool := false
deriving DecidableEq, Repr

namespace BoundedQueue

def putNowait (queue : BoundedQueue α) (value : α) : Except ObserverError (BoundedQueue α) :=
  if queue.isShutdown then .error .queueShutDown
  else if queue.maxsize ≤ queue.items.length then .error .queueFull
  else .ok { queue with items := queue.items ++ [value], unfinished := queue.unfinished + 1 }

def getNowait (queue : BoundedQueue α) : Except ObserverError (α × BoundedQueue α) :=
  match queue.items with
  | [] => .error (if queue.isShutdown then .queueShutDown else .queueEmpty)
  | item :: items => .ok (item, { queue with items })

def taskDone (queue : BoundedQueue α) : Except ObserverError (BoundedQueue α) :=
  if queue.unfinished = 0 then .error .value else .ok { queue with unfinished := queue.unfinished - 1 }

/-- `shutdown`; an immediate one discards what is pending and marks it done. -/
def shutdown (queue : BoundedQueue α) (immediate : Bool) : BoundedQueue α :=
  if immediate then
    { queue with items := [], unfinished := queue.unfinished - queue.items.length, isShutdown := true }
  else { queue with isShutdown := true }

end BoundedQueue

/-! ## The observer -/

/-- A queue that has been handed out, and whether it is still in the map of observers. The consumer holds values that it
has taken and not marked done. -/
structure FanOutSubscriber (α : Type) where
  queue : BoundedQueue α
  overflow : OverflowPolicy
  subscribed : Bool := true
  held : ℕ := 0
deriving DecidableEq, Repr

/-- The map of observers lists the subscribed ones in the order in which they subscribed. -/
structure FanOutObserver (α : Type) where
  subscribers : List (FanOutSubscriber α) := []
  value : Option α := none
  dropped : ℕ := 0
  closed : Bool := false
deriving DecidableEq, Repr

namespace FanOutObserver

variable (observer : FanOutObserver α)

def subscribe (initialValue : Bool) (maxsize : ℤ) (overflow : OverflowPolicy) :
    Except ObserverError (FanOutObserver α) := do
  if observer.closed then throw .runtime
  if maxsize < 1 then throw .value
  let queue : BoundedQueue α := { maxsize := maxsize.toNat }
  let queue ← match observer.value with
    | some value => if initialValue then queue.putNowait value else .ok queue
    | none => .ok queue
  return { observer with subscribers := observer.subscribers ++ [{ queue, overflow }] }

def unsubscribe (i : ℕ) : FanOutObserver α :=
  { observer with subscribers :=
      observer.subscribers.modify i fun s => { s with subscribed := false, queue := s.queue.shutdown false } }

/-- One turn of the loop of `notify`: the subscriber after it, and how many values have been dropped. -/
def turn (value : α) (s : FanOutSubscriber α) : Except ObserverError (FanOutSubscriber α × ℕ) :=
  match s.queue.putNowait value with
  | .ok queue => .ok ({ s with queue }, 0)
  | .error .queueFull =>
    match s.overflow with
    | .dropOldest => do
      let (_, queue) ← s.queue.getNowait
      let queue ← queue.taskDone
      let queue ← queue.putNowait value
      return ({ s with queue }, 1)
    | .close => .ok ({ s with subscribed := false, queue := s.queue.shutdown true }, s.queue.items.length + 1)
  | .error error => .error error

def visit (value : α) (s : FanOutSubscriber α) : Except ObserverError (FanOutSubscriber α × ℕ) :=
  if s.subscribed then turn value s else .ok (s, 0)

/-- The loop of `notify`, over those who are subscribed. -/
def notifyEach (value : α) : List (FanOutSubscriber α) → Except ObserverError (List (FanOutSubscriber α) × ℕ)
  | [] => .ok ([], 0)
  | s :: rest => do
    let (s, dropped) ← visit value s
    let (rest, more) ← notifyEach value rest
    return (s :: rest, dropped + more)

def notify (value : α) : Except ObserverError (FanOutObserver α) := do
  if observer.closed then throw .runtime
  let (subscribers, dropped) ← notifyEach value observer.subscribers
  return { observer with subscribers, value := some value, dropped := observer.dropped + dropped }

def close : FanOutObserver α :=
  { observer with
    closed := true
    subscribers := observer.subscribers.map fun s =>
      if s.subscribed then { s with subscribed := false, queue := s.queue.shutdown true } else s }

/-- A consumer takes the next value. -/
def get (i : ℕ) : Option (α × FanOutObserver α) :=
  match observer.subscribers[i]? with
  | none => none
  | some s =>
    match s.queue.getNowait with
    | .ok (item, queue) =>
      some (item, { observer with subscribers := observer.subscribers.set i { s with queue, held := s.held + 1 } })
    | .error _ => none

/-- A consumer marks a value done that it holds. -/
def done (i : ℕ) : Option (FanOutObserver α) :=
  match observer.subscribers[i]? with
  | none => none
  | some s =>
    if s.held = 0 then none
    else
      match s.queue.taskDone with
      | .ok queue => some { observer with subscribers := observer.subscribers.set i { s with queue, held := s.held - 1 } }
      | .error _ => none

end FanOutObserver

/-! ## Histories -/

inductive ObserverCall (α : Type)
  | subscribe (initialValue : Bool) (maxsize : ℤ) (overflow : OverflowPolicy)
  | notify (value : α)
  | unsubscribe (i : ℕ)
  | close
  | get (i : ℕ)
  | done (i : ℕ)
deriving DecidableEq, Repr

/-- What has happened to a subscriber: its initial value, what was notified while it was subscribed, what it has received,
and what closing the observer discarded from its queue. -/
structure Ledger (α : Type) where
  initial : List α := []
  notified : List α := []
  received : List α := []
  cleared : List α := []
deriving DecidableEq, Repr

def Ledger.given (l : Ledger α) : List α :=
  l.initial ++ l.notified

/-- A value joins what was given to a subscriber. -/
def Ledger.note (l : Ledger α) (value : α) : Ledger α :=
  { l with notified := l.notified ++ [value] }

/-- An observer with the ledgers of its subscribers. -/
structure FanOut (α : Type) where
  observer : FanOutObserver α := {}
  ledgers : List (Ledger α) := []
deriving DecidableEq, Repr

namespace FanOut

/-- What a notification writes into the ledgers. -/
def noteNotified (value : α) (subscribers : List (FanOutSubscriber α)) (ledgers : List (Ledger α)) : List (Ledger α) :=
  List.zipWith (fun s l => if s.subscribed then l.note value else l) subscribers ledgers

/-- What closing writes into the ledgers. -/
def noteCleared (subscribers : List (FanOutSubscriber α)) (ledgers : List (Ledger α)) : List (Ledger α) :=
  List.zipWith (fun s l => if s.subscribed then { l with cleared := s.queue.items } else l) subscribers ledgers

/-- A call that returns; one that raises changes nothing. -/
def step (fan : FanOut α) : ObserverCall α → Option (FanOut α)
  | .subscribe initialValue maxsize overflow =>
    (fan.observer.subscribe initialValue maxsize overflow).toOption.map fun observer =>
      ⟨observer, fan.ledgers ++ [{ initial := if initialValue then fan.observer.value.toList else [] }]⟩
  | .notify value => (fan.observer.notify value).toOption.map fun observer =>
    ⟨observer, noteNotified value fan.observer.subscribers fan.ledgers⟩
  | .unsubscribe i => some { fan with observer := fan.observer.unsubscribe i }
  | .close => some ⟨fan.observer.close, noteCleared fan.observer.subscribers fan.ledgers⟩
  | .get i => (fan.observer.get i).map fun taken =>
    ⟨taken.2, fan.ledgers.modify i fun l => { l with received := l.received ++ [taken.1] }⟩
  | .done i => (fan.observer.done i).map fun observer => { fan with observer }

/-- The values given to a subscriber that it neither received nor has queued, and that closing did not discard. -/
def overflowed (s : FanOutSubscriber α) (l : Ledger α) : ℕ :=
  l.given.length - (l.received ++ s.queue.items ++ l.cleared).length

end FanOut

end SensorKit.Common
