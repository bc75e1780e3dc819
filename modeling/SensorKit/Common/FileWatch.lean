import SensorKit.Lib.Dict
import SensorKit.Lib.Run

/-!
# Shared directory watches

A `WatchManager` gives each directory one physical watch, shared by its subscribers. The watch of a directory that has
lost its last subscriber is unscheduled later, by the reaper, unless an equal one has been scheduled again by then.
-/

namespace SensorKit.Common

open Lib

/-! ## Observers -/

/-- What an observer is asked to watch; watches compare by path and recursion. -/
structure ObservedWatch where
  path : String
  recursive : Bool
deriving DecidableEq, Repr

/-- An observer keeps one emitter per watch until it is unscheduled, with the handlers attached to it. Scheduling an
equal watch again reuses the emitter; unscheduling a watch without one raises `KeyError`. -/
structure ObserverApi (O : Type) where
  start : O
  schedule : O → ℕ → ObservedWatch → O
  unschedule : O → ObservedWatch → Option O
  Scheduled : O → ObservedWatch → Prop
  Attached : O → ObservedWatch → ℕ → Prop
  not_scheduled_start : ∀ w, ¬ Scheduled start w
  scheduled_schedule : ∀ o h w w', Scheduled (schedule o h w) w' ↔ w' = w ∨ Scheduled o w'
  attached_schedule : ∀ o h w w' h', Attached (schedule o h w) w' h' ↔ w' = w ∧ h' = h ∨ Attached o w' h'
  unschedule_none : ∀ o w, unschedule o w = none ↔ ¬ Scheduled o w
  scheduled_unschedule : ∀ o w o', unschedule o w = some o' → ∀ w', Scheduled o' w' ↔ w' ≠ w ∧ Scheduled o w'
  attached_unschedule : ∀ o w o', unschedule o w = some o' → ∀ w' h, w' ≠ w → (Attached o' w' h ↔ Attached o w' h)

/-! ## The manager -/

/-- One physical watch. Its handler is known by a number. -/
structure DirWatch (S : Type) where
  handler : ℕ
  subscribers : List S
  observedWatch : ObservedWatch
  recursive : Bool
deriving DecidableEq, Repr

structure WatchManager (O S : Type) where
  observer : Option O := none
  watches : Dict String (DirWatch S) := .empty
  pending : List (String × ObservedWatch) := []
  /-- What the reaper has taken off the queue and not handled yet. -/
  taken : Option (String × ObservedWatch) := none
  handlers : ℕ := 0

inductive SubscribeError where
  /-- `ValueError`. -/
  | rejected (message : String)
  /-- The observer has raised, as for a directory that does not exist. -/
  | unscheduled
deriving DecidableEq, Repr

namespace WatchManager

variable {O S : Type} (api : ObserverApi O) [DecidableEq S] (m : WatchManager O S)

/-- Recursion is fixed by the first subscriber. -/
def subscribe (realDir : String) (subscriber : S) (recursive schedules : Bool) :
    WatchManager O S × Except SubscribeError Unit :=
  match m.watches.get? realDir with
  | none =>
    let observer := m.observer.getD api.start
    if schedules then
      let observedWatch : ObservedWatch := ⟨realDir, recursive⟩
      let watch := { handler := m.handlers, subscribers := [subscriber], observedWatch, recursive }
      ({ m with
         observer := some (api.schedule observer m.handlers observedWatch)
         watches := m.watches.insert realDir watch
         handlers := m.handlers + 1 }, .ok ())
    else ({ m with observer := some observer }, .error .unscheduled)
  | some watch =>
    if recursive && !watch.recursive then
      (m, .error (.rejected ("'" ++ realDir ++ "' is already watched non-recursively; it cannot also be " ++
        "watched recursively (one shared emitter per directory)")))
    else
      let watch := { watch with subscribers := watch.subscribers.insert subscriber }
      ({ m with watches := m.watches.insert realDir watch }, .ok ())

/-- Drop the subscriber, queueing the physical unschedule if it was the last one. -/
def unsubscribe (realDir : String) (subscriber : S) : WatchManager O S :=
  match m.watches.get? realDir with
  | none => m
  | some watch =>
    let subscribers := watch.subscribers.filter (· ≠ subscriber)
    if subscribers ≠ [] then { m with watches := m.watches.insert realDir { watch with subscribers } }
    else
      let m := { m with watches := m.watches.erase realDir }
      if m.observer.isNone then m else { m with pending := m.pending ++ [(realDir, watch.observedWatch)] }

/-- Unschedule the watch, unless an equal one has been added again. -/
def unscheduleLocked (realDir : String) (observedWatch : ObservedWatch) : WatchManager O S :=
  match m.observer with
  | none => m
  | some observer =>
    let live := m.watches.get? realDir
    if live.map (·.observedWatch) = some observedWatch then m
    else match api.unschedule observer observedWatch with
      | some observer => { m with observer := some observer }
      -- `KeyError`: already gone.
      | none => m

end WatchManager

inductive WatchLabel (S : Type) where
  | subscribe (realDir : String) (subscriber : S) (recursive schedules : Bool)
  | unsubscribe (realDir : String) (subscriber : S)
  /-- The reaper takes the next watch off the queue. -/
  | take
  /-- The reaper handles it, under the lock. -/
  | reap
deriving DecidableEq, Repr

namespace WatchManager

variable {O S : Type} (api : ObserverApi O) [DecidableEq S]

def step (m : WatchManager O S) : WatchLabel S → Option (WatchManager O S)
  | .subscribe realDir subscriber recursive schedules =>
    some (m.subscribe api realDir subscriber recursive schedules).1
  | .unsubscribe realDir subscriber => some (m.unsubscribe realDir subscriber)
  | .take =>
    match m.taken, m.pending with
    | none, item :: pending => some { m with pending, taken := some item }
    | _, _ => none
  | .reap => m.taken.map fun item => { m.unscheduleLocked api item.1 item.2 with taken := none }

/-- The emitter of the watch is scheduled. -/
def Scheduled (m : WatchManager O S) (w : ObservedWatch) : Prop :=
  ∃ observer, m.observer = some observer ∧ api.Scheduled observer w

/-- The handler is attached to the emitter. -/
def Attached (m : WatchManager O S) (w : ObservedWatch) (handler : ℕ) : Prop :=
  ∃ observer, m.observer = some observer ∧ api.Attached observer w handler

/-- The directory has subscribers, and is watched with that recursion. -/
def Subscribed (m : WatchManager O S) (w : ObservedWatch) : Prop :=
  ∃ watch, m.watches.get? w.path = some watch ∧ watch.subscribers ≠ [] ∧ watch.recursive = w.recursive

/-- The subscriber is subscribed to the directory. -/
def Member (m : WatchManager O S) (realDir : String) (subscriber : S) : Prop :=
  ∃ watch, m.watches.get? realDir = some watch ∧ subscriber ∈ watch.subscribers

/-- A subscribed directory is watched; and once the reaper has nothing left to do, nothing else is. A rejected
subscription changes nothing of it. -/
structure Watches (m : WatchManager O S) : Prop where
  joined : ∀ realDir subscriber recursive schedules m',
    m.subscribe api realDir subscriber recursive schedules = (m', .ok ()) →
      ∀ d x, m'.Member d x ↔ d = realDir ∧ x = subscriber ∨ m.Member d x
  left : ∀ realDir subscriber d x,
    (m.unsubscribe realDir subscriber).Member d x ↔ m.Member d x ∧ ¬ (d = realDir ∧ x = subscriber)
  watched : ∀ realDir watch, m.watches.get? realDir = some watch → watch.subscribers ≠ [] →
    m.Scheduled api ⟨realDir, watch.recursive⟩ ∧ m.Attached api ⟨realDir, watch.recursive⟩ watch.handler
  drained : m.pending = [] → m.taken = none → ∀ w, m.Scheduled api w ↔ m.Subscribed w
  rejected : ∀ realDir subscriber recursive schedules m' message,
    m.subscribe api realDir subscriber recursive schedules = (m', .error (.rejected message)) → m' = m
  failed : ∀ realDir subscriber recursive schedules m' e,
    m.subscribe api realDir subscriber recursive schedules = (m', .error e) →
      m'.watches = m.watches ∧ m'.pending = m.pending ∧ m'.taken = m.taken ∧
        ∀ w, m'.Scheduled api w ↔ m.Scheduled api w

end WatchManager

end SensorKit.Common
