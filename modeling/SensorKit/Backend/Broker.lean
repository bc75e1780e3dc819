import SensorKit.Lib.Indexed
import SensorKit.Lib.PrefixMap
import SensorKit.Lib.Run

/-!
# The in-memory broker

A trie holds an element for each key that has been touched: published to, or subscribed at. An element has the history of
its key and the queues of its subscribers: those of the key itself, of its children and of its descendants. A subscription
is known by the number of its queue.
-/

namespace SensorKit.Backend

open Lib

variable {S V : Type}

/-- The sets of queues of an element. -/
inductive QueueSet where
  | direct
  | shallowWildcard
  | deepWildcard
deriving DecidableEq, Repr

/-- Storage node for a single key, holding value history and subscriber queues. -/
structure FakeBrokerElement (S V : Type) where
  key : List S
  history : List V := []
  direct : List ℕ := []
  shallowWildcard : List ℕ := []
  deepWildcard : List ℕ := []
deriving DecidableEq, Repr

namespace FakeBrokerElement

variable (elem : FakeBrokerElement S V)

def queues : QueueSet → List ℕ
  | .direct => elem.direct
  | .shallowWildcard => elem.shallowWildcard
  | .deepWildcard => elem.deepWildcard

def update (change : List ℕ → List ℕ) : QueueSet → FakeBrokerElement S V
  | .direct => { elem with direct := change elem.direct }
  | .shallowWildcard => { elem with shallowWildcard := change elem.shallowWildcard }
  | .deepWildcard => { elem with deepWildcard := change elem.deepWildcard }

end FakeBrokerElement

/-- What `_observe` holds: a queue, and the set that it was added to. -/
structure Subscription (S V : Type) where
  queueSet : QueueSet
  key : List S
  queue : List (List S × V) := []
  closed : Bool := false
deriving DecidableEq, Repr

def Subscription.put (subscription : Subscription S V) (data : List S × V) : Subscription S V :=
  { subscription with queue := subscription.queue ++ [data] }

/-- In-memory pub/sub broker with hierarchical subscription support. -/
structure FakeBroker (lib : PrefixMaps S) (V : Type) where
  trie : lib.Map (FakeBrokerElement S V) := lib.empty
  subscriptions : List (Subscription S V) := []

namespace FakeBroker

variable {lib : PrefixMaps S} (broker : FakeBroker lib V)

def setElement (key : List S) (elem : FakeBrokerElement S V) : FakeBroker lib V :=
  { broker with trie := lib.set broker.trie key elem }

/-- The element for a key, created if it does not yet exist. -/
def element (key : List S) : FakeBroker lib V × FakeBrokerElement S V :=
  match lib.get? broker.trie key with
  | some elem => (broker, elem)
  | none => (broker.setElement key { key }, { key })

/-- The immediate child keys of a key. -/
def childrenOf (key : List S) : List (List S) :=
  (lib.nodes broker.trie key).filterMap fun node => if node.2.isSome then some node.1 else none

/-- All descendant keys of a key. -/
def descendantsOf [DecidableEq S] (key : List S) : List (List S) :=
  (lib.keysFrom broker.trie key).filter (· ≠ key)

/-- `subscribe`, `subscribe_children` and `subscribe_descendants` of the element of a key. -/
def subscribe (queueSet : QueueSet) (key : List S) : FakeBroker lib V :=
  let (broker, elem) := broker.element key
  { broker.setElement key (elem.update (· ++ [broker.subscriptions.length]) queueSet) with
    subscriptions := broker.subscriptions ++ [{ queueSet, key }] }

/-- The end of `_observe`. -/
def discard (i : ℕ) : FakeBroker lib V :=
  match broker.subscriptions[i]? with
  | none => broker
  | some subscription =>
    let (broker, elem) := broker.element subscription.key
    { broker.setElement subscription.key (elem.update (·.filter (· ≠ i)) subscription.queueSet) with
      subscriptions := broker.subscriptions.set i { subscription with closed := true } }

/-- `put_nowait` of the data to each of the queues. -/
def put (data : List S × V) (queues : List ℕ) : FakeBroker lib V :=
  { broker with subscriptions := queues.foldl (fun all i => all.modify i (·.put data)) broker.subscriptions }

/-- Append value to history and notify direct subscribers. -/
def directSet (elem : FakeBrokerElement S V) (value : V) : FakeBroker lib V :=
  (broker.setElement elem.key { elem with history := elem.history ++ [value] }).put (elem.key, value) elem.direct

/-- Notify wildcard subscribers of a descendant value update. -/
def descendantSet (elem : FakeBrokerElement S V) (value : V) (immediate : Bool) : FakeBroker lib V :=
  let broker := if immediate then broker.put (elem.key, value) elem.shallowWildcard else broker
  broker.put (elem.key, value) elem.deepWildcard

/-- Notify the elements at the proper prefixes of a key: the last one handles shallow wildcards. -/
def propagate (ancestors : List (FakeBrokerElement S V)) (value : V) : FakeBroker lib V :=
  let broker := match ancestors.getLast? with
    | some parent => broker.descendantSet parent value true
    | none => broker
  ancestors.dropLast.reverse.foldl (fun broker ancestor => broker.descendantSet ancestor value false) broker

/-- Publish a value to a key, notifying all direct and ancestor wildcard subscribers. -/
def publish [DecidableEq S] (key : List S) (value : V) : Option (FakeBroker lib V) := do
  let (broker, elem) := broker.element key
  let broker := broker.directSet elem value
  let ancestors := lib.prefixes broker.trie key
  -- `ancestors.pop()` and the assertion that this is the element.
  let last ← ancestors.getLast?
  guard (last.key = elem.key)
  return broker.propagate ancestors.dropLast value

/-- The history of a key's element, if it has one. -/
def history (key : List S) : List V :=
  match lib.get? broker.trie key with
  | some elem => elem.history
  | none => []

/-- The key has at least one history entry. -/
def defined (key : List S) : Bool :=
  0 < (broker.history key).length

end FakeBroker

/-- What is called on a broker and its elements. -/
inductive BrokerCall (S V : Type) where
  | element (key : List S)
  | subscribe (queueSet : QueueSet) (key : List S)
  | discard (i : ℕ)
  | publish (key : List S) (value : V)
deriving DecidableEq, Repr

def FakeBroker.step [DecidableEq S] {lib : PrefixMaps S} (broker : FakeBroker lib V) :
    BrokerCall S V → Option (FakeBroker lib V)
  | .element key => some (broker.element key).1
  | .subscribe queueSet key => some (broker.subscribe queueSet key)
  | .discard i => some (broker.discard i)
  | .publish key value => broker.publish key value

end SensorKit.Backend
