import SensorKit.Lib.Dict
import SensorKit.Lib.Indexed
import SensorKit.Lib.Run

/-!
# Live streams of the web service

Each forwarder keeps the records of its source in a cache, and puts every update into the queues of all subscribers. A
subscriber is sent the cached records that it selects and then its queue. A record is kept with the forwarder that it came
from, which a subscriber is not told.
-/

namespace SensorKit.Webapi

open Lib

variable {J : Type}

inductive RecordKind where
  | stream
  | event
  | state
  | product
deriving DecidableEq, Repr

/-- An `SKRecord`, with its subject as the text of its entity and its property. A deletion has no payload. -/
structure SKRecord (J : Type) where
  kind : RecordKind
  entity : String
  prop : String
  payload : Option J
deriving DecidableEq, Repr

/-- The forwarders of the service. There is one for each handler of data products. -/
inductive Forwarder where
  | keyValue
  | stream
  | product (handler : ℕ)
deriving DecidableEq, Repr

/-- The kind of the records that `_monitor` yields for a property. -/
def Forwarder.kind : Forwarder → String → RecordKind
  | keyValue, _ => .state
  | stream, prop => if prop = "$EVENT$" then .event else .stream
  | product _, _ => .product

/-- The record of an update. -/
def Forwarder.record (forwarder : Forwarder) (entity prop : String) (payload : Option J) : SKRecord J :=
  { kind := forwarder.kind prop, entity, prop, payload }

/-! ## The caches -/

/-- The cache of a forwarder: per entity and property. -/
abbrev Cache (J : Type) := Dict String (Dict String (SKRecord J))

namespace Cache

variable (cache : Cache J)

/-- How an update changes the records of its entity. -/
def updateAttrs (attrCache : Dict String (SKRecord J)) (update : SKRecord J) : Dict String (SKRecord J) :=
  match update.payload with
  | none => attrCache.erase update.prop
  | some _ => attrCache.insert update.prop update

/-- What `_run` does to the cache. An entity that has had an update keeps an entry, of no records if need be. -/
def update (update : SKRecord J) : Cache J :=
  let attrCache := (cache.get? update.entity).getD .empty
  cache.insert update.entity (updateAttrs attrCache update)

/-- `Forwarder.snapshot`. -/
def snapshot : Option String → List (SKRecord J)
  | none => cache.values.flatMap (·.values)
  | some entityId => ((cache.get? entityId).getD .empty).values

end Cache

structure WebAPIConfig where
  streamQueueSize : ℤ := 4096
  serveDataProducts : ℕ := 0
deriving DecidableEq, Repr

namespace WebAPIConfig

variable (config : WebAPIConfig)

def productForwarders : List Forwarder := (List.range config.serveDataProducts).map .product

/-- Every active forwarder. -/
def forwarders : List Forwarder := .keyValue :: .stream :: config.productForwarders

end WebAPIConfig

/-- The two endpoints that stream records. -/
inductive Subscription where
  | firehose
  | controllerProducts (controllerId : String)
deriving DecidableEq, Repr

namespace Subscription

def sources (config : WebAPIConfig) : Subscription → List Forwarder
  | firehose => config.forwarders
  | controllerProducts _ => config.productForwarders

/-- The `match` of the stream. -/
def Matches : Subscription → SKRecord J → Prop
  | firehose, _ => True
  | controllerProducts controllerId, record => record.kind = .product ∧ record.entity = controllerId

instance : (subscription : Subscription) → (record : SKRecord J) → Decidable (subscription.Matches record)
  | firehose, _ => inferInstanceAs (Decidable True)
  | controllerProducts controllerId, record =>
    inferInstanceAs (Decidable (record.kind = .product ∧ record.entity = controllerId))

/-- The matching records of `_snapshot`. -/
def snapshot (config : WebAPIConfig) (subscription : Subscription) (caches : Forwarder → Cache J) :
    List (Forwarder × SKRecord J) :=
  ((subscription.sources config).flatMap fun forwarder =>
    ((caches forwarder).snapshot none).map fun record => (forwarder, record)).filter fun entry => subscription.Matches entry.2

end Subscription

/-! ## Subscribers -/

inductive StreamState where
  | open
  | ended
  | disconnected
deriving DecidableEq, Repr

/-- A run of `_stream_records`: the records of the snapshot that it has yet to yield, its queue, and what it has yielded.
It is registered while its queue is in `client_queues`. A queue has the end marker `none`. -/
structure Subscriber (J : Type) where
  subscription : Subscription
  unsent : List (Forwarder × SKRecord J)
  queue : List (Option (Forwarder × SKRecord J)) := []
  received : List (Forwarder × SKRecord J) := []
  registered : Bool := true
  state : StreamState := .open
deriving DecidableEq, Repr

namespace Subscriber

variable (config : WebAPIConfig) (sub : Subscriber J)

/-- The queue is full. A size that is not positive is no limit. -/
def Full : Prop := 0 < config.streamQueueSize ∧ config.streamQueueSize ≤ sub.queue.length

instance : Decidable (sub.Full config) := inferInstanceAs (Decidable (_ ∧ _))

/-- A broadcast. A subscriber that has stopped draining is cut loose. -/
def broadcast (update : Forwarder × SKRecord J) : Subscriber J :=
  if sub.registered = true then
    if sub.Full config then { sub with registered := false, queue := [none] }
    else { sub with queue := sub.queue ++ [some update] }
  else sub

/-- The part of `shutdown` that gives up a record to make room for the end marker. -/
def shutdown : Subscriber J :=
  if sub.registered = true then
    if sub.Full config then { sub with queue := sub.queue.drop 1 ++ [none] }
    else { sub with queue := sub.queue ++ [none] }
  else sub

/-- The stream goes on: it yields the next record of the snapshot, or takes from its queue. -/
def next : Option (Subscriber J) :=
  match sub.state, sub.unsent, sub.queue with
  | .open, record :: unsent, _ => some { sub with unsent, received := sub.received ++ [record] }
  | .open, [], some record :: queue =>
    if sub.subscription.Matches record.2 then some { sub with queue, received := sub.received ++ [record] }
    else some { sub with queue }
  | .open, [], none :: queue => some { sub with queue, state := .ended, registered := false }
  | _, _, _ => none

/-- The client disconnects. -/
def disconnect : Option (Subscriber J) :=
  if sub.state = .open then some { sub with state := .disconnected, registered := false } else none

end Subscriber

/-! ## The service -/

structure WebAPI (J : Type) where
  caches : Forwarder → Cache J := fun _ => .empty
  subscribers : List (Subscriber J) := []

inductive StreamEvent (J : Type) where
  /-- A forwarder's monitor yields an update. -/
  | update (source : Forwarder) (entity prop : String) (payload : Option J)
  /-- A stream begins. -/
  | join (subscription : Subscription)
  | next (i : ℕ)
  | disconnect (i : ℕ)
  | shutdown
deriving DecidableEq, Repr

namespace WebAPI

variable (config : WebAPIConfig) (service : WebAPI J)

/-- An update reaches the cache and every queue in one step of the event loop. -/
def forward (update : Forwarder × SKRecord J) : WebAPI J where
  caches := Function.update service.caches update.1 ((service.caches update.1).update update.2)
  subscribers := service.subscribers.map fun sub => sub.broadcast config update

def step : StreamEvent J → Option (WebAPI J)
  | .update source entity prop payload =>
    if source ∈ config.forwarders then some (service.forward config (source, source.record entity prop payload)) else none
  | .join subscription =>
    some { service with
      subscribers := service.subscribers ++ [{ subscription, unsent := subscription.snapshot config service.caches }] }
  | .next i => do
    let sub ← service.subscribers[i]?
    let sub' ← sub.next
    some { service with subscribers := service.subscribers.set i sub' }
  | .disconnect i => do
    let sub ← service.subscribers[i]?
    let sub' ← sub.disconnect
    some { service with subscribers := service.subscribers.set i sub' }
  | .shutdown => some { service with subscribers := service.subscribers.map fun sub => sub.shutdown config }

end WebAPI

end SensorKit.Webapi
