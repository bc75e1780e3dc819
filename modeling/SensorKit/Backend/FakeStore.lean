import Mathlib.Algebra.Order.Ring.Rat
import SensorKit.Backend.BrokerDelivery

/-!
# The in-memory store

The keys of a `FakeBackendImpl` have their entries in the histories of a broker. All writes go through `_kv_do_update`,
which checks the revision that a write requires and gives the entry the next one. An entry with a time to live is deleted by
a task of its own, which may run at any time after.
-/

namespace SensorKit.Backend

open Lib

variable {S P : Type}

/-- A single key-value store entry. A delete marker has no value. -/
structure KVEntry (S P : Type) where
  key : List S
  value : Option P
  revision : ℤ
deriving DecidableEq, Repr

def KVEntry.deleted (entry : KVEntry S P) : Bool := entry.value.isNone

inductive StoreError where
  /-- `RevisionError`. -/
  | revision
  /-- `IndexError`, of `history[-1]`. -/
  | index
  /-- The assertion of the broker's `publish`. -/
  | assertion
deriving DecidableEq, Repr

/-- What the backend keeps for its keys: the times to live that they were created with, and for each task that is to delete
an entry, the revision which it requires. -/
structure FakeStore (lib : PrefixMaps S) (P : Type) where
  kv : FakeBroker lib (KVEntry S P) := {}
  ttls : Dict (List S) (Option ℚ) := .empty
  expirers : Dict (List S) ℤ := .empty

namespace FakeStore

variable {lib : PrefixMaps S} (store : FakeStore lib P)

/-- `history[-1]` of a defined key. -/
def latest (key : List S) : Option (KVEntry S P) :=
  (store.kv.history key).getLast?

def definedNotDeleted (key : List S) : Bool :=
  (store.latest key).any fun entry => !entry.deleted

variable [DecidableEq S]

/-- The end of `_kv_do_update`. `ttl` is `NOT_SET`, or what is given. -/
def write (key : List S) (payload : Option P) (revision : ℤ) (ttl : Option (Option ℚ)) :
    Except StoreError (FakeStore lib P × KVEntry S P) :=
  let ttls := match ttl with
    | none => store.ttls
    | some ttl => store.ttls.insert key ttl
  let ttl := match ttl with
    | none => (store.ttls.get? key).join
    | some ttl => ttl
  -- The old expirer is cancelled.
  let expirers := store.expirers.erase key
  let expirers := if ttl.any (· ≠ 0) && payload.isSome then expirers.insert key revision else expirers
  let entry := { key, value := payload, revision }
  match store.kv.publish key entry with
  | some kv => .ok ({ kv, ttls, expirers }, entry)
  | none => .error .assertion

def doUpdate (key : List S) (payload : Option P) (revision : Option ℤ) (ttl : Option (Option ℚ)) :
    Except StoreError (FakeStore lib P × KVEntry S P) :=
  match revision, store.latest key with
  | none, _ => store.write key payload (0 + 1) ttl
  | some revision, some entry =>
    if revision ≠ entry.revision then .error .revision
    else store.write key payload (revision + 1) ttl
  | some revision, none => store.write key payload (revision + 1) ttl

def create (key : List S) (payload : P) (ttl : Option ℚ) : Except StoreError (FakeStore lib P × KVEntry S P) :=
  match store.doUpdate key (some payload) (some 0) (some ttl) with
  | .error .revision =>
    match store.latest key with
    | some entry =>
      if entry.deleted then store.doUpdate key (some payload) (some entry.revision) (some ttl)
      else .error .revision
    | none => .error .index
  | result => result

def update (key : List S) (payload : P) (revision : Option ℤ) : Except StoreError (FakeStore lib P × KVEntry S P) :=
  store.doUpdate key (some payload) revision none

def delete (key : List S) (revision : Option ℤ) : Except StoreError (FakeStore lib P) :=
  if store.definedNotDeleted key then (store.doUpdate key none revision none).map Prod.fst
  else .ok store

/-- `history[-1]` of an element. -/
def newest (key : List S) : Except StoreError (KVEntry S P) :=
  match store.latest key with
  | some entry => .ok entry
  | none => .error .index

/-- What a monitor first yields. -/
def firstBatch (queueSet : QueueSet) (path : List S) : Except StoreError (List (KVEntry S P)) :=
  match queueSet with
  | .direct => .ok (store.latest path).toList
  | .shallowWildcard => (store.kv.childrenOf path).mapM store.newest
  | .deepWildcard => (store.kv.descendantsOf path).mapM store.newest

/-- Monitor a key (`direct`), all properties of an entity, or all its descendants. -/
def monitor (queueSet : QueueSet) (path : List S) : FakeStore lib P × Except StoreError (List (KVEntry S P)) :=
  let store := { store with kv := (store.kv.element path).1 }
  match store.firstBatch queueSet path with
  | .ok batch => ({ store with kv := store.kv.subscribe queueSet path }, .ok batch)
  | .error error => (store, .error error)

/-- A task ends the time to live of an entry. -/
def expire (key : List S) : Option (Except StoreError (FakeStore lib P)) :=
  (store.expirers.get? key).map fun revision =>
    { store with expirers := store.expirers.erase key }.delete key (some revision)

end FakeStore

inductive StoreCall (S P : Type) where
  | create (key : List S) (payload : P) (ttl : Option ℚ)
  | update (key : List S) (payload : P) (revision : Option ℤ)
  | delete (key : List S) (revision : Option ℤ)
  | monitor (queueSet : QueueSet) (path : List S)
  /-- A monitor is closed, by the number of its queue. -/
  | close (i : ℕ)
  | expire (key : List S)
deriving DecidableEq, Repr

/-- A call that raises leaves the store as it is, but for an element that a monitor has touched. -/
def FakeStore.step [DecidableEq S] {lib : PrefixMaps S} (store : FakeStore lib P) :
    StoreCall S P → Option (FakeStore lib P)
  | .create key payload ttl => some ((store.create key payload ttl).toOption.elim store Prod.fst)
  | .update key payload revision => some ((store.update key payload revision).toOption.elim store Prod.fst)
  | .delete key revision => some ((store.delete key revision).toOption.getD store)
  | .monitor queueSet path => some (store.monitor queueSet path).1
  | .close i => some { store with kv := store.kv.discard i }
  | .expire key => (store.expire key).map (·.toOption.getD { store with expirers := store.expirers.erase key })

end SensorKit.Backend
