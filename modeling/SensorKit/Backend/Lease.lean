import Mathlib.Data.Rat.Defs
import SensorKit.Lib.Indexed
import SensorKit.Lib.KeyValue
import SensorKit.Lib.Run

/-!
# Leases

Services compete for a key of a linearizable store. Each request of a lease is sent, takes effect at the store at some
moment, and is answered; its caller may have given up by then. Between these moments the leases go on in any order.
-/

namespace SensorKit.Backend

open Lib

/-! ## Leases -/

/-- What is stored in the entry of an active lease. -/
structure LeaseModel (R : Type) where
  acquiredAt : ℚ
  refreshedAt : ℚ
  record : R
deriving DecidableEq, Repr

/-- The task that polls the key. -/
inductive Monitor where
  | waiting
  /-- The key is being read, by that request. -/
  | reading (request : ℕ)
  | done
deriving DecidableEq, Repr

structure Lease (R : Type) where
  ttl : ℚ
  revision : ℕ
  model : LeaseModel R
  expireCalled : Bool := false
  expired : Bool := false
  locked : Bool := false
  monitor : Monitor := .waiting
deriving DecidableEq, Repr

namespace Lease

variable {R : Type}

/-- The monitor ends, in whatever way: the lease is marked as expired. -/
def finish (lease : Lease R) : Lease R :=
  { lease with expired := true, monitor := .done }

/-- What the monitor does with an entry that it has read. `none` is `KeyNotFound`, which ends it too. -/
def handleRead (lease : Lease R) : Option (KeyEntry ℕ (LeaseModel R)) → Lease R
  | none => lease.finish
  -- `deleted()`: the entry is a marker.
  | some entry => if entry.value.isNone then lease.finish else { lease with monitor := .waiting }

/-- The model to be written, with the record if there is a new one. -/
def refreshed (lease : Lease R) (record : Option R) (now : ℚ) : Lease R :=
  { lease with model := { lease.model with record := record.getD lease.model.record, refreshedAt := now } }

end Lease

/-! ## Requests -/

inductive KeyRequest (R : Type) where
  | get
  | create (ttl : ℚ) (model : LeaseModel R)
  | update (model : LeaseModel R) (revision : ℕ)
  | delete (revision : Option ℕ)
deriving DecidableEq, Repr

inductive Reply (R : Type) where
  | read (entry : Option (KeyEntry ℕ (LeaseModel R)))
  | written (revision : ℕ)
  | deleted
  /-- `RevisionError`. -/
  | refused
deriving DecidableEq, Repr

/-- A request of a party, with its answer once it has taken effect. -/
structure Request (R : Type) where
  party : ℕ
  kind : KeyRequest R
  answer : Option (Reply R) := none
  awaited : Bool := true
deriving DecidableEq, Repr

/-- A call of `Lease.acquire`, and what has become of it. `enforce` is false where `SENSORKIT_NO_ENFORCE_LEASES` is
set. -/
inductive Party (R : Type) where
  | acquiring (enforce : Bool) (ttl : ℚ) (model : LeaseModel R)
  | unavailable
  | holding (lease : Lease R)
deriving DecidableEq, Repr

/-! ## The system -/

structure Leases (R : Type) where
  key : Key ℕ (LeaseModel R) := .empty
  parties : List (Party R) := []
  requests : List (Request R) := []

inductive LeaseLabel (R : Type) where
  | acquire (enforce : Bool) (ttl : ℚ) (now : ℚ) (record : R)
  | refresh (i : ℕ) (record : Option R) (now : ℚ)
  | expire (i : ℕ)
  /-- The monitor asks for the key. -/
  | poll (i : ℕ)
  /-- The monitor's own timeout, or an error of the backend. -/
  | abandon (i : ℕ)
  /-- The request takes effect. A read of a deleted key may find the marker. -/
  | effect (request : ℕ) (marker : Bool) (gap : ℕ)
  | handle (request : ℕ)
  /-- The caller stops waiting: a timeout, an error of the backend, or a cancellation. -/
  | giveUp (request : ℕ)
  /-- The time to live of the entry has passed at the server. -/
  | ttlExpires (marker : Bool) (gap : ℕ)
deriving DecidableEq, Repr

namespace Leases

variable {R : Type} (s : Leases R)

def send (party : ℕ) (kind : KeyRequest R) : Leases R :=
  { s with requests := s.requests ++ [{ party, kind }] }

def setParty (i : ℕ) (party : Party R) : Leases R :=
  { s with parties := s.parties.set i party }

def setRequest (c : ℕ) (request : Request R) : Leases R :=
  { s with requests := s.requests.set c request }

/-- The lease of a party that holds one. -/
def lease? (i : ℕ) : Option (Lease R) :=
  match s.parties[i]? with
  | some (.holding lease) => some lease
  | _ => none

/-- `acquire`: delete whatever is there if leases are not enforced, then create the entry. -/
def acquire (enforce : Bool) (ttl now : ℚ) (record : R) : Leases R :=
  let model : LeaseModel R := ⟨now, now, record⟩
  let joined := { s with parties := s.parties ++ [Party.acquiring enforce ttl model] }
  if enforce then joined.send s.parties.length (.create ttl model)
  else joined.send s.parties.length (.delete none)

/-- The request takes effect at the store. -/
def serve (c : ℕ) (request : Request R) (marker : Bool) (gap : ℕ) : Leases R :=
  let refused := s.setRequest c { request with answer := some .refused }
  match request.kind with
  | .get =>
    let entry := s.key.latest.filter fun entry => entry.value.isSome || marker
    s.setRequest c { request with answer := some (.read entry) }
  | .create _ model =>
    match s.key.create request.party model gap with
    | some key => { s with key }.setRequest c { request with answer := some (.written key.revision) }
    | none => refused
  | .update model revision =>
    match s.key.update request.party model revision gap with
    | some key => { s with key }.setRequest c { request with answer := some (.written key.revision) }
    | none => refused
  | .delete revision =>
    match s.key.delete request.party revision gap with
    | some key => { s with key }.setRequest c { request with answer := some .deleted }
    | none => refused

/-- The caller goes on with the answer. -/
def answered (c : ℕ) (request : Request R) (reply : Reply R) : Leases R :=
  let s := s.setRequest c { request with awaited := false }
  match request.kind, reply, s.parties[request.party]? with
  | .delete none, .deleted, some (.acquiring _ ttl model) => s.send request.party (.create ttl model)
  | .create .., .written revision, some (.acquiring enforce ttl model) =>
    -- Without enforcement the monitor returns at once.
    s.setParty request.party
      (.holding { ttl, revision, model, monitor := if enforce then .waiting else .done })
  | .create .., .refused, some (.acquiring ..) => s.setParty request.party .unavailable
  | .update .., .written revision, some (.holding lease) =>
    s.setParty request.party (.holding { lease with revision })
  | .delete (some _), .deleted, some (.holding lease) =>
    s.setParty request.party (.holding { lease.finish with locked := false })
  | .delete (some _), .refused, some (.holding lease) =>
    s.setParty request.party (.holding { lease with locked := false })
  | .get, .read entry, some (.holding lease) =>
    if lease.monitor = .reading c then s.setParty request.party (.holding (lease.handleRead entry)) else s
  | _, _, _ => s

/-- The caller goes on without an answer. -/
def unanswered (c : ℕ) (request : Request R) : Leases R :=
  let s := s.setRequest c { request with awaited := false }
  match request.kind, s.parties[request.party]? with
  | .get, some (.holding lease) =>
    if lease.monitor = .reading c then s.setParty request.party (.holding lease.finish) else s
  | .delete (some _), some (.holding lease) => s.setParty request.party (.holding { lease with locked := false })
  | _, some (.acquiring ..) => s.setParty request.party .unavailable
  | _, _ => s

def step (s : Leases R) : LeaseLabel R → Option (Leases R)
  | .acquire enforce ttl now record => some (s.acquire enforce ttl now record)
  | .refresh i record now => do
    let lease ← s.lease? i
    let lease := lease.refreshed record now
    return (s.setParty i (.holding lease)).send i (.update lease.model lease.revision)
  | .expire i => do
    let lease ← s.lease? i
    if lease.locked then none
    else if lease.expired then return s
    else
      let s := s.setParty i (.holding { lease with expireCalled := true, locked := true })
      return s.send i (.delete (some lease.revision))
  | .poll i => do
    let lease ← s.lease? i
    if lease.monitor = .waiting ∧ lease.expired = false then
      return (s.setParty i (.holding { lease with monitor := .reading s.requests.length })).send i .get
    else none
  | .abandon i => do
    let lease ← s.lease? i
    if lease.monitor = .done then none else return s.setParty i (.holding lease.finish)
  | .effect c marker gap => do
    let request ← s.requests[c]?
    if request.answer = none then return s.serve c request marker gap else none
  | .handle c => do
    let request ← s.requests[c]?
    let reply ← request.answer
    if request.awaited then return s.answered c request reply else none
  | .giveUp c => do
    let request ← s.requests[c]?
    if request.awaited then return s.unanswered c request else none
  | .ttlExpires marker gap => some { s with key := s.key.expire marker gap }

/-! ## What leases promise -/

/-- The entry was written by the lease, and has not been deleted. -/
def Own (i : ℕ) (entry : Option (KeyEntry ℕ (LeaseModel R))) : Prop :=
  ∃ e, entry = some e ∧ e.writer = some i ∧ e.value.isSome = true

/-- The read that the monitor of a party is about to handle, with what it shows. -/
def read? (c : ℕ) : Option (ℕ × Option (KeyEntry ℕ (LeaseModel R))) := do
  let request ← s.requests[c]?
  let lease ← s.lease? request.party
  match request.kind, request.answer with
  | .get, some (.read entry) =>
    if request.awaited ∧ lease.monitor = .reading c then return (request.party, entry) else none
  | _, _ => none

/-- A lease whose monitor has handled a read that shows no entry of its own is expired. -/
def NoticesLoss (s : Leases R) : LeaseLabel R → Prop
  | .handle c => ∀ i entry s', s.read? c = some (i, entry) → ¬ Own i entry → s.step (.handle c) = some s' →
      ∃ lease, s'.lease? i = some lease ∧ lease.expired = true
  | _ => True

/-- What a lease writes or deletes replaces no other holder's entry. -/
def Spares (s : Leases R) : LeaseLabel R → Prop
  | .effect c marker gap => ∀ request e s', s.requests[c]? = some request → request.kind ≠ .get →
      s.step (.effect c marker gap) = some s' → s'.key.latest ≠ s.key.latest → s.key.latest = some e →
      e.value.isSome = true → e.writer = some request.party
  | _ => True

/-- The read that the monitor handles shows no other holder's entry. -/
def SeesNoOther (s : Leases R) : LeaseLabel R → Prop
  | .handle c => ∀ r ∈ s.read? c, ∀ e ∈ r.2, e.value.isSome = true → e.writer = some r.1
  | _ => True

/-- No lease is acquired by force, where leases are not enforced, over another holder's entry. -/
def ForcesNone (s : Leases R) : LeaseLabel R → Prop
  | .effect c _ _ => ∀ request ∈ s.requests[c]?, request.kind = .delete none → request.answer = none →
      ∀ e ∈ s.key.latest, e.value.isSome = true → e.writer = some request.party
  | _ => True

instance (s : Leases R) (a : LeaseLabel R) : Decidable (s.SeesNoOther a) :=
  match a with
  | .handle c => inferInstanceAs (Decidable (∀ r ∈ s.read? c, ∀ e ∈ r.2, e.value.isSome = true → e.writer = some r.1))
  | .acquire .. | .refresh .. | .expire _ | .poll _ | .abandon _ | .effect .. | .giveUp _ | .ttlExpires .. =>
    inferInstanceAs (Decidable True)

instance [DecidableEq R] (s : Leases R) (a : LeaseLabel R) : Decidable (s.ForcesNone a) :=
  match a with
  | .effect c _ _ => inferInstanceAs (Decidable (∀ request ∈ s.requests[c]?, request.kind = .delete none →
      request.answer = none → ∀ e ∈ s.key.latest, e.value.isSome = true → e.writer = some request.party))
  | .acquire .. | .refresh .. | .expire _ | .poll _ | .abandon _ | .handle _ | .giveUp _ | .ttlExpires .. =>
    inferInstanceAs (Decidable True)

end Leases

end SensorKit.Backend
