import Mathlib.Data.List.Basic

/-!
# Observed values

An `AsyncObserver` keeps a current value, and queues each new one for its subscriber. A full queue loses its oldest
value; so what is queued last is the current value.
-/

namespace SensorKit.Common

/-- `DEFAULT_MAXSIZE`. -/
def defaultMaxsize : ℕ := 1024

/-- An observer with the queue of its subscriber, if there is one. -/
structure AsyncObserver (α : Type) where
  value : α
  queue : Option (List α) := none
deriving DecidableEq, Repr

namespace AsyncObserver

variable {α : Type} {v item : α} {o o' : AsyncObserver α} {q : List α}

/-- The queue after another value, of which `drop_oldest` makes room. -/
def put (q : List α) (v : α) : List α :=
  if q.length < defaultMaxsize then q ++ [v] else q.tail ++ [v]

def notify (o : AsyncObserver α) (v : α) : AsyncObserver α where
  value := v
  queue := o.queue.map (put · v)

/-- Begin to `consume`, from the current value on. -/
def consume (o : AsyncObserver α) : AsyncObserver α :=
  { o with queue := some [o.value] }

/-- The next value of the subscriber's iteration. -/
def take (o : AsyncObserver α) : Option (α × AsyncObserver α) :=
  match o.queue with
  | some (item :: rest) => some (item, { o with queue := some rest })
  | _ => none

/-- The values that wait for the subscriber. -/
def queued (o : AsyncObserver α) : List α :=
  o.queue.getD []

theorem put_eq : put q v = (if q.length < defaultMaxsize then q else q.tail) ++ [v] := by
  unfold put
  split_ifs <;> rfl

theorem queued_notify (open_ : o.queue.isSome = true) : (o.notify v).queued = put o.queued v := by
  obtain ⟨q, here⟩ := Option.isSome_iff_exists.1 open_
  simp [queued, notify, here]

theorem isSome_notify : (o.notify v).queue.isSome = o.queue.isSome := by
  simp [notify]

theorem mem_put : v ∈ put q v := by
  rw [put_eq]
  simp

/-- What is not the oldest value stays queued. -/
theorem mem_put_of_tail (mem : item ∈ q.tail) : item ∈ put q v := by
  rw [put_eq]
  split_ifs
  · simp [List.mem_of_mem_tail mem]
  · simp [mem]

theorem mem_put_of_room (room : q.length < defaultMaxsize) (mem : item ∈ q) : item ∈ put q v := by
  unfold put
  simp [room, mem]

theorem take_eq_some (h : o.take = some (item, o')) :
    o.queued = item :: o'.queued ∧ o'.value = o.value ∧ o.queue.isSome = true ∧ o'.queue.isSome = true := by
  unfold take at h
  split at h
  · rename_i first rest here
    cases h
    simp [queued, here]
  · cases h

/-- The value queued last is the current one. -/
def Latest (o : AsyncObserver α) : Prop :=
  o.queued ≠ [] → o.queued.getLast? = some o.value

theorem latest_notify : (o.notify v).Latest := by
  intro _
  cases here : o.queue with
  | none => simp_all [queued, notify]
  | some q => simp [queued, notify, here, put_eq]

theorem latest_consume : o.consume.Latest := by
  intro _
  rfl

theorem Latest.take (h : o.Latest) (taken : o.take = some (item, o')) : o'.Latest := by
  obtain ⟨queued, value, -⟩ := take_eq_some taken
  intro more
  have last := h (by simp [queued])
  rw [queued, List.getLast?_cons_of_ne_nil more] at last
  rw [last, value]

end AsyncObserver

end SensorKit.Common
