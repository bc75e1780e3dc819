/-!
# A first-in-first-out lock

`asyncio.Lock` serves its waiters in the order in which they asked. Releasing it wakes the
first waiter; a task that asks for the lock before that waiter has run is queued behind it,
so the lock changes hands at the release.
-/

namespace SensorKit.Lib

/-- Who holds the lock and who waits for it, oldest first. -/
structure Lock (κ : Type) where
  holder : Option κ := none
  waiters : List κ := []
deriving DecidableEq, Repr

namespace Lock

variable {κ : Type} {l : Lock κ} {c d : κ}

/-- Take the free lock, or queue for it. -/
def acquire (l : Lock κ) (c : κ) : Lock κ :=
  match l.holder with
  | none => { l with holder := some c }
  | some _ => { l with waiters := l.waiters ++ [c] }

/-- Hand the lock to the first waiter, if there is one. -/
def release (l : Lock κ) : Lock κ :=
  match l.waiters with
  | [] => {}
  | c :: rest => ⟨some c, rest⟩

/-- Nobody waits for a free lock. -/
def WellFormed (l : Lock κ) : Prop :=
  l.holder = none → l.waiters = []

@[simp] theorem acquire_free (h : l.holder = none) : l.acquire c = { l with holder := some c } := by
  simp [acquire, h]

@[simp] theorem acquire_held (h : l.holder = some d) :
    l.acquire c = { l with waiters := l.waiters ++ [c] } := by
  simp [acquire, h]

end Lock

end SensorKit.Lib
