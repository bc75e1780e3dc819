import Mathlib.Data.List.Basic

/-!
# A key of a linearizable store

Each write to a key has a revision of its own, greater than all before. A write or a deletion may require the revision
that it has last seen; deletions leave a marker. `Owned w r` says that the writer `w` was given the revision `r`: as
revisions only grow, it stays so, and a write that requires `r` only replaces what `w` has written itself.
-/

namespace SensorKit.Lib

variable {W V : Type*}

/-- What was last written to a key; a marker has no value. -/
structure KeyEntry (W V : Type*) where
  revision : ℕ
  writer : Option W
  value : Option V
deriving DecidableEq, Repr

/-- A key, with the last revision that the store has given out. -/
structure Key (W V : Type*) where
  latest : Option (KeyEntry W V)
  revision : ℕ
  bounded : ∀ e ∈ latest, e.revision ≤ revision

namespace Key

def empty : Key W V where
  latest := none
  revision := 0
  bounded := by simp

variable {k k' : Key W V} {w w' : W} {v : V} {r r' gap : ℕ}

/-- A new entry; the store may have given out revisions for other keys. -/
def put (k : Key W V) (w : Option W) (v : Option V) (gap : ℕ) : Key W V where
  latest := some ⟨k.revision + gap + 1, w, v⟩
  revision := k.revision + gap + 1
  bounded := by simp

/-- There is a value. -/
def Live (k : Key W V) : Prop :=
  ∃ e, k.latest = some e ∧ e.value.isSome = true

instance : Decidable k.Live :=
  match h : k.latest with
  | none => .isFalse (by simp [Live, h])
  | some e => decidable_of_iff (e.value.isSome = true) (by simp [Live, h])

/-- Create the key, unless it has a value. -/
def create (k : Key W V) (w : W) (v : V) (gap : ℕ) : Option (Key W V) :=
  if k.Live then none else some (k.put (some w) (some v) gap)

/-- Write a value over the revision that the writer has last seen. -/
def update (k : Key W V) (w : W) (v : V) (r gap : ℕ) : Option (Key W V) :=
  if k.latest.map (·.revision) = some r then some (k.put (some w) (some v) gap) else none

/-- Delete the value, of that revision if one is given. -/
def delete (k : Key W V) (w : W) (r : Option ℕ) (gap : ℕ) : Option (Key W V) :=
  if ∀ r' ∈ r, k.latest.map (·.revision) = some r' then some (k.put (some w) none gap) else none

/-- The value's time to live has passed; the store may leave a marker. -/
def expire (k : Key W V) (marker : Bool) (gap : ℕ) : Key W V :=
  if marker then k.put none none gap else { k with latest := none, bounded := by simp }

/-- The revision was given to the writer. -/
structure Owned (k : Key W V) (w : W) (r : ℕ) : Prop where
  issued : r ≤ k.revision
  own : ∀ e, k.latest = some e → e.revision = r → e.writer = some w

/-- What is owned stays so after any write. -/
theorem Owned.put (h : k.Owned w r) {w' : Option W} {v : Option V} : (k.put w' v gap).Owned w r := by
  refine ⟨?_, ?_⟩
  · show r ≤ k.revision + gap + 1
    have issued := h.issued
    omega
  · rintro e ⟨⟩ same
    have issued := h.issued
    dsimp only at same
    omega

theorem Owned.expire {marker : Bool} (h : k.Owned w r) : (k.expire marker gap).Owned w r := by
  unfold Key.expire
  split_ifs
  · exact h.put
  · exact ⟨h.issued, by simp⟩

/-- A writer owns what it has just written. -/
theorem owned_put {v : Option V} : (k.put (some w) v gap).Owned w (k.put (some w) v gap).revision := by
  refine ⟨Nat.le_refl _, ?_⟩
  rintro e ⟨⟩ -
  rfl

theorem create_eq_some (h : k.create w v gap = some k') : ¬ k.Live ∧ k' = k.put (some w) (some v) gap := by
  obtain ⟨free, ⟨⟩⟩ := Option.ite_none_left_eq_some.1 h
  exact ⟨free, rfl⟩

/-- An update that requires an owned revision replaces an own entry. -/
theorem update_eq_some (h : k.update w v r gap = some k') :
    k' = k.put (some w) (some v) gap ∧ ∀ e, k.latest = some e → e.revision = r := by
  obtain ⟨seen, ⟨⟩⟩ := Option.ite_none_right_eq_some.1 h
  refine ⟨rfl, ?_⟩
  intro e here
  rw [here] at seen
  exact Option.some.inj seen

theorem delete_eq_some {r : Option ℕ} (h : k.delete w r gap = some k') :
    k' = k.put (some w) none gap ∧ ∀ r' ∈ r, ∀ e, k.latest = some e → e.revision = r' := by
  obtain ⟨seen, ⟨⟩⟩ := Option.ite_none_right_eq_some.1 h
  refine ⟨rfl, ?_⟩
  intro r' required e here
  have same := seen r' required
  rw [here] at same
  exact Option.some.inj same

end Key

end SensorKit.Lib
