import Mathlib.Tactic.Linarith
import SensorKit.Lib.Latch

/-!
# Conditions on value streams

A condition is evaluated against each value of a stream, with the value before it and the active state that its last
evaluation has returned. Threshold conditions read values as numbers. A value that is no number is not active, and the
hysteresis starts anew from it.
-/

namespace SensorKit.Common

open Lib

variable {V : Type}

/-- `evaluate` of a condition: what it returns for the current value, the previous one and the active state. The first
component asks for a notification, the second is the new active state. -/
abbrev Evaluate (V : Type) := V → V → Bool → Bool × Bool

section Thresholds

-- `float(value)`, or nothing where this raises a `TypeError` or a `ValueError`.
variable (float : V → Option ℚ)

/-- The edge conditions: notify where the value goes beyond the threshold, but not again as long as the values hold. -/
def evaluateEdge (beyond holds : ℚ → Bool) : Evaluate V := fun current previous wasActive =>
  match float current, float previous with
  | some v, some p =>
    if wasActive then (false, holds v)
    else (beyond v && !beyond p, beyond v && !beyond p)
  | _, _ => (false, false)

variable (threshold deadband : ℚ)

end Thresholds

/-! ## Streams -/

/-- What the caller of a condition keeps between values. -/
structure Watch (V : Type) where
  previous : V
  active : Bool := false
deriving DecidableEq, Repr

/-- Evaluate a condition against the next value. -/
def Watch.next (evaluate : Evaluate V) (watch : Watch V) (current : V) : Watch V :=
  { previous := current, active := (evaluate current watch.previous watch.active).2 }

/-- The state after a stream. -/
def Watch.after (evaluate : Evaluate V) (first : V) (values : List V) : Watch V :=
  values.foldl (Watch.next evaluate) { previous := first }

section Streams

variable {evaluate : Evaluate V} {float : V → Option ℚ} {beyond holds : ℚ → Bool} {first current : V} {values : List V}

/-- The value is a number with the property. -/
def Reads (float : V → Option ℚ) (test : ℚ → Bool) (value : V) : Bool :=
  (float value).any test

theorem after_snoc : Watch.after evaluate first (values ++ [current]) =
    (Watch.after evaluate first values).next evaluate current := by
  unfold Watch.after
  rw [List.foldl_append, List.foldl_cons, List.foldl_nil]

/-- What an edge condition keeps while it is active. -/
def Holding (float : V → Option ℚ) (watch : Watch V) : Prop :=
  watch.active = true ∧ (float watch.previous).isSome = true

theorem Holding.next {watch : Watch V} (h : Holding float watch) (held : Reads float holds current = true) :
    Holding float (watch.next (evaluateEdge float beyond holds) current) := by
  obtain ⟨active, number⟩ := h
  obtain ⟨v, reads, test⟩ := (Option.any_eq_true _ _).1 held
  obtain ⟨p, before⟩ := Option.isSome_iff_exists.1 number
  unfold Holding Watch.next evaluateEdge
  simp [reads, before, active, test]

theorem Holding.silent {watch : Watch V} (h : Holding float watch) :
    (evaluateEdge float beyond holds current watch.previous watch.active).1 = false := by
  obtain ⟨active, number⟩ := h
  obtain ⟨p, before⟩ := Option.isSome_iff_exists.1 number
  unfold evaluateEdge
  rw [before, active]
  cases float current <;> rfl

end Streams

/-! ## Hysteresis -/

section Hysteresis

variable {float : V → Option ℚ} {threshold deadband : ℚ} {first current again : V} {values mid : List V} {x : ℚ}

theorem reads_iff {test : ℚ → Prop} [DecidablePred test] {value : V} :
    Reads float (fun v => test v) value = true ↔ ∃ v, float value = some v ∧ test v := by
  simp [Reads, Option.any_eq_true]

end Hysteresis

end SensorKit.Common
