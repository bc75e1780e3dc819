import Mathlib.Data.List.FinRange
import Mathlib.Data.List.Sort
import Mathlib.Data.Prod.Lex
import SensorKit.Lib.IntervalTree

/-!
# Combining, stacking and stamping interval trees

`combine_interval_trees` sweeps over the endpoints of all its inputs and lists, between two successive ones, the data
of the inputs that are open there. `stack_interval_trees` lets later inputs replace what earlier ones have, and
`stamp_interval_trees` cuts a tree at the boundaries of another and merges the data of what lies within.
-/

namespace SensorKit.Common

open Lib

variable {τ α δ : Type} [LinearOrder τ]

/-- The inputs of `combine_interval_trees`: collections of intervals with the data of each. -/
abbrev Inputs (τ α : Type) := List (α × List (τ × τ))

/-- An endpoint of an interval of an input: where it is, whether it begins or ends there, and which input's it is. -/
structure SweepEvent (τ : Type) (n : ℕ) where
  point : τ
  rising : Bool
  input : Fin n

section Events

variable {n : ℕ}

/-- The open intervals' right endpoints and inputs, first ones first: a heap. -/
abbrev Endpoints (τ : Type) (n : ℕ) := List (τ × Fin n)

def Endpoints.push (endpoints : Endpoints τ n) (x : τ × Fin n) : Endpoints τ n :=
  endpoints.orderedInsert (fun a b => toLex a ≤ toLex b) x

def falling (endpoints : Endpoints τ n) : List (SweepEvent τ n) :=
  endpoints.map fun x => ⟨x.1, false, x.2⟩

/-- The events of the line sweep, from the open endpoints and the intervals still to come: their left endpoints,
inputs and right endpoints, in order. -/
def sweepEvents (endpoints : Endpoints τ n) : List (τ × Fin n × τ) → List (SweepEvent τ n)
  | [] => falling endpoints
  | (left, i, right) :: rest =>
    falling (endpoints.takeWhile (·.1 ≤ left)) ++
      ⟨left, true, i⟩ :: sweepEvents (Endpoints.push (endpoints.dropWhile (·.1 ≤ left)) (right, i)) rest

end Events

namespace Inputs

variable (inputs : Inputs τ α)

/-- `tagged_tree`, for each input, merged in order. -/
def tagged : List (τ × Fin inputs.length × τ) :=
  ((List.finRange inputs.length).flatMap fun i => inputs[i].2.map fun iv => (iv.1, i, iv.2)).mergeSort fun a b =>
    toLex (a.1, toLex (a.2.1, a.2.2)) ≤ toLex (b.1, toLex (b.2.1, b.2.2))

/-- The sweep's last endpoint, the data of the open intervals, and the tree. -/
structure Sweep (α : Type) (lib : IntervalTrees τ) where
  left : τ
  active : List α
  target : lib.Tree (List α)

variable [DecidableEq α] (lib : IntervalTrees τ)

/-- List what is open up to a point. -/
def Sweep.advance {lib : IntervalTrees τ} (s : Sweep α lib) (right : τ) : Sweep α lib :=
  { s with
    left := right
    target :=
      if h : s.active ≠ [] ∧ s.left < right then
        lib.add s.target ⟨s.left, right, (inputs.map Prod.fst).filter (· ∈ s.active), h.2⟩
      else s.target }

/-- One turn of the sweep. -/
def sweep (s : Sweep α lib) (event : SweepEvent τ inputs.length) : Sweep α lib :=
  let datum := inputs[event.input].1
  { Sweep.advance inputs s event.point with
    active := if event.rising then datum :: s.active else s.active.erase datum }

end Inputs

/-- `combine_interval_trees`, with an empty target. -/
def combineIntervalTrees [DecidableEq α] (lib : IntervalTrees τ) (inputs : Inputs τ α) : lib.Tree (List α) :=
  match sweepEvents [] inputs.tagged with
  | [] => lib.empty
  | event :: events => ((event :: events).foldl (inputs.sweep lib) ⟨event.point, [], lib.empty⟩).target

/-- `stack_interval_trees`: add each input interval collection, splitting existing intervals. -/
def stackIntervalTrees [DecidableEq δ] (lib : IntervalTrees τ) (inputs : List (δ × lib.Tree Unit)) : lib.Tree δ :=
  inputs.foldl (fun target input => (lib.intervals input.2).foldl (fun target iv =>
    lib.add (lib.chop target iv.begin iv.end) ⟨iv.begin, iv.end, input.1, iv.lt⟩) target) lib.empty

/-- A turn of `stamp_interval_trees`. -/
def stampInterval [DecidableEq δ] (lib : IntervalTrees τ) (merge : δ → α → δ) (target : lib.Tree δ)
    (iv : Interval τ α) : lib.Tree δ :=
  let target := if lib.overlapsPoint target iv.begin then lib.slice target iv.begin else target
  let target := if lib.overlapsPoint target iv.end then lib.slice target iv.end else target
  (lib.envelop target iv.begin iv.end).foldl (fun target enveloped =>
    lib.add (lib.remove target enveloped) ⟨enveloped.begin, enveloped.end, merge enveloped.data iv.data, enveloped.lt⟩)
    target

/-- `stamp_interval_trees`: slice the target on stamp interval boundaries and merge overlapping data. -/
def stampIntervalTrees [DecidableEq δ] (lib : IntervalTrees τ) (target : lib.Tree δ) (stamp : lib.Tree α)
    (merge : δ → α → δ) : lib.Tree δ :=
  (lib.intervals stamp).foldl (stampInterval lib merge) target

end SensorKit.Common
