import Mathlib.Data.List.Induction
import Mathlib.Logic.Function.Basic
import Mathlib.Tactic.SplitIfs

/-!
# Replicas of a keyed store

A store is written and deleted key by key. A replica starts from a listing of what a part of the store holds, and
applies each later write to that part: it then holds what the store holds there.
-/

namespace SensorKit.Lib

variable {κ ν : Type*} [DecidableEq κ]

/-- Apply writes in their order; a write of nothing deletes. -/
def replay (store : κ → Option ν) (writes : List (κ × Option ν)) : κ → Option ν :=
  writes.foldl (fun store write => Function.update store write.1 write.2) store

/-- The part of a store that has the selected keys. -/
def restrict (selects : κ → Bool) (store : κ → Option ν) : κ → Option ν :=
  fun k => if selects k then store k else none

variable {store : κ → Option ν} {writes writes' : List (κ × Option ν)} {write : κ × Option ν} {selects : κ → Bool}
  {k : κ} {v : ν}

omit [DecidableEq κ] in
theorem restrict_eq_some : restrict selects store k = some v ↔ selects k = true ∧ store k = some v := by
  unfold restrict
  split_ifs with selected
  · exact ⟨fun held => ⟨selected, held⟩, fun held => held.2⟩
  · exact iff_of_false (fun held => by cases held) fun held => selected held.1

@[simp] theorem replay_nil : replay store [] = store := rfl

theorem replay_append : replay store (writes ++ writes') = replay (replay store writes) writes' :=
  List.foldl_append

theorem replay_snoc : replay store (writes ++ [write]) = Function.update (replay store writes) write.1 write.2 :=
  replay_append

/-- What an initially empty store holds has been written. -/
theorem mem_of_replay (h : replay (fun _ => none) writes k = some v) : (k, some v) ∈ writes := by
  induction writes using List.reverseRecOn with
  | nil => cases h
  | append_singleton writes write ih =>
    rw [replay_snoc, Function.update_apply] at h
    split_ifs at h with same
    · rw [same, ← h]
      exact List.mem_append_right _ (List.mem_singleton.2 rfl)
    · exact List.mem_append_left _ (ih h)

/-- **Replicas.** The selected writes keep the selected part of a store. -/
theorem replay_restrict : replay (restrict selects store) (writes.filter fun write => selects write.1) =
    restrict selects (replay store writes) := by
  induction writes using List.reverseRecOn with
  | nil => rfl
  | append_singleton writes write ih =>
    rw [List.filter_append, replay_append, ih, replay_snoc]
    funext k
    by_cases selected : selects write.1
    · have kept : [write].filter (fun write => selects write.1) = [write] := List.filter_cons_of_pos selected
      rw [kept, replay, List.foldl_cons, List.foldl_nil]
      unfold restrict
      rw [Function.update_apply, Function.update_apply]
      by_cases same : k = write.1
      · rw [if_pos same, if_pos same, same, if_pos selected]
      · rw [if_neg same, if_neg same]
    · have left : [write].filter (fun write => selects write.1) = [] := List.filter_cons_of_neg selected
      rw [left, replay_nil]
      unfold restrict
      rw [Function.update_apply]
      by_cases same : k = write.1
      · rw [same, if_neg selected, if_neg selected]
      · rw [if_neg same]

/-- **Listings.** A listing of what a store holds replays to it, whatever its order is. -/
theorem replay_listing {listing : List (κ × ν)} (lists : ∀ k v, (k, v) ∈ listing ↔ store k = some v) :
    replay (fun _ => none) (listing.map fun entry => (entry.1, some entry.2)) = store := by
  have only {part : List (κ × ν)} (holds : ∀ entry ∈ part, store entry.1 = some entry.2) (k : κ) :
      replay (fun _ => none) (part.map fun entry => (entry.1, some entry.2)) k =
        if k ∈ part.map Prod.fst then store k else none := by
    induction part using List.reverseRecOn with
    | nil => rfl
    | append_singleton part entry ih =>
      have step : k ∈ (part ++ [entry]).map Prod.fst ↔ k ∈ part.map Prod.fst ∨ k = entry.1 := by simp
      rw [List.map_append, List.map_singleton, replay_snoc, Function.update_apply]
      by_cases same : k = entry.1
      · rw [if_pos same, if_pos (step.2 (.inr same)), same]
        exact (holds entry (by simp)).symm
      · rw [if_neg same, ih fun entry mem => holds entry (List.mem_append_left _ mem)]
        exact if_congr (by rw [step, or_iff_left same]) rfl rfl
  funext k
  rw [only (fun entry mem => (lists _ _).1 mem)]
  split_ifs with here
  · rfl
  · cases held : store k with
    | none => rfl
    | some v => exact absurd (List.mem_map.2 ⟨(k, v), (lists k v).2 held, rfl⟩) here

end SensorKit.Lib
