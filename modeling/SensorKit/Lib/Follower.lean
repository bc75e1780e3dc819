import Mathlib.Data.List.Basic

/-!
# Followers of an ordered log

A follower queues what it receives. It drops what does not lie above a bound until it meets the first element that does,
and takes everything from there on. If what it receives is ordered, it takes just what lies above the bound.
-/

namespace SensorKit.Lib

variable {α : Type*}

structure Follower (α : Type*) where
  queue : List α := []
  taken : List α := []
  skipping : Bool := true
deriving DecidableEq, Repr

namespace Follower

def receive (f : Follower α) (e : α) : Follower α :=
  { f with queue := f.queue ++ [e] }

/-- Drop or take the head of the queue. -/
def next (key : α → ℕ) (bound : ℕ) (f : Follower α) : Option (Follower α) :=
  match f.queue with
  | [] => none
  | e :: rest =>
    if f.skipping = true ∧ key e ≤ bound then some { f with queue := rest }
    else some { queue := rest, taken := f.taken ++ [e], skipping := false }

/-- What has been received is what was dropped, then what was taken, then what is queued. -/
structure Tracks (key : α → ℕ) (bound : ℕ) (received : List α) (f : Follower α) : Prop where
  parts : ∃ dropped, received = dropped ++ (f.taken ++ f.queue) ∧ ∀ e ∈ dropped, key e ≤ bound
  above : ∀ e ∈ f.taken, bound < key e
  skips : f.skipping = true ↔ f.taken = []

variable {key : α → ℕ} {bound : ℕ} {received : List α} {f f' : Follower α} {e : α}

theorem tracks_start {queue : List α} : Tracks key bound queue { queue } :=
  ⟨⟨[], rfl, by simp⟩, by simp, by simp⟩

theorem Tracks.receive (h : Tracks key bound received f) : Tracks key bound (received ++ [e]) (f.receive e) := by
  obtain ⟨dropped, rfl, low⟩ := h.parts
  refine ⟨⟨dropped, ?_, low⟩, h.above, h.skips⟩
  unfold Follower.receive
  simp

/-- What a turn can do: drop the head, or take it. -/
theorem next_cases (h : f.next key bound = some f') : ∃ e rest, f.queue = e :: rest ∧
    (f.skipping = true ∧ key e ≤ bound ∧ f' = { f with queue := rest } ∨
      (f.skipping = true → bound < key e) ∧
        f' = { queue := rest, taken := f.taken ++ [e], skipping := false }) := by
  unfold next at h
  split at h
  · cases h
  · rename_i e rest queue
    refine ⟨e, rest, queue, ?_⟩
    split_ifs at h with skip
    · cases h
      exact .inl ⟨skip.1, skip.2, rfl⟩
    · cases h
      exact .inr ⟨fun skipping => Nat.not_le.1 fun low => skip ⟨skipping, low⟩, rfl⟩

theorem Tracks.next (h : Tracks key bound received f) (ordered : received.Pairwise fun a b => key a < key b)
    (turn : f.next key bound = some f') : Tracks key bound received f' := by
  obtain ⟨dropped, rfl, low⟩ := h.parts
  obtain ⟨e, rest, queue, ⟨skipping, small, rfl⟩ | ⟨first, rfl⟩⟩ := next_cases turn
  · have none : f.taken = [] := h.skips.1 skipping
    refine ⟨⟨dropped ++ [e], by simp [none, queue], ?_⟩, h.above, h.skips⟩
    intro x mem
    rcases List.mem_append.1 mem with mem | mem
    · exact low x mem
    · rw [List.mem_singleton.1 mem]
      exact small
  · refine ⟨⟨dropped, by simp [queue], low⟩, ?_, by simp⟩
    intro x mem
    rcases List.mem_append.1 mem with mem | mem
    · exact h.above x mem
    rw [List.mem_singleton.1 mem]
    cases taken : f.taken with
    | nil => exact first (h.skips.2 taken)
    | cons y ys =>
      -- The elements taken before lie above the bound, and this one above them.
      have later : key y < key e := by
        rw [taken, queue] at ordered
        have inner := (List.pairwise_append.1 ordered).2.1
        exact (List.pairwise_append.1 inner).2.2 y (by simp) e (by simp)
      exact Nat.lt_trans (h.above y (by simp [taken])) later

/-- **Everything above the bound is taken, in order, each once**: what has been taken comes first. -/
theorem Tracks.filter_eq (h : Tracks key bound received f) :
    received.filter (bound < key ·) = f.taken ++ f.queue.filter (bound < key ·) := by
  obtain ⟨dropped, rfl, low⟩ := h.parts
  have none : dropped.filter (bound < key ·) = [] := by
    simpa using low
  have all : f.taken.filter (bound < key ·) = f.taken := by
    simpa using h.above
  rw [List.filter_append, List.filter_append, none, all, List.nil_append]

theorem Tracks.mem (h : Tracks key bound received f) (taken : e ∈ f.taken) : e ∈ received := by
  obtain ⟨dropped, rfl, -⟩ := h.parts
  simp [taken]

end Follower

end SensorKit.Lib
