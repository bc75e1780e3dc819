import Mathlib.Data.List.Nodup
import Mathlib.Logic.Relation

/-!
# Breadth-first order

Walks from a node of a graph are taken from a queue: a node that is taken enqueues those that follow it, whether they have
been taken before or not. The order in which nodes are taken is determined; it ends only in a tree.
-/

namespace SensorKit.Lib

variable {α : Type*} {next : α → List α} {start x : α} {taken taken' queue : List α}

/-- An initial part of the breadth-first order of the walks from a node. -/
inductive Walked (next : α → List α) (start : α) : List α → Prop where
  | nil : Walked next start []
  | snoc {taken : List α} {x : α} (walked : Walked next start taken)
      (follows : taken ++ [x] <+: start :: taken.flatMap next) : Walked next start (taken ++ [x])

theorem Walked.init (walked : Walked next start (taken ++ [x])) : Walked next start taken := by
  generalize whole : taken ++ [x] = all at walked
  cases walked with
  | nil => simp at whole
  | snoc walked follows =>
    rw [(List.append_inj' whole rfl).1]
    exact walked

theorem Walked.take (walked : Walked next start taken) (pending : start :: taken.flatMap next = taken ++ x :: queue) :
    Walked next start (taken ++ [x]) ∧
      start :: (taken ++ [x]).flatMap next = (taken ++ [x]) ++ (queue ++ next x) := by
  constructor
  · refine .snoc walked ?_
    rw [pending]
    exact ⟨queue, by simp⟩
  · rw [List.flatMap_append, ← List.cons_append, pending]
    simp

/-- The order is determined. -/
theorem Walked.prefix_of_length_le (walked : Walked next start taken) (walked' : Walked next start taken')
    (le : taken.length ≤ taken'.length) : taken <+: taken' := by
  induction walked' generalizing taken with
  | nil =>
    have nothing : taken = [] := List.eq_nil_of_length_eq_zero (Nat.le_zero.1 le)
    exact nothing ▸ List.prefix_rfl
  | @snoc init x walked' follows' ih =>
    rcases Nat.lt_or_ge init.length taken.length with full | short
    · cases walked with
      | nil => simp at full
      | @snoc init' x' walked follows =>
        simp only [List.length_append, List.length_singleton] at full le
        have same : init' = init :=
          (ih walked (by omega)).eq_of_length_le (by omega)
        subst same
        have lengths : (init' ++ [x']).length = (init' ++ [x]).length := by simp
        have same := (List.prefix_of_prefix_length_le follows follows' (Nat.le_of_eq lengths)).eq_of_length lengths
        exact same ▸ List.prefix_rfl
    · exact (ih walked short).trans (List.prefix_append _ _)

/-- What is taken is reached. -/
theorem Walked.reached (walked : Walked next start taken) (mem : x ∈ taken) :
    Relation.ReflTransGen (fun a b => b ∈ next a) start x := by
  induction walked generalizing x with
  | nil => cases mem
  | @snoc init last walked follows ih =>
    rcases List.mem_append.1 mem with mem | mem
    · exact ih mem
    · rcases List.mem_cons.1 (follows.subset (List.mem_append_right _ mem)) with rfl | enqueued
      · exact .refl
      · obtain ⟨before, here, follows⟩ := List.mem_flatMap.1 enqueued
        exact .tail (ih here) follows

/-- Where the queue is empty, all that is reached has been taken. -/
theorem mem_of_reached (ended : start :: taken.flatMap next = taken)
    (path : Relation.ReflTransGen (fun a b => b ∈ next a) start x) : x ∈ taken := by
  induction path with
  | refl =>
    rw [← ended]
    exact List.mem_cons_self
  | tail _ follows ih =>
    rw [← ended]
    exact List.mem_cons_of_mem _ (List.mem_flatMap.2 ⟨_, ih, follows⟩)

/-- Where the queue is empty, no more is taken. -/
theorem Walked.length_le_of_ended (walked : Walked next start taken) (ended : start :: taken.flatMap next = taken)
    (walked' : Walked next start taken') : taken'.length ≤ taken.length := by
  induction walked' with
  | nil => simp
  | @snoc init x walked' follows ih =>
    rcases Nat.lt_or_ge init.length taken.length with short | full
    · simpa using Nat.succ_le_of_lt short
    · have same := (walked.prefix_of_length_le walked' full).eq_of_length_le ih
      rw [← same, ended] at follows
      have longer := follows.length_le
      rw [List.length_append, List.length_singleton] at longer
      omega

end SensorKit.Lib
