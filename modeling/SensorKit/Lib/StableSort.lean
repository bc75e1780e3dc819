import Mathlib.Data.List.Basic

/-!
# Stable sorting

A stable sort keeps the order of elements among which it does not discriminate.
-/

namespace SensorKit.Lib

variable {α : Type*} {le : α → α → Bool} {q : α → Bool} {xs : List α}

/-- Elements that are all equal to the sort stay as they are. -/
theorem filter_mergeSort (trans : ∀ a b c, le a b → le b c → le a c) (total : ∀ a b, le a b || le b a)
    (same : ∀ a b, q a = true → q b = true → le a b = true) : (xs.mergeSort le).filter q = xs.filter q := by
  have sorted : (xs.filter q).Pairwise fun a b => le a b = true := by
    apply List.pairwise_of_forall_mem_list
    intro a mem b mem'
    exact same a b (List.mem_filter.1 mem).2 (List.mem_filter.1 mem').2
  have sub := (List.sublist_mergeSort trans total sorted List.filter_sublist).filter q
  rw [List.filter_filter] at sub
  simp only [Bool.and_self] at sub
  refine (sub.eq_of_length ?_).symm
  exact ((List.mergeSort_perm xs le).filter q).length_eq.symm

end SensorKit.Lib
