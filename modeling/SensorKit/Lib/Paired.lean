import Mathlib.Data.List.Forall2

/-!
# Lists side by side

What holds of the elements of two lists position by position, and a measure of each pair that is summed up, after one
position or all of them have changed.
-/

namespace SensorKit.Lib

variable {α β : Type*} {R : α → β → Prop} {measure : α → β → ℕ} {xs : List α} {ys : List β} {x x' : α} {y : β} {i : ℕ}

/-- The sum of a measure over the pairs. -/
def sumPairs (measure : α → β → ℕ) : List α → List β → ℕ
  | x :: xs, y :: ys => measure x y + sumPairs measure xs ys
  | _, _ => 0

@[simp] theorem sumPairs_cons : sumPairs measure (x :: xs) (y :: ys) = measure x y + sumPairs measure xs ys := by
  rw [sumPairs]

theorem forall₂_get (h : List.Forall₂ R xs ys) (here : xs[i]? = some x) (there : ys[i]? = some y) : R x y := by
  induction h generalizing i with
  | nil => cases here
  | cons first _ ih =>
    cases i with
    | zero =>
      cases here
      cases there
      exact first
    | succ i => exact ih here there

/-- After one position has changed. -/
theorem pairs_set (measure : α → β → ℕ) (change : β → β) (h : List.Forall₂ R xs ys) (here : xs[i]? = some x)
    (each : ∀ y, R x y → R x' (change y) ∧ measure x' (change y) = measure x y) :
    List.Forall₂ R (xs.set i x') (ys.modify i change) ∧
      sumPairs measure (xs.set i x') (ys.modify i change) = sumPairs measure xs ys := by
  induction h generalizing i with
  | nil => cases here
  | @cons a b as bs first rest ih =>
    cases i with
    | zero =>
      cases here
      obtain ⟨related, same⟩ := each b first
      refine ⟨.cons related rest, ?_⟩
      rw [List.set_cons_zero, List.modify_zero_cons, sumPairs_cons, sumPairs_cons, same]
    | succ i =>
      obtain ⟨related, same⟩ := ih here
      refine ⟨.cons first related, ?_⟩
      rw [List.set_cons_succ, List.modify_succ_cons, sumPairs_cons, sumPairs_cons, same]

/-- After all positions have changed. -/
theorem pairs_map {f : α → α} {g : α → β → β} (measure : α → β → ℕ) (h : List.Forall₂ R xs ys)
    (each : ∀ x y, R x y → R (f x) (g x y) ∧ measure (f x) (g x y) = measure x y) :
    List.Forall₂ R (xs.map f) (List.zipWith g xs ys) ∧
      sumPairs measure (xs.map f) (List.zipWith g xs ys) = sumPairs measure xs ys := by
  induction h with
  | nil => exact ⟨.nil, rfl⟩
  | @cons a b as bs first _ ih =>
    obtain ⟨related, same⟩ := ih
    obtain ⟨related', same'⟩ := each a b first
    refine ⟨.cons related' related, ?_⟩
    rw [List.map_cons, List.zipWith_cons_cons, sumPairs_cons, sumPairs_cons, same, same']

/-- After a pair has joined. -/
theorem pairs_snoc (measure : α → β → ℕ) (h : List.Forall₂ R xs ys) (last : R x y) :
    List.Forall₂ R (xs ++ [x]) (ys ++ [y]) ∧ sumPairs measure (xs ++ [x]) (ys ++ [y]) = sumPairs measure xs ys + measure x y := by
  induction h with
  | nil =>
    refine ⟨.cons last .nil, ?_⟩
    simp [sumPairs]
  | cons first _ ih =>
    obtain ⟨related, same⟩ := ih
    refine ⟨.cons first related, ?_⟩
    rw [List.cons_append, List.cons_append, sumPairs_cons, sumPairs_cons, same, Nat.add_assoc]

end SensorKit.Lib
