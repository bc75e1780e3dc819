import Mathlib.Data.List.Infix

/-!
# Searching for a sublist

Where a list occurs in another one, the first place from some position on, and what there is up to the end of it.
-/

namespace SensorKit.Lib

variable {α : Type*} {sep xs ys : List α} {i j start : ℕ}

/-- The list occurs at a position. -/
def OccursAt (sep xs : List α) (i : ℕ) : Prop := sep <+: xs.drop i

instance [DecidableEq α] : Decidable (OccursAt sep xs i) := inferInstanceAs (Decidable (_ <+: _))

theorem OccursAt.le (nonempty : sep ≠ []) (h : OccursAt sep xs i) : i + sep.length ≤ xs.length := by
  have bound := List.IsPrefix.length_le h
  rw [List.length_drop] at bound
  have positive := List.length_pos_iff.2 nonempty
  omega

/-- Within a list, it makes no difference what follows. -/
theorem occursAt_append (fits : i + sep.length ≤ xs.length) : OccursAt sep (xs ++ ys) i ↔ OccursAt sep xs i := by
  unfold OccursAt
  rw [List.drop_append_of_le_length (by omega)]
  constructor
  · intro h
    exact List.prefix_of_prefix_length_le h (List.prefix_append _ _) (by rw [List.length_drop]; omega)
  · exact fun h => h.trans (List.prefix_append _ _)

theorem infix_iff_occursAt : sep <:+: xs ↔ ∃ i, OccursAt sep xs i := by
  constructor
  · rintro ⟨pre, post, rfl⟩
    refine ⟨pre.length, ?_⟩
    unfold OccursAt
    rw [List.append_assoc, List.drop_left']
    · exact List.prefix_append _ _
    · rfl
  · rintro ⟨i, h⟩
    exact h.isInfix.trans (List.drop_suffix _ _).isInfix

/-- A list occurs before the last element of another one if an occurrence ends there. -/
theorem infix_dropLast_iff (nonempty : sep ≠ []) :
    sep <:+: xs.dropLast ↔ ∃ i, OccursAt sep xs i ∧ i + sep.length < xs.length := by
  rw [infix_iff_occursAt]
  have positive := List.length_pos_iff.2 nonempty
  rcases List.eq_nil_or_concat xs with rfl | ⟨xs, x, rfl⟩
  · constructor
    · rintro ⟨i, h⟩
      have fits := h.le nonempty
      simp only [List.dropLast_nil, List.length_nil] at fits
      omega
    · rintro ⟨i, -, less⟩
      simp only [List.length_nil] at less
      omega
  · rw [List.concat_eq_append, List.dropLast_concat, List.length_append, List.length_singleton]
    refine exists_congr fun i => ?_
    constructor
    · intro h
      have fits := h.le nonempty
      exact ⟨(occursAt_append fits).2 h, by omega⟩
    · rintro ⟨h, less⟩
      exact (occursAt_append (by omega)).1 h

variable [DecidableEq α]

/-- The first place from a position on. -/
def findFrom (sep xs : List α) (start : ℕ) : Option ℕ :=
  (List.range (xs.length + 1)).find? fun i => decide (start ≤ i) && decide (OccursAt sep xs i)

theorem findFrom_eq_some (nonempty : sep ≠ []) : findFrom sep xs start = some i ↔
    start ≤ i ∧ OccursAt sep xs i ∧ ∀ j, start ≤ j → j < i → ¬ OccursAt sep xs j := by
  unfold findFrom
  rw [List.find?_range_eq_some]
  simp only [Bool.and_eq_true, decide_eq_true_eq, List.mem_range, Bool.not_eq_true', Bool.and_eq_false_iff,
    decide_eq_false_iff_not]
  constructor
  · rintro ⟨⟨le, here⟩, -, before⟩
    exact ⟨le, here, fun j low less => (before j less).resolve_left (not_not.2 low)⟩
  · rintro ⟨le, here, before⟩
    have fits := here.le nonempty
    exact ⟨⟨le, here⟩, by omega, fun j less => (em (start ≤ j)).elim (fun low => .inr (before j low less)) .inl⟩

theorem findFrom_eq_none (nonempty : sep ≠ []) :
    findFrom sep xs start = none ↔ ∀ j, start ≤ j → ¬ OccursAt sep xs j := by
  unfold findFrom
  rw [List.find?_range_eq_none]
  simp only [Bool.not_eq_true', Bool.and_eq_false_iff, decide_eq_false_iff_not]
  constructor
  · intro none j low here
    have fits := here.le nonempty
    exact (none j (by omega)).elim (fun above => above low) (fun absent => absent here)
  · intro none j _
    exact (em (start ≤ j)).elim (fun low => .inr (none j low)) .inl

/-- What there is up to the end of the first place from a position on; all of it, if there is no such place. -/
def untilFrom (sep xs : List α) (start : ℕ) : List α :=
  match findFrom sep xs start with
  | some i => xs.take (i + sep.length)
  | none => xs

theorem untilFrom_of_some (found : findFrom sep xs start = some i) : untilFrom sep xs start = xs.take (i + sep.length) := by
  unfold untilFrom
  rw [found]

theorem untilFrom_of_none (none : findFrom sep xs start = none) : untilFrom sep xs start = xs := by
  unfold untilFrom
  rw [none]

section

variable (nonempty : sep ≠ [])
include nonempty

/-- Positions at which nothing occurs can be left out. -/
theorem findFrom_skip (le : start ≤ i) (skip : ∀ j, start ≤ j → j < i → ¬ OccursAt sep xs j) :
    findFrom sep xs start = findFrom sep xs i := by
  cases found : findFrom sep xs i with
  | none =>
    rw [findFrom_eq_none nonempty] at found ⊢
    intro j low
    by_cases less : j < i
    · exact skip j low less
    · exact found j (by omega)
  | some first =>
    rw [findFrom_eq_some nonempty] at found ⊢
    obtain ⟨low, here, before⟩ := found
    refine ⟨by omega, here, fun j above less => ?_⟩
    by_cases early : j < i
    · exact skip j above early
    · exact before j (by omega) less

theorem untilFrom_skip (le : start ≤ i) (skip : ∀ j, start ≤ j → j < i → ¬ OccursAt sep xs j) :
    untilFrom sep xs start = untilFrom sep xs i := by
  unfold untilFrom
  rw [findFrom_skip nonempty le skip]

/-- What has been found is found if more follows. -/
theorem findFrom_append (found : findFrom sep xs start = some i) : findFrom sep (xs ++ ys) start = some i := by
  rw [findFrom_eq_some nonempty] at found ⊢
  obtain ⟨low, here, before⟩ := found
  have fits := here.le nonempty
  refine ⟨low, (occursAt_append fits).2 here, fun j above less there => ?_⟩
  exact before j above less ((occursAt_append (by omega)).1 there)

theorem untilFrom_append (found : findFrom sep xs start = some i) :
    untilFrom sep (xs ++ ys) start = xs.take (i + sep.length) := by
  have fits := ((findFrom_eq_some nonempty).1 found).2.1.le nonempty
  rw [untilFrom_of_some (findFrom_append nonempty found), List.take_append_of_le_length fits]

/-- Once nothing has been found in a list, the search goes on where a place would end in what follows. -/
theorem untilFrom_resume (le : start + sep.length ≤ xs.length + 1) (none : findFrom sep xs start = none) :
    untilFrom sep (xs ++ ys) start = untilFrom sep (xs ++ ys) (xs.length + 1 - sep.length) := by
  refine untilFrom_skip nonempty (by omega) fun j low less here => ?_
  exact (findFrom_eq_none nonempty).1 none j low ((occursAt_append (by omega)).1 here)

/-- A search that starts late has the same result, unless it starts after a place that does not end the list. -/
theorem untilFrom_late_iff :
    untilFrom sep xs i = untilFrom sep xs 0 ↔ ¬ ((∃ j < i, OccursAt sep xs j) ∧ sep <:+: xs.dropLast) := by
  rw [infix_dropLast_iff nonempty]
  constructor
  · rintro same ⟨⟨j, less, here⟩, j', here', inside⟩
    cases first : findFrom sep xs 0 with
    | none => exact (findFrom_eq_none nonempty).1 first j (Nat.zero_le j) here
    | some k =>
      obtain ⟨-, there, before⟩ := (findFrom_eq_some nonempty).1 first
      have le : k ≤ j := Nat.not_lt.1 fun early => before j (Nat.zero_le j) early here
      have le' : k ≤ j' := Nat.not_lt.1 fun early => before j' (Nat.zero_le j') early here'
      have lengths := congrArg List.length same
      rw [untilFrom_of_some first, List.length_take] at lengths
      cases late : findFrom sep xs i with
      | none =>
        rw [untilFrom_of_none late] at lengths
        omega
      | some k' =>
        obtain ⟨low, there', -⟩ := (findFrom_eq_some nonempty).1 late
        have fits := there'.le nonempty
        rw [untilFrom_of_some late, List.length_take] at lengths
        omega
  · intro notBoth
    by_cases passed : ∃ j < i, OccursAt sep xs j
    · -- all places end the list
      have whole (start : ℕ) : untilFrom sep xs start = xs := by
        cases found : findFrom sep xs start with
        | none => exact untilFrom_of_none found
        | some k =>
          have here := ((findFrom_eq_some nonempty).1 found).2.1
          rw [untilFrom_of_some found, List.take_of_length_le]
          exact Nat.not_lt.1 fun less => notBoth ⟨passed, k, here, less⟩
      rw [whole, whole]
    · exact (untilFrom_skip nonempty (Nat.zero_le i) fun j _ less here => passed ⟨j, less, here⟩).symm

end

end SensorKit.Lib
