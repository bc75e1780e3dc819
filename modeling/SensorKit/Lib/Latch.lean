import Mathlib.Data.List.Induction

/-!
# Latches

A latch is set by some values and stays set as long as the values that follow hold it.
-/

namespace SensorKit.Lib

variable {α : Type*} {sets holds : α → Bool} {xs ys : List α} {x : α}

def latch (sets holds : α → Bool) (active : Bool) (x : α) : Bool :=
  if active then holds x else sets x

/-- The latch after a stream, from its unset state. -/
def latched (sets holds : α → Bool) (xs : List α) : Bool :=
  xs.foldl (latch sets holds) false

/-- Some value has set the latch, and all values since have held it. -/
def Sustained (sets holds : α → Bool) (xs : List α) : Prop :=
  ∃ pre x post, xs = pre ++ x :: post ∧ sets x = true ∧ ∀ y ∈ post, holds y = true

@[simp] theorem latched_nil : latched sets holds [] = false := rfl

theorem latched_snoc : latched sets holds (xs ++ [x]) = latch sets holds (latched sets holds xs) x := by
  unfold latched
  rw [List.foldl_append, List.foldl_cons, List.foldl_nil]

theorem not_sustained_nil : ¬ Sustained sets holds [] := by
  rintro ⟨pre, x, post, eq, -⟩
  cases pre <;> cases eq

theorem sustained_snoc :
    Sustained sets holds (xs ++ [x]) ↔ sets x = true ∨ Sustained sets holds xs ∧ holds x = true := by
  constructor
  · rintro ⟨pre, y, post, eq, set, held⟩
    rcases List.eq_nil_or_concat post with rfl | ⟨post, z, rfl⟩
    · obtain ⟨-, same⟩ := List.append_inj' eq rfl
      obtain ⟨rfl, -⟩ := List.cons.inj same
      exact .inl set
    · rw [List.concat_eq_append, ← List.cons_append, ← List.append_assoc] at eq
      obtain ⟨rfl, same⟩ := List.append_inj' eq rfl
      obtain ⟨rfl, -⟩ := List.cons.inj same
      rw [List.concat_eq_append] at held
      exact .inr ⟨⟨pre, y, post, rfl, set, fun u mem => held u (List.mem_append_left _ mem)⟩,
        held x (List.mem_append_right _ List.mem_cons_self)⟩
  · rintro (set | ⟨⟨pre, y, post, rfl, set, held⟩, hold⟩)
    · exact ⟨xs, x, [], rfl, set, by simp⟩
    · refine ⟨pre, y, post ++ [x], by simp, set, fun u mem => ?_⟩
      rcases List.mem_append.1 mem with mem | mem
      · exact held u mem
      · rw [List.mem_singleton.1 mem]
        exact hold

/-- **Latch law.** A latch whose setting values hold it is set exactly if some value has set it and all since have held
it. -/
theorem latched_iff (inside : ∀ x, sets x = true → holds x = true) :
    latched sets holds xs = true ↔ Sustained sets holds xs := by
  induction xs using List.reverseRecOn with
  | nil => simp [not_sustained_nil]
  | append_singleton xs x ih =>
    rw [latched_snoc, sustained_snoc, ← ih]
    unfold latch
    cases latched sets holds xs with
    | true => simpa using inside x
    | false => simp

end SensorKit.Lib
