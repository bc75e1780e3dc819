import Mathlib.Data.Nat.Notation

/-!
# Numbers in names

A number's decimal numeral determines it and has no slash, so that names which end in numerals are told apart.
-/

namespace SensorKit.Lib

variable {n m : ℕ}

theorem toString_inj (h : toString n = toString m) : n = m := by
  have digits : Nat.toDigits 10 n = Nat.toDigits 10 m := by
    rw [← Nat.toList_repr, ← Nat.toList_repr]
    exact congrArg String.toList h
  rw [← Nat.ofDigitChars_ten_toDigits (n := n), digits, Nat.ofDigitChars_ten_toDigits]

theorem slash_notMem_toString : '/' ∉ (toString n).toList := by
  intro mem
  have digit := Nat.isDigit_of_mem_toDigits (by decide) (by decide) (Nat.toList_repr ▸ mem)
  simp at digit

/-- What follows the last occurrence of an element is determined by the list. -/
theorem suffix_eq_of_append_cons {α : Type} {c : α} {xs xs' ys ys' : List α} (h : xs ++ c :: ys = xs' ++ c :: ys')
    (fresh : c ∉ ys) (fresh' : c ∉ ys') : ys = ys' := by
  rcases List.append_eq_append_iff.1 h with ⟨zs, rfl, eq⟩ | ⟨zs, rfl, eq⟩
  · cases zs with
    | nil => exact (List.cons.inj eq).2
    | cons z zs =>
      obtain ⟨rfl, rfl⟩ := List.cons.inj eq
      simp at fresh
  · cases zs with
    | nil => exact (List.cons.inj eq).2.symm
    | cons z zs =>
      obtain ⟨rfl, rfl⟩ := List.cons.inj eq
      simp at fresh'

/-- The first occurrence of an element splits the list. -/
theorem eq_of_append_cons {α : Type} {c : α} {xs xs' ys ys' : List α} (h : xs ++ c :: ys = xs' ++ c :: ys')
    (fresh : c ∉ xs) (fresh' : c ∉ xs') : xs = xs' ∧ ys = ys' := by
  have reversed := congrArg List.reverse h
  simp only [List.reverse_append, List.reverse_cons, List.append_assoc, List.singleton_append] at reversed
  have front := suffix_eq_of_append_cons reversed (by simpa using fresh) (by simpa using fresh')
  obtain rfl := List.reverse_inj.1 front
  exact ⟨rfl, (List.cons.inj (List.append_cancel_left h)).2⟩

/-- A name says the numeral that it ends in. -/
theorem numeral_inj {head head' : String} (h : head ++ "/" ++ toString n = head' ++ "/" ++ toString m) : n = m := by
  have lists := congrArg String.toList h
  simp only [String.toList_append] at lists
  have slash : ("/" : String).toList = ['/'] := rfl
  rw [slash, List.append_assoc, List.append_assoc _ _ (toString m).toList] at lists
  have same := suffix_eq_of_append_cons lists slash_notMem_toString slash_notMem_toString
  exact toString_inj (String.toList_injective same)

end SensorKit.Lib
