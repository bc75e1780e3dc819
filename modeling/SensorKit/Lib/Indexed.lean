import SensorKit.Lib.Trace

/-!
# Parties by number

Parties that join a system are listed in the order in which they join, and are known by their position. What is found
there after one of them has changed, or another has joined, was there before, or is the new one.
-/

namespace SensorKit.Lib

variable {α : Type*} {l : List α} {a b x : α} {i k : ℕ}

theorem mem_of_found (h : l[i]? = some a) : a ∈ l :=
  List.mem_iff_getElem?.2 ⟨i, h⟩

/-- After the change of one party. -/
theorem found_set (found : (l.set i b)[k]? = some x) :
    k = i ∧ x = b ∨ k ≠ i ∧ l[k]? = some x := by
  rw [List.getElem?_set] at found
  split_ifs at found with same
  · exact .inl ⟨same.symm, (Option.some.inj found).symm⟩
  · exact .inr ⟨Ne.symm same, found⟩

theorem set_found (here : l[i]? = some a) : (l.set i b)[i]? = some b :=
  List.getElem?_set_self (List.getElem?_eq_some_iff.1 here).1

theorem found_set_of_ne (found : l[k]? = some x) (ne : k ≠ i) : (l.set i b)[k]? = some x :=
  (List.getElem?_set_ne (Ne.symm ne)).trans found

/-- After another party has joined. -/
theorem found_snoc (found : (l ++ [b])[k]? = some x) : l[k]? = some x ∨ k = l.length ∧ x = b := by
  rcases Nat.lt_trichotomy k l.length with less | rfl | more
  · exact .inl ((List.getElem?_append_left less).symm.trans found)
  · rw [List.getElem?_concat_length] at found
    exact .inr ⟨rfl, (Option.some.inj found).symm⟩
  · rw [List.getElem?_eq_none (by simp; omega)] at found
    cases found

theorem found_snoc_of_found (found : l[k]? = some x) : (l ++ [b])[k]? = some x :=
  (List.getElem?_append_left (List.getElem?_eq_some_iff.1 found).1).trans found

theorem lt_of_found (found : l[k]? = some x) : k < l.length :=
  (List.getElem?_eq_some_iff.1 found).1

end SensorKit.Lib
