import Mathlib.Data.List.Chain
import Mathlib.Data.List.Nodup

/-!
# Lists as traces

A list that grows at its end is a trace. `lastOf q xs` is its last element that satisfies a test, and
`Traced P xs` says that each element stands in the relation `P` to the elements before it.
-/

namespace SensorKit.Lib

variable {α : Type*} {q : α → Bool} {P : List α → α → Prop} {xs : List α} {x y : α} {m n : ℕ}

theorem mem_snoc : x ∈ xs ++ [y] ↔ x ∈ xs ∨ x = y := by
  simp

/-- The last element that satisfies the test. -/
def lastOf (q : α → Bool) (xs : List α) : Option α :=
  xs.reverse.find? q

@[simp] theorem lastOf_nil : lastOf q [] = none := rfl

theorem lastOf_snoc : lastOf q (xs ++ [x]) = if q x then some x else lastOf q xs := by
  cases test : q x <;> simp [lastOf, test]

theorem lastOf_snoc_of_pos (test : q x = true) : lastOf q (xs ++ [x]) = some x := by
  rw [lastOf_snoc, if_pos test]

theorem lastOf_snoc_of_neg (test : q x = false) : lastOf q (xs ++ [x]) = lastOf q xs := by
  rw [lastOf_snoc, if_neg (by simp [test])]

theorem lastOf_append {ys : List α} : lastOf q (xs ++ ys) = (lastOf q ys).or (lastOf q xs) := by
  simp [lastOf]

theorem lastOf_map {β : Type*} {f : β → α} {ys : List β} :
    lastOf q (ys.map f) = (lastOf (fun y => q (f y)) ys).map f := by
  simp only [lastOf, ← List.map_reverse, List.find?_map]
  rfl

theorem lastOf_flatMap_congr {β : Type*} {ys : List β} {f g : β → List α} (same : ∀ y ∈ ys, lastOf q (f y) = lastOf q (g y)) :
    lastOf q (ys.flatMap f) = lastOf q (ys.flatMap g) := by
  induction ys with
  | nil => rfl
  | cons y ys ih =>
    rw [List.flatMap_cons, List.flatMap_cons, lastOf_append, lastOf_append, same y List.mem_cons_self,
      ih fun y mem => same y (List.mem_cons_of_mem _ mem)]

theorem lastOf_eq_none : lastOf q xs = none ↔ ∀ x ∈ xs, q x = false := by
  simp [lastOf]

/-- Nothing after the last element that satisfies the test satisfies it. -/
theorem exists_append_of_lastOf (h : lastOf q xs = some x) :
    q x = true ∧ ∃ pre post, xs = pre ++ x :: post ∧ ∀ y ∈ post, q y = false := by
  obtain ⟨test, post, pre, eq, others⟩ := List.find?_eq_some_iff_append.1 h
  refine ⟨test, pre.reverse, post.reverse, ?_, fun y mem => ?_⟩
  · have reversed := congrArg List.reverse eq
    simpa using reversed
  · simpa using others y (List.mem_reverse.1 mem)

/-- Where the last element of a prefix is that satisfies the test. -/
theorem of_lastOf_take (h : lastOf q (xs.take n) = some y) : ∃ k, k < n ∧ xs[k]? = some y ∧ q y = true ∧
    ∀ m x, k < m → m < n → xs[m]? = some x → q x = false := by
  induction n with
  | zero => simp at h
  | succ n ih =>
    cases at_ : xs[n]? with
    | none =>
      have same : xs.take (n + 1) = xs.take n := by rw [List.take_add_one, at_, Option.toList_none, List.append_nil]
      obtain ⟨k, lt, here, test, rest⟩ := ih (same ▸ h)
      refine ⟨k, by omega, here, test, fun m x low high there => ?_⟩
      rcases Nat.lt_succ_iff_lt_or_eq.1 high with high | rfl
      · exact rest m x low high there
      · simp [at_] at there
    | some z =>
      rw [List.take_add_one, at_, Option.toList_some, lastOf_snoc] at h
      split_ifs at h with test
      · cases h
        exact ⟨n, by omega, at_, test, fun m x low high => by omega⟩
      · obtain ⟨k, lt, here, test', rest⟩ := ih h
        refine ⟨k, by omega, here, test', fun m x low high there => ?_⟩
        rcases Nat.lt_succ_iff_lt_or_eq.1 high with high | rfl
        · exact rest m x low high there
        · cases at_.symm.trans there
          simpa using test

/-- If some element of a prefix satisfies the test, then a last one does, no earlier than that. -/
theorem exists_lastOf_take (lt : m < n) (there : xs[m]? = some x) (test : q x = true) :
    ∃ k y, m ≤ k ∧ k < n ∧ xs[k]? = some y ∧ q y = true ∧ lastOf q (xs.take n) = some y := by
  have found : ∃ y, lastOf q (xs.take n) = some y := by
    refine Option.isSome_iff_exists.1 (List.find?_isSome.2 ⟨x, ?_, test⟩)
    rw [List.mem_reverse, List.mem_iff_getElem?]
    exact ⟨m, (List.getElem?_take_of_lt lt).trans there⟩
  obtain ⟨y, last⟩ := found
  obtain ⟨k, before, here, test', rest⟩ := of_lastOf_take last
  refine ⟨k, y, Nat.not_lt.1 fun less => ?_, before, here, test', last⟩
  simp [rest m x less lt there] at test

/-! ## Positions -/

/-- Where the elements are that satisfy the test, in order. -/
def positions (q : α → Bool) (xs : List α) : List ℕ :=
  (List.range xs.length).filter fun n => xs[n]?.any q

theorem mem_positions : n ∈ positions q xs ↔ ∃ x, xs[n]? = some x ∧ q x = true := by
  unfold positions
  rw [List.mem_filter, List.mem_range, Option.any_eq_true]
  constructor
  · rintro ⟨-, x, there, test⟩
    exact ⟨x, there, test⟩
  · rintro ⟨x, there, test⟩
    exact ⟨(List.getElem?_eq_some_iff.1 there).1, x, there, test⟩

theorem nodup_positions : (positions q xs).Nodup := List.nodup_range.filter _

theorem positions_snoc : positions q (xs ++ [x]) = positions q xs ++ if q x then [xs.length] else [] := by
  unfold positions
  have before : (List.range xs.length).filter (fun n => (xs ++ [x])[n]?.any q) =
      (List.range xs.length).filter fun n => xs[n]?.any q := by
    refine List.filter_congr fun n mem => ?_
    rw [List.getElem?_append_left (List.mem_range.1 mem)]
  rw [List.length_append, List.length_singleton, List.range_succ, List.filter_append, before]
  cases test : q x <;> simp [test]

/-- The elements at the positions are those that satisfy the test. -/
theorem map_positions : (positions q xs).map (xs[·]?) = (xs.filter q).map some := by
  induction xs using List.reverseRecOn with
  | nil => rfl
  | append_singleton xs x ih =>
    have kept : (positions q xs).map ((xs ++ [x])[·]?) = (positions q xs).map (xs[·]?) := by
      refine List.map_congr_left fun n mem => ?_
      obtain ⟨y, there, -⟩ := mem_positions.1 mem
      exact List.getElem?_append_left (List.getElem?_eq_some_iff.1 there).1
    rw [positions_snoc, List.filter_append, List.map_append, List.map_append, kept, ih]
    cases test : q x <;> simp [test]

theorem lastOf_eq_getLast? : lastOf q xs = (positions q xs).getLast?.bind (xs[·]?) := by
  induction xs using List.reverseRecOn with
  | nil => rfl
  | append_singleton xs x ih =>
    rw [lastOf_snoc, positions_snoc]
    cases test : q x with
    | true => simp
    | false =>
      rw [if_neg (by simp), if_neg (by simp), List.append_nil, ih]
      cases last : (positions q xs).getLast? with
      | none => rfl
      | some n =>
        obtain ⟨y, there, -⟩ := mem_positions.1 (List.mem_of_getLast? last)
        simp only [Option.bind_some]
        rw [List.getElem?_append_left (List.getElem?_eq_some_iff.1 there).1]

/-- Each position is followed by the next one at which the test holds. -/
theorem isChain_positions : List.IsChain (fun m n => ∃ x, xs[m]? = some x ∧ lastOf q (xs.take n) = some x)
    (positions q xs) := by
  induction xs using List.reverseRecOn with
  | nil => exact .nil
  | append_singleton xs x ih =>
    have grown {m n : ℕ} (le : n ≤ xs.length) (h : ∃ y, xs[m]? = some y ∧ lastOf q (xs.take n) = some y) :
        ∃ y, (xs ++ [x])[m]? = some y ∧ lastOf q ((xs ++ [x]).take n) = some y := by
      obtain ⟨y, there, last⟩ := h
      rw [List.take_append_of_le_length le, List.getElem?_append_left (List.getElem?_eq_some_iff.1 there).1]
      exact ⟨y, there, last⟩
    have kept : List.IsChain (fun m n => ∃ y, (xs ++ [x])[m]? = some y ∧ lastOf q ((xs ++ [x]).take n) = some y)
        (positions q xs) := by
      refine ih.imp_of_mem_imp fun m n _ mem => grown ?_
      obtain ⟨y, there, -⟩ := mem_positions.1 mem
      exact (List.getElem?_eq_some_iff.1 there).1.le
    rw [positions_snoc]
    cases test : q x with
    | false => simpa using kept
    | true =>
      refine kept.append (.singleton _) fun m last n first => ?_
      obtain rfl : xs.length = n := by simpa using first
      refine grown le_rfl ?_
      rw [List.take_length, lastOf_eq_getLast?, last]
      obtain ⟨y, there, -⟩ := mem_positions.1 (List.mem_of_getLast? last)
      exact ⟨y, there, there⟩

/-- Each element stands in the relation to those before it. -/
def Traced (P : List α → α → Prop) (xs : List α) : Prop :=
  ∀ n x, xs[n]? = some x → P (xs.take n) x

theorem traced_nil : Traced P [] := by
  intro n x there
  simp at there

theorem Traced.snoc (h : Traced P xs) (here : P xs x) : Traced P (xs ++ [x]) := by
  intro n y there
  rcases Nat.lt_trichotomy n xs.length with lt | rfl | lt
  · rw [List.getElem?_append_left lt] at there
    rw [List.take_append_of_le_length (by omega)]
    exact h n y there
  · rw [List.getElem?_append_right (by omega)] at there
    obtain rfl : x = y := by simpa using there
    rwa [List.take_left']
    rfl
  · rw [List.getElem?_eq_none (by simp; omega)] at there
    simp at there

/-- What has been traced up to a point has been traced before it. -/
theorem Traced.of_append {before after : List α} (h : Traced P (before ++ after)) : Traced P before := by
  intro n x there
  obtain ⟨lt, -⟩ := List.getElem?_eq_some_iff.1 there
  have here := h n x ((List.getElem?_append_left lt).trans there)
  rwa [List.take_append_of_le_length lt.le] at here

/-- An element of a grown list is the new one, or was there. -/
theorem split_snoc {before after : List α} (split : xs ++ [y] = before ++ x :: after) :
    (x = y ∧ before = xs ∧ after = []) ∨ ∃ earlier, after = earlier ++ [y] ∧ xs = before ++ x :: earlier := by
  rcases List.eq_nil_or_concat after with rfl | ⟨earlier, z, rfl⟩
  · obtain ⟨rfl, same⟩ := List.append_inj' split rfl
    exact .inl ⟨(List.singleton_inj.1 same).symm, rfl, rfl⟩
  · rw [List.concat_eq_append, ← List.cons_append, ← List.append_assoc] at split
    obtain ⟨rfl, same⟩ := List.append_inj' split rfl
    obtain rfl := List.singleton_inj.1 same
    exact .inr ⟨earlier, List.concat_eq_append, rfl⟩

theorem Traced.split {before after : List α} (h : Traced P (before ++ x :: after)) : P before x := by
  have here := h before.length x (by simp)
  rwa [List.take_left'] at here
  rfl

end SensorKit.Lib
