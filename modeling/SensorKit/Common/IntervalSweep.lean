import SensorKit.Common.Interval

/-!
# The line sweep

Between two successive endpoints the sweep lists the inputs that are open there. What it has listed is right up to the
last endpoint that it has passed; what is open there is what its heap has, and the rest is still to come.
-/

namespace SensorKit.Common

open Lib

variable {τ α : Type} [LinearOrder τ]

section Endpoints

variable {n : ℕ} {endpoints : Endpoints τ n} {x : τ × Fin n}

/-- The first endpoints stay first. -/
theorem Endpoints.push_sorted (sorted : endpoints.Pairwise (·.1 ≤ ·.1)) :
    (Endpoints.push endpoints x).Pairwise (·.1 ≤ ·.1) := by
  unfold Endpoints.push
  induction endpoints with
  | nil => exact List.pairwise_singleton _ _
  | cons y endpoints ih =>
    obtain ⟨first, sorted'⟩ := List.pairwise_cons.1 sorted
    rw [List.orderedInsert_cons]
    split_ifs with before
    · have le : x.1 ≤ y.1 := Prod.Lex.monotone_fst _ _ before
      refine List.pairwise_cons.2 ⟨fun z mem => ?_, sorted⟩
      rcases List.mem_cons.1 mem with rfl | mem
      · exact le
      · exact le.trans (first z mem)
    · have le : y.1 ≤ x.1 := Prod.Lex.monotone_fst _ _ (le_of_not_ge before)
      refine List.pairwise_cons.2 ⟨fun z mem => ?_, ih sorted'⟩
      rcases (List.mem_orderedInsert _).1 mem with rfl | mem
      · exact le
      · exact first z mem

/-- What stays open after the endpoints up to a point have been taken off. -/
theorem lt_of_mem_dropWhile {left : τ} (sorted : endpoints.Pairwise (·.1 ≤ ·.1))
    (mem : x ∈ endpoints.dropWhile (·.1 ≤ left)) : left < x.1 := by
  induction endpoints with
  | nil => simp at mem
  | cons y endpoints ih =>
    obtain ⟨first, sorted⟩ := List.pairwise_cons.1 sorted
    by_cases closed : y.1 ≤ left
    · rw [List.dropWhile_cons_of_pos (by simpa using closed)] at mem
      exact ih sorted mem
    · rw [List.dropWhile_cons_of_neg (by simpa using closed)] at mem
      rcases List.mem_cons.1 mem with rfl | mem
      · exact not_le.1 closed
      · exact (not_le.1 closed).trans_le (first x mem)

end Endpoints

namespace Inputs

/-- An input with the data has an interval that contains the point. -/
def Offers (inputs : Inputs τ α) (d : α) (p : τ) : Prop :=
  ∃ input ∈ inputs, input.1 = d ∧ ∃ iv ∈ input.2, iv.1 ≤ p ∧ p < iv.2

variable [DecidableEq α]

instance (inputs : Inputs τ α) (d : α) (p : τ) : Decidable (inputs.Offers d p) :=
  inferInstanceAs (Decidable (∃ input ∈ inputs, _))

/-- The data of the inputs that are open at a point, in the order of the inputs. -/
def offering (inputs : Inputs τ α) (p : τ) : List α :=
  (inputs.map Prod.fst).filter fun d => inputs.Offers d p

variable {inputs : Inputs τ α} {lib : IntervalTrees τ} {s : Sweep α lib} {endpoints : Endpoints τ inputs.length}
  {rest : List (τ × Fin inputs.length × τ)} {p right : τ} {d : α} {ds : List α}

/-- What has been listed is right up to the last endpoint, and what is open there or still to come is known. -/
structure Swept (inputs : Inputs τ α) (lib : IntervalTrees τ) (s : Sweep α lib)
    (endpoints : Endpoints τ inputs.length) (rest : List (τ × Fin inputs.length × τ)) : Prop where
  active : s.active.Perm (endpoints.map fun x => inputs[x.2].1)
  later : ∀ x ∈ endpoints, s.left ≤ x.1
  sorted : endpoints.Pairwise (·.1 ≤ ·.1)
  coming : ∀ w ∈ rest, s.left ≤ w.1
  order : rest.Pairwise (·.1 ≤ ·.1)
  proper : ∀ w ∈ rest, w.1 ≤ w.2.2
  ended : ∀ iv ∈ lib.intervals s.target, iv.end ≤ s.left
  disjoint : lib.Disjoint s.target
  holds : ∀ p < s.left, ∀ ds, lib.Holds s.target p ds ↔ ds = inputs.offering p ∧ ds ≠ []
  live : ∀ p, s.left ≤ p → ∀ d, inputs.Offers d p ↔ (∃ x ∈ endpoints, inputs[x.2].1 = d ∧ p < x.1) ∨
    ∃ w ∈ rest, inputs[w.2.1].1 = d ∧ w.1 ≤ p ∧ p < w.2.2

namespace Swept

/-- What is open is offered until the next endpoint. -/
theorem offering_eq (h : Swept inputs lib s endpoints rest) (opens : ∀ x ∈ endpoints, right ≤ x.1)
    (comes : ∀ w ∈ rest, right ≤ w.1) (le : s.left ≤ p) (lt : p < right) :
    inputs.offering p = (inputs.map Prod.fst).filter (· ∈ s.active) := by
  unfold offering
  refine List.filter_congr fun d _ => decide_eq_decide.2 ?_
  rw [h.live p le, h.active.mem_iff, List.mem_map]
  constructor
  · rintro (⟨x, mem, data, -⟩ | ⟨w, mem, -, here, -⟩)
    · exact ⟨x, mem, data⟩
    · exact absurd (here.trans_lt lt) (not_lt.2 (comes w mem))
  · rintro ⟨x, mem, data⟩
    exact .inl ⟨x, mem, data, lt.trans_le (opens x mem)⟩

theorem filter_active_ne_nil (h : Swept inputs lib s endpoints rest) (active : s.active ≠ []) :
    (inputs.map Prod.fst).filter (· ∈ s.active) ≠ [] := by
  obtain ⟨d, mem⟩ := List.exists_mem_of_ne_nil _ active
  obtain ⟨x, -, rfl⟩ := List.mem_map.1 (h.active.mem_iff.1 mem)
  apply List.ne_nil_of_mem
  rw [List.mem_filter]
  exact ⟨List.mem_map.2 ⟨_, List.getElem_mem _, rfl⟩, decide_eq_true mem⟩

/-- Up to the next endpoint. -/
theorem advance (lawful : lib.Lawful) (h : Swept inputs lib s endpoints rest) (le : s.left ≤ right)
    (opens : ∀ x ∈ endpoints, right ≤ x.1) (comes : ∀ w ∈ rest, right ≤ w.1) :
    Swept inputs lib (Sweep.advance inputs s right) endpoints rest where
  active := h.active
  later := opens
  sorted := h.sorted
  coming := comes
  order := h.order
  proper := h.proper
  ended := by
    intro iv mem
    unfold Sweep.advance at mem
    dsimp only at mem
    split_ifs at mem with open_
    · rw [lawful.mem_add] at mem
      rcases mem with rfl | mem
      · exact le_rfl
      · exact (h.ended iv mem).trans le
    · exact (h.ended iv mem).trans le
  disjoint := by
    unfold Sweep.advance
    dsimp only
    split_ifs with open_
    · refine lawful.disjoint_add h.disjoint ?_
      rintro p d here ⟨iv, mem, there, -⟩
      exact absurd (there.2.trans_le (h.ended iv mem)) (not_lt.2 here.1)
    · exact h.disjoint
  holds := by
    intro p lt ds
    unfold Sweep.advance
    dsimp only
    by_cases before : p < s.left
    · rw [← h.holds p before]
      split_ifs with open_
      · rw [lawful.holds_add]
        constructor
        · rintro (⟨here, -⟩ | holds)
          · exact absurd before (not_lt.2 here.1)
          · exact holds
        · exact .inr
      · rfl
    · have after := not_lt.1 before
      have free : ¬ lib.Holds s.target p ds := by
        rintro ⟨iv, mem, here, -⟩
        exact absurd (here.2.trans_le (h.ended iv mem)) before
      rw [h.offering_eq opens comes after lt]
      split_ifs with open_
      · rw [lawful.holds_add]
        constructor
        · rintro (⟨-, rfl⟩ | holds)
          · exact ⟨rfl, h.filter_active_ne_nil open_.1⟩
          · exact absurd holds free
        · rintro ⟨rfl, -⟩
          exact .inl ⟨⟨after, lt⟩, rfl⟩
      · constructor
        · intro holds
          exact absurd holds free
        · rintro ⟨rfl, some⟩
          have none : s.active = [] := by
            by_contra active
            exact open_ ⟨active, after.trans_lt lt⟩
          simp [none] at some
  live := fun p here d => h.live p (le.trans here) d

/-- The first open interval ends where the sweep is. -/
theorem close {x : τ × Fin inputs.length} (h : Swept inputs lib s (x :: endpoints) rest) (here : s.left = x.1) :
    Swept inputs lib { s with active := s.active.erase inputs[x.2].1 } endpoints rest where
  active := by
    have perm := h.active.erase inputs[x.2].1
    rw [List.map_cons, List.erase_cons_head] at perm
    exact perm
  later := fun y mem => h.later y (List.mem_cons_of_mem x mem)
  sorted := h.sorted.of_cons
  coming := h.coming
  order := h.order
  proper := h.proper
  ended := h.ended
  disjoint := h.disjoint
  holds := h.holds
  live := by
    intro p le d
    rw [h.live p le]
    have closed : ¬ p < x.1 := not_lt.2 (here ▸ le)
    simp only [List.mem_cons, exists_eq_or_imp, closed, and_false, false_or]

/-- The next interval begins where the sweep is. -/
theorem open_ {w : τ × Fin inputs.length × τ} (h : Swept inputs lib s endpoints (w :: rest)) (here : s.left = w.1) :
    Swept inputs lib { s with active := inputs[w.2.1].1 :: s.active } (Endpoints.push endpoints (w.2.2, w.2.1)) rest where
  active := by
    have perm := (List.perm_orderedInsert (fun a b => toLex a ≤ toLex b) (w.2.2, w.2.1) endpoints).map
      fun x => inputs[x.2].1
    exact (h.active.cons inputs[w.2.1].1).trans perm.symm
  later := by
    intro x mem
    rcases (List.mem_orderedInsert _).1 mem with rfl | mem
    · exact here.trans_le (h.proper w (List.mem_cons_self ..))
    · exact h.later x mem
  sorted := Endpoints.push_sorted h.sorted
  coming := fun v mem => h.coming v (List.mem_cons_of_mem w mem)
  order := h.order.of_cons
  proper := fun v mem => h.proper v (List.mem_cons_of_mem w mem)
  ended := h.ended
  disjoint := h.disjoint
  holds := h.holds
  live := by
    intro p le d
    rw [h.live p le]
    have began : w.1 ≤ p := here ▸ le
    unfold Endpoints.push
    simp only [List.mem_cons, exists_eq_or_imp, List.mem_orderedInsert, began, true_and]
    rw [or_assoc, or_left_comm]

/-- The intervals that end before anything else begins. -/
theorem closes (lawful : lib.Lawful) {ended : Endpoints τ inputs.length}
    (h : Swept inputs lib s (ended ++ endpoints) rest) (before : ∀ x ∈ ended, ∀ w ∈ rest, x.1 ≤ w.1) :
    Swept inputs lib ((falling ended).foldl (inputs.sweep lib) s) endpoints rest := by
  induction ended generalizing s with
  | nil => exact h
  | cons x ended ih =>
    have opens : ∀ y ∈ x :: ended ++ endpoints, x.1 ≤ y.1 := by
      intro y mem
      rcases List.mem_cons.1 mem with rfl | mem
      · exact le_rfl
      · exact List.rel_of_pairwise_cons h.sorted mem
    have advanced := h.advance lawful (h.later x (List.mem_cons_self ..)) opens
      (before x (List.mem_cons_self ..))
    have closed := advanced.close rfl
    exact ih closed fun y mem => before y (List.mem_cons_of_mem x mem)

/-- The whole sweep. -/
theorem sweeps (lawful : lib.Lawful) (h : Swept inputs lib s endpoints rest) :
    Swept inputs lib ((sweepEvents endpoints rest).foldl (inputs.sweep lib) s) [] [] := by
  induction rest generalizing s endpoints with
  | nil =>
    rw [← List.append_nil endpoints] at h
    exact h.closes lawful (by simp)
  | cons w rest ih =>
    have sorted := h.sorted
    rw [← List.takeWhile_append_dropWhile (p := (·.1 ≤ w.1)) (l := endpoints)] at h
    have before : ∀ x ∈ endpoints.takeWhile (·.1 ≤ w.1), ∀ v ∈ w :: rest, x.1 ≤ v.1 := by
      intro x mem v later
      have le : x.1 ≤ w.1 := of_decide_eq_true (List.all_eq_true.1 List.all_takeWhile x mem)
      rcases List.mem_cons.1 later with rfl | later
      · exact le
      · exact le.trans (List.rel_of_pairwise_cons h.order later)
    have closed := h.closes lawful before
    have coming : ∀ v ∈ w :: rest, w.1 ≤ v.1 := by
      intro v mem
      rcases List.mem_cons.1 mem with rfl | mem
      · exact le_rfl
      · exact List.rel_of_pairwise_cons h.order mem
    have opens : ∀ x ∈ endpoints.dropWhile (·.1 ≤ w.1), w.1 ≤ x.1 :=
      fun x mem => (lt_of_mem_dropWhile sorted mem).le
    have advanced := closed.advance lawful (closed.coming w (List.mem_cons_self ..)) opens coming
    unfold sweepEvents
    rw [List.foldl_append, List.foldl_cons]
    exact ih (advanced.open_ rfl)

/-- At the end everything has been listed. -/
theorem holds_iff (h : Swept inputs lib s [] []) : lib.Holds s.target p ds ↔ ds = inputs.offering p ∧ ds ≠ [] := by
  by_cases before : p < s.left
  · exact h.holds p before ds
  · have unoffered (d : α) : ¬ inputs.Offers d p := by
      rw [h.live p (not_lt.1 before) d]
      simp
    have none : inputs.offering p = [] := by
      simp [offering, unoffered]
    rw [none]
    constructor
    · rintro ⟨iv, mem, here, -⟩
      exact absurd (here.2.trans_le (h.ended iv mem)) before
    · rintro ⟨rfl, some⟩
      exact absurd rfl some

end Swept

omit [DecidableEq α] in
theorem mem_tagged {w : τ × Fin inputs.length × τ} :
    w ∈ inputs.tagged ↔ (w.1, w.2.2) ∈ inputs[w.2.1].2 := by
  unfold tagged
  rw [List.mem_mergeSort, List.mem_flatMap]
  constructor
  · rintro ⟨i, -, listed⟩
    obtain ⟨iv, mem, rfl⟩ := List.mem_map.1 listed
    exact mem
  · intro mem
    exact ⟨w.2.1, List.mem_finRange _, List.mem_map.2 ⟨_, mem, rfl⟩⟩

omit [DecidableEq α] in
theorem tagged_order (inputs : Inputs τ α) : inputs.tagged.Pairwise (·.1 ≤ ·.1) := by
  unfold tagged
  have sorted := @List.pairwise_mergeSort _ (fun a b : τ × Fin inputs.length × τ =>
    decide (toLex (a.1, toLex (a.2.1, a.2.2)) ≤ toLex (b.1, toLex (b.2.1, b.2.2))))
    (fun a b c first second => by simpa using le_trans (of_decide_eq_true first) (of_decide_eq_true second))
    (fun a b => by simpa using le_total _ _)
    ((List.finRange inputs.length).flatMap fun i => inputs[i].2.map fun iv => (iv.1, i, iv.2))
  exact sorted.imp fun le => Prod.Lex.monotone_fst _ _ (of_decide_eq_true le)

omit [DecidableEq α] in
/-- An input offers what its tagged intervals say. -/
theorem offers_iff_tagged : inputs.Offers d p ↔
    ∃ w ∈ inputs.tagged, inputs[w.2.1].1 = d ∧ w.1 ≤ p ∧ p < w.2.2 := by
  constructor
  · rintro ⟨input, mem, rfl, iv, mem', here⟩
    obtain ⟨i, bound, rfl⟩ := List.getElem_of_mem mem
    exact ⟨(iv.1, ⟨i, bound⟩, iv.2), mem_tagged.2 mem', rfl, here⟩
  · rintro ⟨w, mem, data, here⟩
    exact ⟨inputs[w.2.1], List.getElem_mem _, data, (w.1, w.2.2), mem_tagged.1 mem, here⟩

end Inputs

/-- Whatever windows its inputs have, a combined interval lists data of theirs. -/
theorem mem_of_combined [DecidableEq α] {lib : IntervalTrees τ} (lawful : lib.Lawful) {inputs : Inputs τ α}
    {iv : Interval τ (List α)} (mem : iv ∈ lib.intervals (combineIntervalTrees lib inputs)) :
    ∀ d ∈ iv.data, d ∈ inputs.map Prod.fst := by
  have swept (events : List (SweepEvent τ inputs.length)) : ∀ s : Inputs.Sweep α lib,
      (∀ iv ∈ lib.intervals s.target, ∀ d ∈ iv.data, d ∈ inputs.map Prod.fst) →
      ∀ iv ∈ lib.intervals (events.foldl (inputs.sweep lib) s).target, ∀ d ∈ iv.data, d ∈ inputs.map Prod.fst := by
    induction events with
    | nil => exact fun _ kept => kept
    | cons event events ih =>
      intro s kept
      apply ih
      unfold Inputs.sweep Inputs.Sweep.advance
      dsimp only
      split_ifs with advances
      · intro iv there
        rw [lawful.mem_add] at there
        cases there with
        | inl new =>
          subst new
          exact fun d listed => (List.mem_filter.1 listed).1
        | inr old => exact kept iv old
      · exact kept
  unfold combineIntervalTrees at mem
  split at mem
  · exact absurd mem (lawful.empty iv)
  · exact swept _ _ (fun iv there => absurd there (lawful.empty iv)) iv mem

/-- **The combination is exact.** The combined tree is disjoint, and what it holds at a point is the data of the inputs
that are open there, in order. -/
theorem combineIntervalTrees_exact [DecidableEq α] {lib : IntervalTrees τ} (lawful : lib.Lawful)
    {inputs : Inputs τ α} (proper : ∀ input ∈ inputs, ∀ iv ∈ input.2, iv.1 ≤ iv.2) :
    lib.Disjoint (combineIntervalTrees lib inputs) ∧ ∀ p ds,
      lib.Holds (combineIntervalTrees lib inputs) p ds ↔ ds = inputs.offering p ∧ ds ≠ [] := by
  unfold combineIntervalTrees
  cases tagged : inputs.tagged with
  | nil =>
    refine ⟨lawful.disjoint_empty, fun p ds => ?_⟩
    have unoffered (d : α) : ¬ inputs.Offers d p := by
      rw [Inputs.offers_iff_tagged, tagged]
      simp
    have none : inputs.offering p = [] := by
      simp [Inputs.offering, unoffered]
    rw [none]
    constructor
    · intro holds
      exact absurd holds lawful.not_holds_empty
    · rintro ⟨rfl, some⟩
      exact absurd rfl some
  | cons w rest =>
    have order := tagged ▸ inputs.tagged_order
    have coming : ∀ v ∈ w :: rest, w.1 ≤ v.1 := by
      intro v mem
      rcases List.mem_cons.1 mem with rfl | mem
      · exact le_rfl
      · exact List.rel_of_pairwise_cons order mem
    have start : Inputs.Swept inputs lib ⟨w.1, [], lib.empty⟩ [] (w :: rest) := by
      refine ⟨List.Perm.refl _, by simp, List.Pairwise.nil, coming, order, fun v mem => ?_,
        fun iv mem => absurd mem (lawful.empty iv), lawful.disjoint_empty, fun p before ds => ?_, fun p le d => ?_⟩
      · rw [← tagged, Inputs.mem_tagged] at mem
        exact proper _ (List.getElem_mem _) _ mem
      · have unoffered (d : α) : ¬ inputs.Offers d p := by
          rw [Inputs.offers_iff_tagged, tagged]
          rintro ⟨v, mem, -, here, -⟩
          exact absurd (here.trans_lt before) (not_lt.2 (coming v mem))
        have none : inputs.offering p = [] := by
          simp [Inputs.offering, unoffered]
        rw [none]
        constructor
        · intro holds
          exact absurd holds lawful.not_holds_empty
        · rintro ⟨rfl, some⟩
          exact absurd rfl some
      · rw [Inputs.offers_iff_tagged, tagged]
        simp
    have swept := start.sweeps lawful
    exact ⟨swept.disjoint, fun p ds => swept.holds_iff⟩

end SensorKit.Common
