import SensorKit.Common.IntervalSweep

/-!
# Intersecting interval trees

`intersect_interval_trees` counts, in one sweep over the endpoints of all its inputs, how many intervals are open. Where
no input has two that overlap, as many are open as inputs cover the point, so all of them do where the count is theirs.
-/

namespace SensorKit.Common

open Lib

variable {τ : Type} [LinearOrder τ]

/-- The events of the line sweep, from the open endpoints and the intervals still to come. -/
def intersectEvents (endpoints : List τ) : List (τ × τ) → List (τ × Bool)
  | [] => endpoints.map fun e => (e, false)
  | (left, right) :: rest =>
    ((endpoints.takeWhile (· ≤ left)).map fun e => (e, false)) ++
      (left, true) :: intersectEvents ((endpoints.dropWhile (· ≤ left)).orderedInsert (· ≤ ·) right) rest

/-- The sweep's count of open intervals, where all inputs have been open since, and the tree. -/
structure Intersection (lib : IntervalTrees τ) where
  depth : ℤ
  nextStart : Option τ
  target : lib.Tree Unit

namespace Intersection

variable {lib : IntervalTrees τ}

/-- One turn of the sweep over `n` inputs. -/
def turn (n : ℕ) (s : Intersection lib) (event : τ × Bool) : Intersection lib :=
  let depth := s.depth + if event.2 then 1 else -1
  if depth = n then { s with depth, nextStart := s.nextStart.or (some event.1) }
  else
    match s.nextStart with
    | none => { s with depth }
    | some start =>
      if h : start < event.1 then { depth, nextStart := none, target := lib.add s.target ⟨start, event.1, (), h⟩ }
      else { s with depth, nextStart := none }

end Intersection

/-- The intervals of all inputs, merged in order. -/
def merged (inputs : List (List (τ × τ))) : List (τ × τ) :=
  inputs.flatten.mergeSort fun a b => toLex a ≤ toLex b

/-- `intersect_interval_trees`, with an empty target. -/
def intersectIntervalTrees (lib : IntervalTrees τ) (inputs : List (List (τ × τ))) : lib.Tree Unit :=
  ((intersectEvents [] (merged inputs)).foldl (Intersection.turn inputs.length) ⟨0, none, lib.empty⟩).target

/-! ## The sweep -/

/-- The interval contains the point. -/
def Spans (p : τ) (iv : τ × τ) : Prop :=
  iv.1 ≤ p ∧ p < iv.2

instance (p : τ) : DecidablePred (Spans p) :=
  fun _ => inferInstanceAs (Decidable (_ ∧ _))

section Sweep

/-- What stays open after the endpoints up to a point have been taken off. -/
theorem lt_of_mem_dropWhile_le {endpoints : List τ} {left e : τ} (sorted : endpoints.Pairwise (· ≤ ·))
    (mem : e ∈ endpoints.dropWhile (· ≤ left)) : left < e := by
  induction endpoints with
  | nil => simp at mem
  | cons x endpoints ih =>
    obtain ⟨first, sorted⟩ := List.pairwise_cons.1 sorted
    by_cases closed : x ≤ left
    · rw [List.dropWhile_cons_of_pos (by simpa using closed)] at mem
      exact ih sorted mem
    · rw [List.dropWhile_cons_of_neg (by simpa using closed)] at mem
      rcases List.mem_cons.1 mem with rfl | mem
      · exact not_le.1 closed
      · exact (not_le.1 closed).trans_le (first e mem)

variable {lib : IntervalTrees τ} {n : ℕ} {count : τ → ℕ} {left right p : τ} {s : Intersection lib} {endpoints : List τ}
  {rest : List (τ × τ)}

/-- The tree has the point, or the sweep is going to add it. -/
def Intersection.Has (s : Intersection lib) (p : τ) : Prop :=
  lib.Covers s.target p ∨ ∃ start, s.nextStart = some start ∧ start ≤ p

/-- What has been added is right up to the last endpoint, and what is open there or still to come makes up the count. -/
structure Counted (n : ℕ) (count : τ → ℕ) (left : τ) (s : Intersection lib) (endpoints : List τ) (rest : List (τ × τ)) :
    Prop where
  depth : s.depth = endpoints.length
  most : endpoints.length ≤ n
  since : s.nextStart.isSome ↔ endpoints.length = n
  started : ∀ start, s.nextStart = some start → start ≤ left
  later : ∀ e ∈ endpoints, left ≤ e
  sorted : endpoints.Pairwise (· ≤ ·)
  coming : ∀ w ∈ rest, left ≤ w.1
  order : rest.Pairwise (·.1 ≤ ·.1)
  proper : ∀ w ∈ rest, w.1 < w.2
  ended : ∀ iv ∈ lib.intervals s.target, iv.end ≤ left
  apart : ∀ start, s.nextStart = some start → ∀ iv ∈ lib.intervals s.target, iv.end ≤ start
  disjoint : lib.Disjoint s.target
  has : ∀ p < left, s.Has p ↔ count p = n
  live : ∀ p, left ≤ p → count p = endpoints.countP (p < ·) + rest.countP (Spans p)

namespace Counted

section

variable (h : Counted n count left s endpoints rest) (opens : ∀ e ∈ endpoints, right ≤ e)
  (comes : ∀ w ∈ rest, right ≤ w.1)
include h opens comes

/-- Nothing changes before the next endpoint. -/
theorem count_eq (le : left ≤ p) (lt : p < right) : count p = endpoints.length := by
  have open_ : endpoints.countP (p < ·) = endpoints.length :=
    List.countP_eq_length.2 fun e mem => decide_eq_true (lt.trans_le (opens e mem))
  have none : rest.countP (Spans p) = 0 := by
    refine List.countP_eq_zero.2 fun w mem spans => ?_
    exact absurd ((of_decide_eq_true spans).1.trans_lt lt) (not_lt.2 (comes w mem))
  rw [h.live p le, open_, none]
  omega

/-- What the sweep has before the next endpoint. -/
theorem has_iff (lt : p < right) : s.Has p ↔ count p = n := by
  by_cases before : p < left
  · exact h.has p before
  · have after := not_lt.1 before
    have uncovered : ¬ lib.Covers s.target p := by
      rintro ⟨iv, mem, here⟩
      exact absurd (here.2.trans_le (h.ended iv mem)) before
    rw [h.count_eq opens comes after lt, ← h.since]
    unfold Intersection.Has
    rw [or_iff_right uncovered, Option.isSome_iff_exists]
    constructor
    · rintro ⟨start, found, -⟩
      exact ⟨start, found⟩
    · rintro ⟨start, found⟩
      exact ⟨start, found, (h.started start found).trans after⟩

end

/-- The first open interval ends. -/
theorem close (lawful : lib.Lawful) {e : τ} (h : Counted n count left s (e :: endpoints) rest)
    (before : ∀ w ∈ rest, e ≤ w.1) : Counted n count e (s.turn n (e, false)) endpoints rest := by
  have least : ∀ x ∈ e :: endpoints, e ≤ x := by
    intro x mem
    rcases List.mem_cons.1 mem with rfl | mem
    · exact le_rfl
    · exact List.rel_of_pairwise_cons h.sorted mem
  have le : left ≤ e := h.later e (List.mem_cons_self ..)
  have depth := h.depth
  have most := h.most
  rw [List.length_cons] at depth most
  have fewer : s.depth + -1 ≠ (n : ℤ) := by omega
  have same (p : τ) (lt : p < e) := h.has_iff least before lt
  have live : ∀ p, e ≤ p → count p = endpoints.countP (p < ·) + rest.countP (Spans p) := by
    intro p after
    rw [h.live p (le.trans after), List.countP_cons_of_neg (by simpa using after)]
  have since : endpoints.length ≠ n := by omega
  have later : ∀ x ∈ endpoints, e ≤ x := fun x mem => least x (List.mem_cons_of_mem e mem)
  unfold Intersection.turn
  simp only [Bool.false_eq_true, if_false, fewer]
  cases found : s.nextStart with
  | none =>
    refine ⟨by dsimp only; omega, by omega, by simp [since], by simp, later, h.sorted.of_cons, before, h.order, h.proper,
      fun iv mem => (h.ended iv mem).trans le, by simp, h.disjoint, fun p lt => ?_, live⟩
    rw [← same p lt]
    unfold Intersection.Has
    simp [found]
  | some start =>
    dsimp only
    have began := h.apart start found
    split_ifs with some_
    · refine ⟨by dsimp only; omega, by omega, by simp [since], by simp, later, h.sorted.of_cons, before, h.order, h.proper,
        fun iv mem => ?_, by simp, lawful.disjoint_add h.disjoint ?_, fun p lt => ?_, live⟩
      · rcases (lawful.mem_add ..).1 mem with rfl | mem
        · exact le_rfl
        · exact (h.ended iv mem).trans le
      · rintro p d here ⟨iv, mem, there, -⟩
        exact absurd (there.2.trans_le (began iv mem)) (not_lt.2 here.1)
      · rw [← same p lt]
        unfold Intersection.Has IntervalTrees.Covers
        simp only [lawful.mem_add, or_and_right, exists_or, exists_eq_left, found, Option.some.injEq, exists_eq_left',
          reduceCtorEq, false_and, exists_false, or_false, Interval.Contains, lt, and_true]
        exact or_comm
    · refine ⟨by dsimp only; omega, by omega, by simp [since], by simp, later, h.sorted.of_cons, before, h.order, h.proper,
        fun iv mem => (h.ended iv mem).trans le, by simp, h.disjoint, fun p lt => ?_, live⟩
      rw [← same p lt]
      unfold Intersection.Has
      have late : ¬ start ≤ p := fun early => some_ (early.trans_lt lt)
      simp [found, late]

/-- The next interval begins. -/
theorem open_ {w : τ × τ} (bound : ∀ p, count p ≤ n) (h : Counted n count left s endpoints (w :: rest))
    (opens : ∀ e ∈ endpoints, w.1 < e) :
    Counted n count w.1 (s.turn n (w.1, true)) (endpoints.orderedInsert (· ≤ ·) w.2) rest := by
  have le : left ≤ w.1 := h.coming w (List.mem_cons_self ..)
  have proper : w.1 < w.2 := h.proper w (List.mem_cons_self ..)
  have comes : ∀ v ∈ w :: rest, w.1 ≤ v.1 := by
    intro v mem
    rcases List.mem_cons.1 mem with rfl | mem
    · exact le_rfl
    · exact List.rel_of_pairwise_cons h.order mem
  have all : endpoints.countP (w.1 < ·) = endpoints.length :=
    List.countP_eq_length.2 fun e mem => decide_eq_true (opens e mem)
  have more : endpoints.length + 1 ≤ n := by
    have here := h.live w.1 le
    have spans : Spans w.1 w := ⟨le_rfl, proper⟩
    rw [all, List.countP_cons_of_pos (by simpa using spans)] at here
    have most := bound w.1
    omega
  have none : s.nextStart = none := by
    rw [← Option.not_isSome_iff_eq_none, h.since]
    omega
  have same (p : τ) (lt : p < w.1) := h.has_iff (fun e mem => (opens e mem).le) comes lt
  have inserted : (endpoints.orderedInsert (· ≤ ·) w.2).length = endpoints.length + 1 := List.orderedInsert_length ..
  have live : ∀ p, w.1 ≤ p →
      count p = (endpoints.orderedInsert (· ≤ ·) w.2).countP (p < ·) + rest.countP (Spans p) := by
    intro p after
    rw [h.live p (le.trans after), (List.perm_orderedInsert (· ≤ ·) w.2 endpoints).countP_eq, List.countP_cons,
      List.countP_cons]
    have spans : Spans p w ↔ p < w.2 := and_iff_right after
    simp only [spans]
    omega
  have later : ∀ e ∈ endpoints.orderedInsert (· ≤ ·) w.2, w.1 ≤ e := by
    intro e mem
    rcases (List.mem_orderedInsert _).1 mem with rfl | mem
    · exact proper.le
    · exact (opens e mem).le
  have sorted := h.sorted.orderedInsert w.2
  have coming : ∀ v ∈ rest, w.1 ≤ v.1 := fun v mem => comes v (List.mem_cons_of_mem w mem)
  have proper' : ∀ v ∈ rest, v.1 < v.2 := fun v mem => h.proper v (List.mem_cons_of_mem w mem)
  have depth := h.depth
  unfold Intersection.turn
  simp only [if_true, none, Option.none_or]
  split_ifs with full
  · refine ⟨by dsimp only; omega, by omega, by simp; omega, by simp, later, sorted, coming, h.order.of_cons, proper',
      fun iv mem => (h.ended iv mem).trans le, fun start is iv mem => ?_, h.disjoint, fun p lt => ?_, live⟩
    · cases is
      exact (h.ended iv mem).trans le
    · rw [← same p lt]
      unfold Intersection.Has
      simp [none, lt]
  · refine ⟨by dsimp only; omega, by omega, by simp; omega, by simp, later, sorted, coming, h.order.of_cons, proper',
      fun iv mem => (h.ended iv mem).trans le, by simp, h.disjoint, fun p lt => ?_, live⟩
    rw [← same p lt]
    unfold Intersection.Has
    simp [none]

/-- The intervals that end before anything else begins. -/
theorem closes (lawful : lib.Lawful) {ended : List τ} (h : Counted n count left s (ended ++ endpoints) rest)
    (before : ∀ e ∈ ended, ∀ w ∈ rest, e ≤ w.1) :
    ∃ left, Counted n count left ((ended.map fun e => (e, false)).foldl (Intersection.turn n) s) endpoints rest := by
  induction ended generalizing s left with
  | nil => exact ⟨left, h⟩
  | cons e ended ih =>
    have closed := h.close lawful (before e (List.mem_cons_self ..))
    exact ih closed fun x mem => before x (List.mem_cons_of_mem e mem)

/-- The whole sweep. -/
theorem sweeps (lawful : lib.Lawful) (bound : ∀ p, count p ≤ n) (h : Counted n count left s endpoints rest) :
    ∃ left, Counted n count left ((intersectEvents endpoints rest).foldl (Intersection.turn n) s) [] [] := by
  induction rest generalizing s endpoints left with
  | nil =>
    rw [← List.append_nil endpoints] at h
    obtain ⟨left, closed⟩ := h.closes lawful (by simp)
    exact ⟨left, closed⟩
  | cons w rest ih =>
    have sorted := h.sorted
    rw [← List.takeWhile_append_dropWhile (p := (· ≤ w.1)) (l := endpoints)] at h
    have before : ∀ e ∈ endpoints.takeWhile (· ≤ w.1), ∀ v ∈ w :: rest, e ≤ v.1 := by
      intro e mem v later
      have le : e ≤ w.1 := of_decide_eq_true (List.all_eq_true.1 List.all_takeWhile e mem)
      rcases List.mem_cons.1 later with rfl | later
      · exact le
      · exact le.trans (List.rel_of_pairwise_cons h.order later)
    obtain ⟨left', closed⟩ := h.closes lawful before
    have opened := closed.open_ bound fun e mem => lt_of_mem_dropWhile_le sorted mem
    obtain ⟨last, done⟩ := ih opened
    refine ⟨last, ?_⟩
    rw [intersectEvents, List.foldl_append, List.foldl_cons]
    exact done

/-- What the tree covers in the end. -/
theorem covers_iff (some_ : 0 < n) (h : Counted n count left s [] []) : lib.Covers s.target p ↔ count p = n := by
  have closed : s.nextStart = none := by
    rw [← Option.not_isSome_iff_eq_none, h.since, List.length_nil]
    omega
  by_cases before : p < left
  · rw [← h.has p before]
    unfold Intersection.Has
    simp [closed]
  · have after := not_lt.1 before
    rw [h.live p after, List.countP_nil, List.countP_nil]
    constructor
    · rintro ⟨iv, mem, here⟩
      exact absurd (here.2.trans_le (h.ended iv mem)) before
    · intro none
      omega

end Counted

end Sweep

/-! ## What is common to all inputs -/

section Exact

variable {inputs : List (List (τ × τ))} {p : τ}

theorem merged_order (inputs : List (List (τ × τ))) : (merged inputs).Pairwise (·.1 ≤ ·.1) := by
  have sorted := @List.pairwise_mergeSort _ (fun a b : τ × τ => decide (toLex a ≤ toLex b))
    (fun a b c first second => by simpa using le_trans (of_decide_eq_true first) (of_decide_eq_true second))
    (fun a b => by simpa using le_total _ _) inputs.flatten
  exact sorted.imp fun le => Prod.Lex.monotone_fst _ _ (of_decide_eq_true le)

/-- Where no input has two intervals, as many intervals have a point as inputs cover it. -/
theorem countP_merged (single : ∀ input ∈ inputs, input.countP (Spans p) ≤ 1) :
    (merged inputs).countP (Spans p) = inputs.countP fun input => ∃ iv ∈ input, Spans p iv := by
  rw [merged, (List.mergeSort_perm ..).countP_eq]
  induction inputs with
  | nil => rfl
  | cons input inputs ih =>
    have one := single input (List.mem_cons_self ..)
    rw [List.flatten_cons, List.countP_append, ih fun other mem => single other (List.mem_cons_of_mem input mem),
      List.countP_cons]
    have covers : 0 < input.countP (Spans p) ↔ ∃ iv ∈ input, Spans p iv := by
      rw [List.countP_pos_iff]
      simp
    split_ifs with here
    · have some_ := covers.2 (by simpa using here)
      omega
    · have none : ¬ 0 < input.countP (Spans p) := fun some_ => here (by simpa using covers.1 some_)
      omega

/-- **The intersection is exact**: where no input has overlapping intervals, the tree has the points that all cover. -/
theorem intersectIntervalTrees_exact {lib : IntervalTrees τ} (lawful : lib.Lawful) (some_ : inputs ≠ [])
    (proper : ∀ input ∈ inputs, ∀ iv ∈ input, iv.1 < iv.2)
    (single : ∀ input ∈ inputs, ∀ p : τ, input.countP (Spans p) ≤ 1) :
    lib.Disjoint (intersectIntervalTrees lib inputs) ∧
      ∀ p, lib.Covers (intersectIntervalTrees lib inputs) p ↔ ∀ input ∈ inputs, ∃ iv ∈ input, Spans p iv := by
  have positive : 0 < inputs.length := List.length_pos_iff.2 some_
  have counts (p : τ) := countP_merged fun input mem => single input mem p
  have bound (p : τ) : (merged inputs).countP (Spans p) ≤ inputs.length := by
    rw [counts]
    exact List.countP_le_length
  have all (p : τ) : (merged inputs).countP (Spans p) = inputs.length ↔ ∀ input ∈ inputs, ∃ iv ∈ input, Spans p iv := by
    rw [counts, List.countP_eq_length]
    simp
  unfold intersectIntervalTrees
  cases sorted : merged inputs with
  | nil =>
    have none (p : τ) : ¬ ∀ input ∈ inputs, ∃ iv ∈ input, Spans p iv := by
      rw [← all p, sorted, List.countP_nil]
      omega
    refine ⟨lawful.disjoint_empty, fun p => iff_of_false ?_ (none p)⟩
    rintro ⟨iv, mem, -⟩
    exact lawful.empty iv mem
  | cons w rest =>
    have order := sorted ▸ merged_order inputs
    have first : ∀ v ∈ w :: rest, w.1 ≤ v.1 := by
      intro v mem
      rcases List.mem_cons.1 mem with rfl | mem
      · exact le_rfl
      · exact List.rel_of_pairwise_cons order mem
    have start : Counted inputs.length (fun p => (w :: rest).countP fun iv => Spans p iv) w.1 ⟨0, none, lib.empty (δ := Unit)⟩ []
        (w :: rest) := by
      refine ⟨rfl, by simp, by simp; omega, by simp, by simp, .nil, first, order, fun v mem => ?_,
        fun iv mem => absurd mem (lawful.empty iv), by simp, lawful.disjoint_empty, fun p before => ?_, by simp⟩
      · rw [← sorted, merged, List.mem_mergeSort] at mem
        obtain ⟨input, here, mem⟩ := List.mem_flatten.1 mem
        exact proper input here v mem
      · have unopened : (w :: rest).countP (fun iv => Spans p iv) = 0 := by
          refine List.countP_eq_zero.2 fun v mem spans => ?_
          exact absurd ((of_decide_eq_true spans).1.trans_lt before) (not_lt.2 (first v mem))
        rw [unopened]
        refine iff_of_false ?_ (by omega)
        rintro (⟨iv, mem, -⟩ | ⟨start, found, -⟩)
        · exact lawful.empty iv mem
        · cases found
    obtain ⟨left, done⟩ := start.sweeps lawful fun p => sorted ▸ bound p
    refine ⟨done.disjoint, fun p => ?_⟩
    rw [done.covers_iff positive, ← all p, sorted]

end Exact

end SensorKit.Common
