import Mathlib.Data.List.Pairwise
import Mathlib.Order.MinMax
import SensorKit.Lib.IntervalTree

/-!
# Merging the intervals of a tree

Intervals that overlap or touch are merged into one. What the tree covers stays, and its intervals are kept apart, so
two trees that cover the same points are merged to the same intervals.
-/

namespace SensorKit.Lib

namespace IntervalTrees

variable {τ δ : Type} [LinearOrder τ]

/-- No two intervals overlap or touch. -/
def Apart (lib : IntervalTrees τ) (tree : lib.Tree δ) : Prop :=
  ∀ iv ∈ lib.intervals tree, ∀ iv' ∈ lib.intervals tree, iv ≠ iv' → iv.end < iv'.begin ∨ iv'.end < iv.begin

/-- `merge_overlaps(strict=False)` of an implementation: merged intervals have no data. -/
structure Merging (lib : IntervalTrees τ) where
  mergeOverlaps {δ : Type} : lib.Tree (Option δ) → lib.Tree (Option δ)

/-- The merge as documented. -/
structure Merging.Lawful {lib : IntervalTrees τ} (merging : Merging lib) : Prop where
  covers {δ : Type} (tree : lib.Tree (Option δ)) (p : τ) :
    lib.Covers (merging.mergeOverlaps tree) p ↔ lib.Covers tree p
  apart {δ : Type} (tree : lib.Tree (Option δ)) : lib.Apart (merging.mergeOverlaps tree)

/-- The ends of the intervals of a tree. -/
def pairs (lib : IntervalTrees τ) (tree : lib.Tree δ) : List (τ × τ) :=
  (lib.intervals tree).map fun iv => (iv.begin, iv.end)

section Apart

variable {δ' : Type} {lib : IntervalTrees τ} {tree : lib.Tree δ} {tree' : lib.Tree δ'}

section

variable (apart : lib.Apart tree)
include apart

theorem Apart.disjoint : lib.Disjoint tree := by
  intro iv mem iv' mem' p here here'
  by_contra other
  rcases apart iv mem iv' mem' other with before | after
  · exact absurd (here.2.trans before) (not_lt.2 here'.1)
  · exact absurd (here'.2.trans after) (not_lt.2 here.1)

/-- The end of an interval is not covered. -/
theorem Apart.not_covers_end {iv : Interval τ δ} (mem : iv ∈ lib.intervals tree) : ¬ lib.Covers tree iv.end := by
  rintro ⟨iv', mem', le, lt⟩
  by_cases same : iv = iv'
  · subst same
    exact absurd lt (lt_irrefl _)
  · rcases apart iv mem iv' mem' same with before | after
    · exact absurd before (not_lt.2 le)
    · exact absurd (lt.trans after) (not_lt.2 iv.lt.le)

/-- An interval begins no later than one of a tree that covers the same and has a point of it. -/
theorem Apart.begin_le (same : ∀ p, lib.Covers tree p ↔ lib.Covers tree' p) {iv : Interval τ δ} {iv' : Interval τ δ'}
    (mem : iv ∈ lib.intervals tree) (mem' : iv' ∈ lib.intervals tree') {p : τ} (here : iv.Contains p)
    (here' : iv'.Contains p) : iv.begin ≤ iv'.begin := by
  by_contra later
  have later := not_le.1 later
  -- What covers the other's begin ends before this interval begins, where the other one goes on.
  obtain ⟨first, inside, le, lt⟩ := (same iv'.begin).2 ⟨iv', mem', Interval.contains_begin⟩
  have other : first ≠ iv := by
    rintro rfl
    exact absurd le (not_le.2 later)
  have before : first.end < iv.begin := by
    rcases apart first inside iv mem other with before | after
    · exact before
    · exact absurd (after.trans_le le) (not_lt.2 (later.le.trans iv.lt.le))
  refine apart.not_covers_end inside ((same first.end).2 ⟨iv', mem', lt.le, ?_⟩)
  exact before.trans_le (here.1.trans here'.2.le)

/-- An interval ends no earlier than one of a tree that covers the same and has a point of it. -/
theorem Apart.le_end (same : ∀ p, lib.Covers tree p ↔ lib.Covers tree' p) {iv : Interval τ δ} {iv' : Interval τ δ'}
    (mem : iv ∈ lib.intervals tree) (mem' : iv' ∈ lib.intervals tree') {p : τ} (here : iv.Contains p)
    (here' : iv'.Contains p) : iv'.end ≤ iv.end := by
  by_contra earlier
  refine apart.not_covers_end mem ((same iv.end).2 ⟨iv', mem', ?_, not_le.1 earlier⟩)
  exact here'.1.trans here.2.le

/-- **What is covered decides the intervals** of trees whose intervals are kept apart. -/
theorem Apart.pairs_subset (apart' : lib.Apart tree') (same : ∀ p, lib.Covers tree p ↔ lib.Covers tree' p) :
    ∀ x ∈ lib.pairs tree, x ∈ lib.pairs tree' := by
  intro x mem
  obtain ⟨iv, listed, rfl⟩ := List.mem_map.1 mem
  replace mem : iv ∈ lib.intervals tree := listed
  obtain ⟨iv', mem', here'⟩ := (same iv.begin).1 ⟨iv, mem, Interval.contains_begin⟩
  have here : iv.Contains iv.begin := Interval.contains_begin
  have begins := (apart.begin_le same mem mem' here here').antisymm
    (apart'.begin_le (fun p => (same p).symm) mem' mem here' here)
  have ends := (apart'.le_end (fun p => (same p).symm) mem' mem here' here).antisymm
    (apart.le_end same mem mem' here here')
  exact List.mem_map.2 ⟨iv', mem', Prod.ext begins.symm ends.symm⟩

end

theorem Apart.pairs_nodup (lawful : lib.Lawful) (apart : lib.Apart tree) : (lib.pairs tree).Nodup := by
  refine List.Nodup.map_on (fun iv mem iv' mem' same => ?_) (lawful.nodup tree)
  have begins : iv.begin = iv'.begin := congrArg Prod.fst same
  exact apart.disjoint iv mem iv' mem' iv.begin Interval.contains_begin (begins ▸ Interval.contains_begin)

/-- At most one interval contains a point. -/
theorem Apart.countP_pairs_le (lawful : lib.Lawful) (apart : lib.Apart tree) (p : τ) :
    (lib.pairs tree).countP (fun x => x.1 ≤ p ∧ p < x.2) ≤ 1 := by
  have one {x y : τ × τ} (mem : x ∈ (lib.pairs tree).filter fun x => x.1 ≤ p ∧ p < x.2)
      (mem' : y ∈ (lib.pairs tree).filter fun x => x.1 ≤ p ∧ p < x.2) : x = y := by
    rw [List.mem_filter, decide_eq_true_eq] at mem mem'
    obtain ⟨listed, here⟩ := mem
    obtain ⟨listed', here'⟩ := mem'
    obtain ⟨iv, inside, rfl⟩ := List.mem_map.1 listed
    obtain ⟨iv', inside', rfl⟩ := List.mem_map.1 listed'
    rw [apart.disjoint iv inside iv' inside' p here here']
  have nodup := (apart.pairs_nodup lawful).filter fun x => x.1 ≤ p ∧ p < x.2
  rw [List.countP_eq_length_filter]
  cases filtered : (lib.pairs tree).filter fun x => x.1 ≤ p ∧ p < x.2 with
  | nil => simp
  | cons x rest =>
    cases rest with
    | nil => simp
    | cons y rest =>
      rw [filtered] at nodup
      have same : x = y := one (by rw [filtered]; simp) (by rw [filtered]; simp)
      simp [same] at nodup

end Apart

/-! ## Merging lists -/

section Lists

/-- Merge the intervals that follow as long as they overlap or touch. -/
def absorb (lower : Interval τ (Option δ)) : List (Interval τ (Option δ)) → List (Interval τ (Option δ))
  | [] => [lower]
  | higher :: rest =>
    if higher.begin ≤ lower.end then
      absorb ⟨lower.begin, max lower.end higher.end, none, lower.lt.trans_le (le_max_left _ _)⟩ rest
    else lower :: absorb higher rest

def coalesce : List (Interval τ (Option δ)) → List (Interval τ (Option δ))
  | [] => []
  | lower :: rest => absorb lower rest

variable {lower iv : Interval τ (Option δ)} {ivs : List (Interval τ (Option δ))} {p : τ}

section

variable (first : ∀ iv ∈ ivs, lower.begin ≤ iv.begin) (order : ivs.Pairwise (·.begin ≤ ·.begin))
include first order

theorem exists_absorb : (∃ iv ∈ absorb lower ivs, iv.Contains p) ↔ ∃ iv ∈ lower :: ivs, iv.Contains p := by
  induction ivs generalizing lower with
  | nil => rfl
  | cons higher ivs ih =>
    obtain ⟨least, order⟩ := List.pairwise_cons.1 order
    have le : lower.begin ≤ higher.begin := first higher (List.mem_cons_self ..)
    rw [absorb]
    split_ifs with touches
    · have joined := @ih ⟨lower.begin, max lower.end higher.end, none, lower.lt.trans_le (le_max_left _ _)⟩
        (fun iv mem => first iv (List.mem_cons_of_mem _ mem)) order
      rw [joined]
      simp only [List.exists_mem_cons_iff, ← or_assoc]
      refine or_congr_left ?_
      unfold Interval.Contains
      dsimp only
      rw [lt_max_iff]
      constructor
      · rintro ⟨after, before | before⟩
        · exact .inl ⟨after, before⟩
        · by_cases inside : p < lower.end
          · exact .inl ⟨after, inside⟩
          · exact .inr ⟨touches.trans (not_lt.1 inside), before⟩
      · rintro (⟨after, before⟩ | ⟨after, before⟩)
        · exact ⟨after, .inl before⟩
        · exact ⟨le.trans after, .inr before⟩
    · rw [List.exists_mem_cons_iff, ih least order, List.exists_mem_cons_iff, List.exists_mem_cons_iff,
        List.exists_mem_cons_iff]

theorem begin_le_absorb : ∀ iv ∈ absorb lower ivs, lower.begin ≤ iv.begin := by
  induction ivs generalizing lower with
  | nil => simp [absorb]
  | cons higher ivs ih =>
    obtain ⟨least, order⟩ := List.pairwise_cons.1 order
    have rest : ∀ iv ∈ ivs, lower.begin ≤ iv.begin := fun iv mem => first iv (List.mem_cons_of_mem _ mem)
    rw [absorb]
    split_ifs with touches
    · exact ih rest order
    · intro iv mem
      rcases List.mem_cons.1 mem with rfl | mem
      · exact le_rfl
      · exact (first higher (List.mem_cons_self ..)).trans (ih least order iv mem)

theorem absorb_apart : (absorb lower ivs).Pairwise (·.end < ·.begin) := by
  induction ivs generalizing lower with
  | nil => simp [absorb]
  | cons higher ivs ih =>
    obtain ⟨least, order⟩ := List.pairwise_cons.1 order
    rw [absorb]
    split_ifs with touches
    · exact ih (fun iv mem => first iv (List.mem_cons_of_mem _ mem)) order
    · refine List.pairwise_cons.2 ⟨fun iv mem => ?_, ih least order⟩
      exact (not_le.1 touches).trans_le (begin_le_absorb least order iv mem)

end

/-- The intervals in the order of their begins. -/
def inOrder (ivs : List (Interval τ (Option δ))) : List (Interval τ (Option δ)) :=
  ivs.mergeSort fun a b => a.begin ≤ b.begin

theorem inOrder_order (ivs : List (Interval τ (Option δ))) : (inOrder ivs).Pairwise (·.begin ≤ ·.begin) := by
  have sorted := @List.pairwise_mergeSort _ (fun a b : Interval τ (Option δ) => decide (a.begin ≤ b.begin))
    (fun a b c first second => by simpa using le_trans (of_decide_eq_true first) (of_decide_eq_true second))
    (fun a b => by simpa using le_total _ _) ivs
  exact sorted.imp of_decide_eq_true

section

variable (order : ivs.Pairwise (·.begin ≤ ·.begin))
include order

theorem coalesce_apart : (coalesce ivs).Pairwise (·.end < ·.begin) := by
  cases ivs with
  | nil => exact .nil
  | cons lower rest =>
    obtain ⟨first, order⟩ := List.pairwise_cons.1 order
    exact absorb_apart first order

theorem exists_coalesce : (∃ iv ∈ coalesce ivs, iv.Contains p) ↔ ∃ iv ∈ ivs, iv.Contains p := by
  cases ivs with
  | nil => rfl
  | cons lower rest =>
    obtain ⟨first, order⟩ := List.pairwise_cons.1 order
    exact exists_absorb first order

theorem coalesce_nodup : (coalesce ivs).Nodup := by
  refine (coalesce_apart order).imp fun {a b} before same => ?_
  subst same
  exact absurd before (not_lt.2 a.lt.le)

end

variable (τ) in
/-- Merging, for interval trees as lists. -/
def mergingLists : Merging (lists τ) where
  mergeOverlaps tree := ⟨coalesce (inOrder tree.1), coalesce_nodup (inOrder_order tree.1)⟩

theorem mergingLists_lawful : (mergingLists τ).Lawful := by
  refine ⟨fun tree p => ?_, fun {δ} tree => ?_⟩
  · show (∃ iv ∈ coalesce (inOrder tree.1), iv.Contains p) ↔ ∃ iv ∈ tree.1, iv.Contains p
    rw [exists_coalesce (inOrder_order tree.1)]
    simp only [inOrder, List.mem_mergeSort]
  · intro iv mem iv' mem' other
    have symmetric : Std.Symm fun a b : Interval τ (Option δ) => a.end < b.begin ∨ b.end < a.begin := ⟨fun _ _ => Or.symm⟩
    have pairwise : (coalesce (inOrder tree.1)).Pairwise fun a b => a.end < b.begin ∨ b.end < a.begin :=
      (coalesce_apart (inOrder_order tree.1)).imp .inl
    exact pairwise.forall mem mem' other

end Lists

end IntervalTrees

end SensorKit.Lib
