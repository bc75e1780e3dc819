import SensorKit.Auto.OfferHistory
import SensorKit.Common.Intersection
import SensorKit.Lib.IntervalMerge

/-!
# Modes and their criteria

A mode's criteria each yield intervals, in any order. The mode's own are those that are common to all of them.
-/

namespace SensorKit.Auto

open Lib Common IntervalTrees

variable {lib : IntervalTrees ℤ}

/-- What evaluating a mode raises. -/
inductive ModeError where
  /-- A null interval. -/
  | value
  | criterion (kind : String)
deriving DecidableEq, Repr

/-- What a criterion yields: begins, ends and data. -/
abbrev IntervalList := List (ℤ × ℤ × Option (List String))

/-- Produces a list of valid time intervals. -/
abbrev Criterion (lib : IntervalTrees ℤ) := ModeContext lib → Except ModeError IntervalList

/-- `IntervalTree.from_tuples`. -/
def fromTuples (lib : IntervalTrees ℤ) (tuples : IntervalList) : Except ModeError (lib.Tree (Option (List String))) :=
  tuples.foldlM (fun tree iv =>
    if h : iv.1 < iv.2.1 then .ok (lib.add tree ⟨iv.1, iv.2.1, iv.2.2, h⟩) else .error .value) lib.empty

/-- The loop of `Mode.evaluate`, with the trees of the criteria before. -/
def evaluateTrees (merging : Merging lib) (context : ModeContext lib) :
    List (Criterion lib) → List (lib.Tree (Option (List String))) → Except ModeError (lib.Tree Unit)
  | [], trees => .ok (intersectIntervalTrees lib (trees.map lib.pairs))
  | criterion :: criteria, trees => do
    let tree ← fromTuples lib (← criterion context)
    -- The tree that is returned is empty.
    if (lib.intervals tree).isEmpty then return lib.empty
    else evaluateTrees merging context criteria (trees ++ [merging.mergeOverlaps tree])

/-- `Mode.evaluate`: an interval tree of the common intervals of all criteria. -/
def evaluateCriteria (merging : Merging lib) (context : ModeContext lib) (criteria : List (Criterion lib)) :
    Except ModeError (lib.Tree Unit) :=
  evaluateTrees merging context criteria []

/-! ## Criteria combine as AND -/

section Evaluate

variable {merging : Merging lib} {context : ModeContext lib} {ivs : IntervalList} {t : ℤ}
  {trees : List (lib.Tree (Option (List String)))}

/-- An interval of the list contains the instant. -/
def Yields (ivs : IntervalList) (t : ℤ) : Prop :=
  ∃ iv ∈ ivs, iv.1 ≤ t ∧ t < iv.2.1

instance : Decidable (Yields ivs t) :=
  inferInstanceAs (Decidable (∃ iv ∈ ivs, _))

/-- A tree from tuples has them as its intervals, unless one of them is null. -/
theorem mem_fromTuples (lawful : lib.Lawful) (proper : ∀ iv ∈ ivs, iv.1 < iv.2.1) :
    ∃ tree, fromTuples lib ivs = .ok tree ∧ ∀ iv, iv ∈ lib.intervals tree ↔ (iv.begin, iv.end, iv.data) ∈ ivs := by
  have adds (ivs : IntervalList) : ∀ tree : lib.Tree (Option (List String)), (∀ iv ∈ ivs, iv.1 < iv.2.1) → ∃ tree',
      ivs.foldlM (fun tree iv => if h : iv.1 < iv.2.1 then .ok (lib.add tree ⟨iv.1, iv.2.1, iv.2.2, h⟩)
        else .error .value) tree = Except.ok (ε := ModeError) tree' ∧
        ∀ iv, iv ∈ lib.intervals tree' ↔ iv ∈ lib.intervals tree ∨ (iv.begin, iv.end, iv.data) ∈ ivs := by
    induction ivs with
    | nil => exact fun tree _ => ⟨tree, rfl, by simp⟩
    | cons x ivs ih =>
      intro tree proper
      have lt := proper x (List.mem_cons_self ..)
      have rest : ∀ iv ∈ ivs, iv.1 < iv.2.1 := fun iv mem => proper iv (List.mem_cons_of_mem _ mem)
      obtain ⟨tree', added, members⟩ := ih (lib.add tree ⟨x.1, x.2.1, x.2.2, lt⟩) rest
      refine ⟨tree', ?_, fun iv => ?_⟩
      · rw [List.foldlM_cons, dif_pos lt]
        exact added
      · have same : iv = ⟨x.1, x.2.1, x.2.2, lt⟩ ↔ (iv.begin, iv.end, iv.data) = x := by
          obtain ⟨b, e, data, lt⟩ := iv
          obtain ⟨b', e', data'⟩ := x
          simp
        rw [members, lawful.mem_add, same, List.mem_cons, or_comm (a := _ = x), or_assoc]
  obtain ⟨tree, added, members⟩ := adds ivs lib.empty proper
  refine ⟨tree, added, fun iv => ?_⟩
  rw [members, or_iff_right (lawful.empty iv)]

theorem exists_fromTuples (lawful : lib.Lawful) (proper : ∀ iv ∈ ivs, iv.1 < iv.2.1) :
    ∃ tree, fromTuples lib ivs = .ok tree ∧ ∀ t, lib.Covers tree t ↔ Yields ivs t := by
  obtain ⟨tree, built, members⟩ := mem_fromTuples lawful proper
  refine ⟨tree, built, fun t => ?_⟩
  constructor
  · rintro ⟨iv, mem, here⟩
    exact ⟨_, (members iv).1 mem, here⟩
  · rintro ⟨iv, mem, here⟩
    exact ⟨⟨iv.1, iv.2.1, iv.2.2, proper iv mem⟩, (members _).2 mem, here⟩

/-- A null interval raises. -/
theorem fromTuples_error (null : ∃ iv ∈ ivs, ¬ iv.1 < iv.2.1) : fromTuples lib ivs = .error .value := by
  unfold fromTuples
  generalize (lib.empty : lib.Tree (Option (List String))) = tree
  induction ivs generalizing tree with
  | nil => simp at null
  | cons x ivs ih =>
    rw [List.foldlM_cons]
    split_ifs with lt
    · obtain ⟨iv, mem, bad⟩ := null
      rcases List.mem_cons.1 mem with rfl | mem
      · exact absurd lt bad
      · exact ih ⟨iv, mem, bad⟩ _
    · rfl

/-- The intersection of trees whose intervals are kept apart. -/
theorem intersect_trees (lawful : lib.Lawful) (some_ : trees ≠ []) (apart : ∀ tree ∈ trees, lib.Apart tree) :
    lib.Disjoint (intersectIntervalTrees lib (trees.map lib.pairs)) ∧
      ∀ t, lib.Covers (intersectIntervalTrees lib (trees.map lib.pairs)) t ↔ ∀ tree ∈ trees, lib.Covers tree t := by
  have proper : ∀ input ∈ trees.map lib.pairs, ∀ iv ∈ input, iv.1 < iv.2 := by
    simp only [List.forall_mem_map]
    intro tree mem
    unfold pairs
    simp only [List.forall_mem_map]
    exact fun iv _ => iv.lt
  have single : ∀ input ∈ trees.map lib.pairs, ∀ p : ℤ, input.countP (Spans p) ≤ 1 := by
    simp only [List.forall_mem_map]
    exact fun tree mem p => (apart tree mem).countP_pairs_le lawful p
  obtain ⟨disjoint, covers⟩ := intersectIntervalTrees_exact lawful (by simpa using some_) proper single
  refine ⟨disjoint, fun t => ?_⟩
  rw [covers]
  simp only [List.forall_mem_map]
  refine forall₂_congr fun tree _ => ?_
  unfold pairs
  simp only [List.mem_map, exists_exists_and_eq_and]
  rfl

/-- What the loop gives, from the trees of the criteria before. -/
theorem evaluateTrees_exact (lawful : lib.Lawful) (merges : merging.Lawful) {criteria : List (Criterion lib)}
    (yields : ∀ criterion ∈ criteria, ∃ ivs, criterion context = .ok ivs ∧ ∀ iv ∈ ivs, iv.1 < iv.2.1)
    (some_ : trees ≠ [] ∨ criteria ≠ []) (apart : ∀ tree ∈ trees, lib.Apart tree) :
    ∃ tree, evaluateTrees merging context criteria trees = .ok tree ∧ lib.Disjoint tree ∧
      ∀ t, lib.Covers tree t ↔ (∀ tree ∈ trees, lib.Covers tree t) ∧
        ∀ criterion ∈ criteria, ∃ ivs, criterion context = .ok ivs ∧ Yields ivs t := by
  induction criteria generalizing trees with
  | nil =>
    obtain ⟨disjoint, covers⟩ := intersect_trees lawful (some_.resolve_right (by simp)) apart
    exact ⟨_, rfl, disjoint, fun t => by simp [covers]⟩
  | cons criterion criteria ih =>
    obtain ⟨ivs, yielded, proper⟩ := yields criterion (List.mem_cons_self ..)
    obtain ⟨tree, built, covers⟩ := exists_fromTuples lawful proper
    have here (t : ℤ) : (∃ ivs, criterion context = .ok ivs ∧ Yields ivs t) ↔ lib.Covers tree t := by
      rw [covers]
      constructor
      · rintro ⟨ivs', yielded', has⟩
        exact Except.ok.inj (yielded'.symm.trans yielded) ▸ has
      · exact fun has => ⟨ivs, yielded, has⟩
    rw [evaluateTrees]
    simp only [yielded, built, bind, Except.bind]
    split_ifs with empty
    · refine ⟨lib.empty, rfl, lawful.disjoint_empty, fun t => ?_⟩
      have none : ¬ lib.Covers tree t := by
        rintro ⟨iv, mem, -⟩
        rw [List.isEmpty_iff.1 empty] at mem
        exact List.not_mem_nil mem
      constructor
      · rintro ⟨iv, mem, -⟩
        exact absurd mem (lawful.empty iv)
      · rintro ⟨-, all⟩
        exact absurd ((here t).1 (all criterion (List.mem_cons_self ..))) none
    · have merged : ∀ x ∈ trees ++ [merging.mergeOverlaps tree], lib.Apart x := by
        intro x mem
        rcases List.mem_append.1 mem with mem | mem
        · exact apart x mem
        · exact List.mem_singleton.1 mem ▸ merges.apart tree
      obtain ⟨result, evaluated, disjoint, exact_⟩ := ih (fun c mem => yields c (List.mem_cons_of_mem _ mem))
        (.inl (by simp)) merged
      refine ⟨result, evaluated, disjoint, fun t => ?_⟩
      rw [exact_]
      simp only [List.forall_mem_append, List.forall_mem_singleton, List.forall_mem_cons, here, merges.covers, and_assoc]

/-- **Criteria combine as AND.** A mode's intervals are disjoint, and have the instants that each criterion yields. -/
theorem evaluateCriteria_exact (lawful : lib.Lawful) (merges : merging.Lawful) {criteria : List (Criterion lib)}
    (some_ : criteria ≠ [])
    (yields : ∀ criterion ∈ criteria, ∃ ivs, criterion context = .ok ivs ∧ ∀ iv ∈ ivs, iv.1 < iv.2.1) :
    ∃ tree, evaluateCriteria merging context criteria = .ok tree ∧ lib.Disjoint tree ∧
      ∀ t, lib.Covers tree t ↔ ∀ criterion ∈ criteria, ∃ ivs, criterion context = .ok ivs ∧ Yields ivs t := by
  obtain ⟨tree, evaluated, disjoint, covers⟩ :=
    @evaluateTrees_exact lib merging context [] lawful merges criteria yields (.inr some_) (by simp)
  exact ⟨tree, evaluated, disjoint, fun t => by simp [covers]⟩

/-- Intervals that touch and overlap, in no order, beside others. -/
def windowCriteria : List (Criterion (lists ℤ)) :=
  [fun _ => .ok [(5, 9, none), (1, 3, none), (3, 6, none)], fun _ => .ok [(2, 4, some ["survey"]), (8, 12, none)]]

def idleContext : ModeContext (lists ℤ) := ⟨0, (lists ℤ).empty, (lists ℤ).empty⟩

theorem evaluateCriteria_exact_example : ∃ tree, evaluateCriteria (mergingLists ℤ) idleContext windowCriteria = .ok tree ∧
    (lists ℤ).Disjoint tree ∧ (lists ℤ).Covers tree 8 ∧ ¬ (lists ℤ).Covers tree 4 := by
  have yields : ∀ criterion ∈ windowCriteria, ∃ ivs, criterion idleContext = .ok ivs ∧ ∀ iv ∈ ivs, iv.1 < iv.2.1 := by
    unfold windowCriteria
    simp only [List.forall_mem_cons, List.not_mem_nil, false_imp_iff, implies_true, and_true]
    exact ⟨⟨_, rfl, by decide⟩, ⟨_, rfl, by decide⟩⟩
  have some_ : windowCriteria ≠ [] := List.cons_ne_nil _ _
  obtain ⟨tree, evaluated, disjoint, covers⟩ := evaluateCriteria_exact lawful_lists mergingLists_lawful some_ yields
  refine ⟨tree, evaluated, disjoint, (covers 8).2 ?_, fun covered => ?_⟩
  · unfold windowCriteria
    simp only [List.forall_mem_cons, List.not_mem_nil, false_imp_iff, implies_true, and_true]
    exact ⟨⟨_, rfl, by decide⟩, ⟨_, rfl, by decide⟩⟩
  · obtain ⟨ivs, yielded, has⟩ := (covers 4).1 covered _ (List.mem_cons_of_mem _ (List.mem_singleton_self _))
    cases yielded
    revert has
    decide

end Evaluate

end SensorKit.Auto
