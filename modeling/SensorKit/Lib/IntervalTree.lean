import Mathlib.Data.List.Dedup
import Mathlib.Order.Lattice

/-!
# Interval trees

An interval tree is a set of half-open intervals with data. What a program may rely on is which intervals each
operation leaves in a tree; the order in which a tree is iterated is its own. `Holds` reads a tree as a relation
between points and data, and what the operations do to it is all that their users need.
-/

namespace SensorKit.Lib

/-- An interval contains its begin and not its end. None is empty. -/
structure Interval (τ δ : Type) [LT τ] where
  begin : τ
  «end» : τ
  data : δ
  lt : begin < «end»
deriving DecidableEq

section Interval

variable {τ δ : Type} [LinearOrder τ] {iv iv' : Interval τ δ} {p : τ}

theorem Interval.ext (begins : iv.begin = iv'.begin) (ends : iv.end = iv'.end) (data : iv.data = iv'.data) :
    iv = iv' := by
  cases iv
  cases iv'
  simp_all

def Interval.Contains (iv : Interval τ δ) (p : τ) : Prop :=
  iv.begin ≤ p ∧ p < iv.end

instance : Decidable (iv.Contains p) :=
  inferInstanceAs (Decidable (_ ∧ _))

theorem Interval.contains_begin : iv.Contains iv.begin :=
  ⟨le_rfl, iv.lt⟩

end Interval

/-- An implementation of interval trees over points `τ`. -/
structure IntervalTrees (τ : Type) [LinearOrder τ] where
  Tree : Type → Type
  empty {δ : Type} : Tree δ
  /-- The intervals, in the order in which the tree is iterated. -/
  intervals {δ : Type} : Tree δ → List (Interval τ δ)
  /-- The intervals that contain a point. -/
  at_ {δ : Type} : Tree δ → τ → List (Interval τ δ)
  /-- The intervals that lie between two points. -/
  envelop {δ : Type} : Tree δ → τ → τ → List (Interval τ δ)
  /-- Some interval contains the point. -/
  overlapsPoint {δ : Type} : Tree δ → τ → Bool
  /-- Some interval has a point between the two. -/
  overlaps {δ : Type} : Tree δ → τ → τ → Bool
  add {δ : Type} [DecidableEq δ] : Tree δ → Interval τ δ → Tree δ
  remove {δ : Type} [DecidableEq δ] : Tree δ → Interval τ δ → Tree δ
  has {δ : Type} [DecidableEq δ] : Tree δ → Interval τ δ → Bool
  /-- Split the intervals that have the point inside. -/
  slice {δ : Type} [DecidableEq δ] : Tree δ → τ → Tree δ
  /-- Remove what lies between two points, and keep what intervals have on either side of it. -/
  chop {δ : Type} [DecidableEq δ] : Tree δ → τ → τ → Tree δ

section Pieces

variable {τ δ : Type} [LinearOrder τ]

/-- The interval is a part of another one, with its data. -/
def Interval.PieceOf (iv whole : Interval τ δ) (b e : τ) : Prop :=
  iv.begin = b ∧ iv.end = e ∧ iv.data = whole.data

end Pieces

/-- The operations as documented. -/
structure IntervalTrees.Lawful {τ : Type} [LinearOrder τ] (lib : IntervalTrees τ) : Prop where
  nodup {δ : Type} (tree : lib.Tree δ) : (lib.intervals tree).Nodup
  empty {δ : Type} (iv : Interval τ δ) : iv ∉ lib.intervals lib.empty
  nodup_at {δ : Type} (tree : lib.Tree δ) (p : τ) : (lib.at_ tree p).Nodup
  mem_at {δ : Type} (tree : lib.Tree δ) (p : τ) (iv : Interval τ δ) :
    iv ∈ lib.at_ tree p ↔ iv ∈ lib.intervals tree ∧ iv.Contains p
  mem_envelop {δ : Type} (tree : lib.Tree δ) (b e : τ) (iv : Interval τ δ) :
    iv ∈ lib.envelop tree b e ↔ iv ∈ lib.intervals tree ∧ b ≤ iv.begin ∧ iv.end ≤ e
  nodup_envelop {δ : Type} (tree : lib.Tree δ) (b e : τ) : (lib.envelop tree b e).Nodup
  overlapsPoint {δ : Type} (tree : lib.Tree δ) (p : τ) :
    lib.overlapsPoint tree p = true ↔ ∃ iv ∈ lib.intervals tree, iv.Contains p
  overlaps {δ : Type} (tree : lib.Tree δ) (b e : τ) (lt : b < e) :
    lib.overlaps tree b e = true ↔ ∃ iv ∈ lib.intervals tree, iv.begin < e ∧ b < iv.end
  mem_add {δ : Type} [DecidableEq δ] (tree : lib.Tree δ) (new iv : Interval τ δ) :
    iv ∈ lib.intervals (lib.add tree new) ↔ iv = new ∨ iv ∈ lib.intervals tree
  mem_remove {δ : Type} [DecidableEq δ] (tree : lib.Tree δ) (old iv : Interval τ δ) :
    iv ∈ lib.intervals (lib.remove tree old) ↔ iv ∈ lib.intervals tree ∧ iv ≠ old
  has {δ : Type} [DecidableEq δ] (tree : lib.Tree δ) (iv : Interval τ δ) :
    lib.has tree iv = true ↔ iv ∈ lib.intervals tree
  mem_slice {δ : Type} [DecidableEq δ] (tree : lib.Tree δ) (p : τ) (iv : Interval τ δ) :
    iv ∈ lib.intervals (lib.slice tree p) ↔
      iv ∈ lib.intervals tree ∧ ¬ (iv.begin < p ∧ p < iv.end) ∨
      ∃ whole ∈ lib.intervals tree, (whole.begin < p ∧ p < whole.end) ∧
        (iv.PieceOf whole whole.begin p ∨ iv.PieceOf whole p whole.end)
  mem_chop {δ : Type} [DecidableEq δ] (tree : lib.Tree δ) (b e : τ) (lt : b < e) (iv : Interval τ δ) :
    iv ∈ lib.intervals (lib.chop tree b e) ↔
      iv ∈ lib.intervals tree ∧ (iv.end ≤ b ∨ e ≤ iv.begin) ∨
      ∃ whole ∈ lib.intervals tree, (whole.begin < b ∧ b < whole.end ∧ iv.PieceOf whole whole.begin b) ∨
        (whole.begin < e ∧ e < whole.end ∧ iv.PieceOf whole e whole.end)

namespace IntervalTrees

variable {τ δ : Type} [LinearOrder τ] {lib : IntervalTrees τ} {tree : lib.Tree δ} {p : τ} {d : δ}

/-- Some interval of the tree contains the point and has the data. -/
def Holds (lib : IntervalTrees τ) (tree : lib.Tree δ) (p : τ) (d : δ) : Prop :=
  ∃ iv ∈ lib.intervals tree, iv.Contains p ∧ iv.data = d

/-- No point is contained in two intervals. -/
def Disjoint (lib : IntervalTrees τ) (tree : lib.Tree δ) : Prop :=
  ∀ iv ∈ lib.intervals tree, ∀ iv' ∈ lib.intervals tree, ∀ p, iv.Contains p → iv'.Contains p → iv = iv'

/-- Some interval of the tree contains the point. -/
def Covers (lib : IntervalTrees τ) (tree : lib.Tree δ) (p : τ) : Prop :=
  ∃ iv ∈ lib.intervals tree, iv.Contains p

instance : Decidable (lib.Covers tree p) :=
  inferInstanceAs (Decidable (∃ iv ∈ _, _))

/-- The point is in no interval's inside. -/
def Splits (lib : IntervalTrees τ) (tree : lib.Tree δ) (p : τ) : Prop :=
  ∀ iv ∈ lib.intervals tree, ¬ (iv.begin < p ∧ p < iv.end)

namespace Lawful

variable (lawful : lib.Lawful)

include lawful

theorem not_holds_empty : ¬ lib.Holds (lib.empty : lib.Tree δ) p d := by
  rintro ⟨iv, mem, -⟩
  exact lawful.empty iv mem

theorem disjoint_empty : lib.Disjoint (lib.empty : lib.Tree δ) :=
  fun iv mem => absurd mem (lawful.empty iv)

variable [DecidableEq δ]

theorem holds_add {new : Interval τ δ} :
    lib.Holds (lib.add tree new) p d ↔ new.Contains p ∧ new.data = d ∨ lib.Holds tree p d := by
  unfold Holds
  simp only [lawful.mem_add, or_and_right, exists_or, exists_eq_left]

/-- Adding an interval where the tree has none keeps it disjoint. -/
theorem disjoint_add {new : Interval τ δ} (disjoint : lib.Disjoint tree)
    (free : ∀ p d, new.Contains p → ¬ lib.Holds tree p d) : lib.Disjoint (lib.add tree new) := by
  intro iv mem iv' mem' p here here'
  rw [lawful.mem_add] at mem mem'
  rcases mem with rfl | mem
  · rcases mem' with rfl | mem'
    · rfl
    · exact absurd ⟨iv', mem', here', rfl⟩ (free p _ here)
  · rcases mem' with rfl | mem'
    · exact absurd ⟨iv, mem, here, rfl⟩ (free p _ here')
    · exact disjoint iv mem iv' mem' p here here'

theorem holds_chop {b e : τ} (lt : b < e) :
    lib.Holds (lib.chop tree b e) p d ↔ lib.Holds tree p d ∧ ¬ (b ≤ p ∧ p < e) := by
  constructor
  · rintro ⟨iv, mem, here, rfl⟩
    rcases (lawful.mem_chop tree b e lt iv).1 mem with ⟨mem, outside⟩ |
      ⟨whole, mem, ⟨before, inside, begins, ends, data⟩ | ⟨before, inside, begins, ends, data⟩⟩
    · refine ⟨⟨iv, mem, here, rfl⟩, fun between => ?_⟩
      rcases outside with outside | outside
      · exact absurd (here.2.trans_le outside) (not_lt.2 between.1)
      · exact absurd (between.2.trans_le outside) (not_lt.2 here.1)
    · unfold Interval.Contains at here
      rw [begins, ends] at here
      exact ⟨⟨whole, mem, ⟨here.1, here.2.trans inside⟩, data.symm⟩, fun between => absurd here.2 (not_lt.2 between.1)⟩
    · unfold Interval.Contains at here
      rw [begins, ends] at here
      exact ⟨⟨whole, mem, ⟨before.le.trans here.1, here.2⟩, data.symm⟩, fun between => absurd between.2 (not_lt.2 here.1)⟩
  · rintro ⟨⟨iv, mem, here, rfl⟩, outside⟩
    by_cases left : p < b
    · by_cases reaches : b < iv.end
      · have before := here.1.trans_lt left
        refine ⟨⟨iv.begin, b, iv.data, before⟩, ?_, ⟨here.1, left⟩, rfl⟩
        exact (lawful.mem_chop tree b e lt _).2 (.inr ⟨iv, mem, .inl ⟨before, reaches, rfl, rfl, rfl⟩⟩)
      · exact ⟨iv, (lawful.mem_chop tree b e lt iv).2 (.inl ⟨mem, .inl (not_lt.1 reaches)⟩), here, rfl⟩
    · have right : e ≤ p := not_lt.1 fun lt => outside ⟨not_lt.1 left, lt⟩
      by_cases reaches : iv.begin < e
      · have after := right.trans_lt here.2
        refine ⟨⟨e, iv.end, iv.data, after⟩, ?_, ⟨right, here.2⟩, rfl⟩
        exact (lawful.mem_chop tree b e lt _).2 (.inr ⟨iv, mem, .inr ⟨reaches, after, rfl, rfl, rfl⟩⟩)
      · exact ⟨iv, (lawful.mem_chop tree b e lt iv).2 (.inl ⟨mem, .inr (not_lt.1 reaches)⟩), here, rfl⟩

/-- Two parts of one interval that a chop leaves are one if they share a point. -/
theorem disjoint_chop {b e : τ} (lt : b < e) (disjoint : lib.Disjoint tree) : lib.Disjoint (lib.chop tree b e) := by
  have source {iv : Interval τ δ} {p : τ} (mem : iv ∈ lib.intervals (lib.chop tree b e)) (here : iv.Contains p) :
      ∃ whole ∈ lib.intervals tree, whole.Contains p ∧
        (iv = whole ∧ (whole.end ≤ b ∨ e ≤ whole.begin) ∨ p < b ∧ b < whole.end ∧ iv.PieceOf whole whole.begin b ∨
          e ≤ p ∧ whole.begin < e ∧ iv.PieceOf whole e whole.end) := by
    rcases (lawful.mem_chop tree b e lt iv).1 mem with ⟨mem, outside⟩ |
      ⟨whole, mem, ⟨before, inside, piece⟩ | ⟨before, inside, piece⟩⟩
    · exact ⟨iv, mem, here, .inl ⟨rfl, outside⟩⟩
    · unfold Interval.Contains at here
      rw [piece.1, piece.2.1] at here
      exact ⟨whole, mem, ⟨here.1, here.2.trans inside⟩, .inr (.inl ⟨here.2, inside, piece⟩)⟩
    · unfold Interval.Contains at here
      rw [piece.1, piece.2.1] at here
      exact ⟨whole, mem, ⟨before.le.trans here.1, here.2⟩, .inr (.inr ⟨here.1, before, piece⟩)⟩
  intro iv mem iv' mem' p here here'
  obtain ⟨whole, from_, there, cases⟩ := source mem here
  obtain ⟨whole', from', there', cases'⟩ := source mem' here'
  obtain rfl := disjoint whole from_ whole' from' p there there'
  rcases cases with ⟨rfl, out⟩ | ⟨left, reaches, piece⟩ | ⟨right, reaches, piece⟩ <;>
    rcases cases' with ⟨rfl, out'⟩ | ⟨left', reaches', piece'⟩ | ⟨right', reaches', piece'⟩
  · rfl
  · rcases out with out | out
    · exact absurd reaches' (not_lt.2 out)
    · exact absurd (there.1.trans_lt (left'.trans lt)) (not_lt.2 out)
  · rcases out with out | out
    · exact absurd (lt.trans_le right') (not_lt.2 (there.2.le.trans out))
    · exact absurd reaches' (not_lt.2 out)
  · rcases out' with out' | out'
    · exact absurd reaches (not_lt.2 out')
    · exact absurd (there.1.trans_lt (left.trans lt)) (not_lt.2 out')
  · exact Interval.ext (piece.1.trans piece'.1.symm) (piece.2.1.trans piece'.2.1.symm) (piece.2.2.trans piece'.2.2.symm)
  · exact absurd (left.trans lt) (not_lt.2 right')
  · rcases out' with out' | out'
    · exact absurd (lt.trans_le right) (not_lt.2 (there.2.le.trans out'))
    · exact absurd reaches (not_lt.2 out')
  · exact absurd (left'.trans lt) (not_lt.2 right)
  · exact Interval.ext (piece.1.trans piece'.1.symm) (piece.2.1.trans piece'.2.1.symm) (piece.2.2.trans piece'.2.2.symm)

/-- What contains a point after a slice is a part of what contained it before. -/
theorem of_mem_slice {q : τ} {iv : Interval τ δ} (mem : iv ∈ lib.intervals (lib.slice tree q)) (here : iv.Contains p) :
    ∃ whole ∈ lib.intervals tree, whole.Contains p ∧ iv.data = whole.data ∧
      (iv.begin = if whole.begin < q ∧ q ≤ p then q else whole.begin) ∧
        iv.end = if p < q ∧ q < whole.end then q else whole.end := by
  rcases (lawful.mem_slice tree q iv).1 mem with ⟨mem, outside⟩ | ⟨whole, mem, ⟨before, inside⟩, piece | piece⟩
  · refine ⟨iv, mem, here, rfl, ?_, ?_⟩
    · rw [if_neg]
      rintro ⟨before, le⟩
      exact outside ⟨before, le.trans_lt here.2⟩
    · rw [if_neg]
      rintro ⟨lt, inside⟩
      exact outside ⟨here.1.trans_lt lt, inside⟩
  · unfold Interval.Contains at here
    rw [piece.1, piece.2.1] at here
    refine ⟨whole, mem, ⟨here.1, here.2.trans inside⟩, piece.2.2, ?_, ?_⟩
    · rw [if_neg fun h => absurd here.2 (not_lt.2 h.2), piece.1]
    · rw [if_pos ⟨here.2, inside⟩, piece.2.1]
  · unfold Interval.Contains at here
    rw [piece.1, piece.2.1] at here
    refine ⟨whole, mem, ⟨before.le.trans here.1, here.2⟩, piece.2.2, ?_, ?_⟩
    · rw [if_pos ⟨before, here.1⟩, piece.1]
    · rw [if_neg fun h => absurd h.1 (not_lt.2 here.1), piece.2.1]

theorem holds_slice {q : τ} : lib.Holds (lib.slice tree q) p d ↔ lib.Holds tree p d := by
  constructor
  · rintro ⟨iv, mem, here, rfl⟩
    obtain ⟨whole, mem, there, data, -⟩ := lawful.of_mem_slice mem here
    exact ⟨whole, mem, there, data.symm⟩
  · rintro ⟨iv, mem, here, rfl⟩
    by_cases inside : iv.begin < q ∧ q < iv.end
    · by_cases lt : p < q
      · refine ⟨⟨iv.begin, q, iv.data, inside.1⟩, ?_, ⟨here.1, lt⟩, rfl⟩
        exact (lawful.mem_slice tree q _).2 (.inr ⟨iv, mem, inside, .inl ⟨rfl, rfl, rfl⟩⟩)
      · refine ⟨⟨q, iv.end, iv.data, inside.2⟩, ?_, ⟨not_lt.1 lt, here.2⟩, rfl⟩
        exact (lawful.mem_slice tree q _).2 (.inr ⟨iv, mem, inside, .inr ⟨rfl, rfl, rfl⟩⟩)
    · exact ⟨iv, (lawful.mem_slice tree q iv).2 (.inl ⟨mem, inside⟩), here, rfl⟩

theorem disjoint_slice {q : τ} (disjoint : lib.Disjoint tree) : lib.Disjoint (lib.slice tree q) := by
  intro iv mem iv' mem' p here here'
  obtain ⟨whole, from_, there, data, begins, ends⟩ := lawful.of_mem_slice mem here
  obtain ⟨whole', from', there', data', begins', ends'⟩ := lawful.of_mem_slice mem' here'
  obtain rfl := disjoint whole from_ whole' from' p there there'
  exact Interval.ext (begins.trans begins'.symm) (ends.trans ends'.symm) (data.trans data'.symm)

theorem splits_slice {q : τ} : lib.Splits (lib.slice tree q) q := by
  rintro iv mem ⟨before, inside⟩
  rcases (lawful.mem_slice tree q iv).1 mem with ⟨-, outside⟩ | ⟨whole, -, -, piece | piece⟩
  · exact outside ⟨before, inside⟩
  · exact absurd inside (by rw [piece.2.1]; exact lt_irrefl q)
  · exact absurd before (by rw [piece.1]; exact lt_irrefl q)

/-- Slicing at one point keeps the others that split the tree. -/
theorem splits_slice_of {q r : τ} (splits : lib.Splits tree r) : lib.Splits (lib.slice tree q) r := by
  rintro iv mem ⟨before, inside⟩
  rcases (lawful.mem_slice tree q iv).1 mem with ⟨mem, -⟩ | ⟨whole, mem, at_, piece | piece⟩
  · exact splits iv mem ⟨before, inside⟩
  · rw [piece.1] at before
    rw [piece.2.1] at inside
    exact splits whole mem ⟨before, inside.trans at_.2⟩
  · rw [piece.1] at before
    rw [piece.2.1] at inside
    exact splits whole mem ⟨at_.1.trans before, inside⟩

end Lawful

/-! ## Interval trees as lists -/

section Lists

/-- The parts of an interval on either side of a point inside. -/
def slicePieces (p : τ) (iv : Interval τ δ) : List (Interval τ δ) :=
  if h : iv.begin < p ∧ p < iv.end then [⟨iv.begin, p, iv.data, h.1⟩, ⟨p, iv.end, iv.data, h.2⟩] else [iv]

/-- The parts of an interval outside of what lies between two points. -/
def chopPieces (b e : τ) (iv : Interval τ δ) : List (Interval τ δ) :=
  if iv.end ≤ b ∨ e ≤ iv.begin then [iv]
  else
    (if h : iv.begin < b then [⟨iv.begin, b, iv.data, h⟩] else []) ++
      if h : e < iv.end then [⟨e, iv.end, iv.data, h⟩] else []

variable (τ) in
/-- Interval trees as lists that list no interval twice. -/
def lists : IntervalTrees τ where
  Tree δ := { ivs : List (Interval τ δ) // ivs.Nodup }
  empty := ⟨[], .nil⟩
  intervals tree := tree.1
  at_ tree p := tree.1.filter (·.Contains p)
  envelop tree b e := tree.1.filter fun iv => b ≤ iv.begin ∧ iv.end ≤ e
  overlapsPoint tree p := tree.1.any (·.Contains p)
  overlaps tree b e := tree.1.any fun iv => iv.begin < e ∧ b < iv.end
  add tree new := ⟨(new :: tree.1).dedup, List.nodup_dedup _⟩
  remove tree old := ⟨tree.1.filter (· ≠ old), tree.2.filter _⟩
  has tree iv := iv ∈ tree.1
  slice tree p := ⟨(tree.1.flatMap (slicePieces p)).dedup, List.nodup_dedup _⟩
  chop tree b e := ⟨(tree.1.flatMap (chopPieces b e)).dedup, List.nodup_dedup _⟩

theorem mem_slicePieces {iv whole : Interval τ δ} : iv ∈ slicePieces p whole ↔
    iv = whole ∧ ¬ (whole.begin < p ∧ p < whole.end) ∨ (whole.begin < p ∧ p < whole.end) ∧
      (iv.PieceOf whole whole.begin p ∨ iv.PieceOf whole p whole.end) := by
  unfold slicePieces Interval.PieceOf
  split_ifs with h
  · cases iv
    simp [h]
  · simp [h]

theorem mem_chopPieces {iv whole : Interval τ δ} {b e : τ} (lt : b < e) : iv ∈ chopPieces b e whole ↔
    iv = whole ∧ (whole.end ≤ b ∨ e ≤ whole.begin) ∨
      (whole.begin < b ∧ b < whole.end ∧ iv.PieceOf whole whole.begin b) ∨
        whole.begin < e ∧ e < whole.end ∧ iv.PieceOf whole e whole.end := by
  unfold chopPieces Interval.PieceOf
  split_ifs with out left right right
  · have first : ¬ (whole.begin < b ∧ b < whole.end) := by
      rintro ⟨before, inside⟩
      rcases out with out | out
      · exact absurd inside (not_lt.2 out)
      · exact absurd (before.trans lt) (not_lt.2 out)
    have second : ¬ (whole.begin < e ∧ e < whole.end) := by
      rintro ⟨before, inside⟩
      rcases out with out | out
      · exact absurd (lt.trans inside) (not_lt.2 out)
      · exact absurd before (not_lt.2 out)
    rw [List.mem_singleton]
    constructor
    · intro same
      exact .inl ⟨same, out⟩
    · rintro (⟨same, -⟩ | ⟨before, inside, -⟩ | ⟨before, inside, -⟩)
      · exact same
      · exact absurd ⟨before, inside⟩ first
      · exact absurd ⟨before, inside⟩ second
  all_goals
    have apart : ¬ (iv = whole ∧ (whole.end ≤ b ∨ e ≤ whole.begin)) := fun h => out h.2
    have inside : b < whole.end := lt_of_not_ge fun le => out (.inl le)
    have before : whole.begin < e := lt_of_not_ge fun le => out (.inr le)
    rw [or_iff_right apart]
    cases iv
    simp only [inside, before, left, right, true_and, false_and, false_or, or_false, List.cons_append, List.nil_append,
      List.append_nil, List.mem_cons, List.not_mem_nil, Interval.mk.injEq]

theorem lawful_lists : (lists τ).Lawful where
  nodup tree := tree.2
  empty iv := List.not_mem_nil
  nodup_at tree p := tree.2.filter _
  mem_at tree p iv := by simp [lists]
  mem_envelop tree b e iv := by simp [lists]
  nodup_envelop tree b e := tree.2.filter _
  overlapsPoint tree p := by simp [lists]
  overlaps tree b e lt := by simp [lists]
  mem_add tree new iv := by simp [lists]
  mem_remove tree old iv := by simp [lists]
  has tree iv := by simp [lists]
  mem_slice tree p iv := by
    simp only [lists, List.mem_dedup, List.mem_flatMap, mem_slicePieces]
    constructor
    · rintro ⟨whole, mem, ⟨rfl, out⟩ | ⟨inside, piece⟩⟩
      · exact .inl ⟨mem, out⟩
      · exact .inr ⟨whole, mem, inside, piece⟩
    · rintro (⟨mem, out⟩ | ⟨whole, mem, inside, piece⟩)
      · exact ⟨iv, mem, .inl ⟨rfl, out⟩⟩
      · exact ⟨whole, mem, .inr ⟨inside, piece⟩⟩
  mem_chop tree b e lt iv := by
    simp only [lists, List.mem_dedup, List.mem_flatMap, mem_chopPieces lt]
    constructor
    · rintro ⟨whole, mem, ⟨rfl, out⟩ | piece⟩
      · exact .inl ⟨mem, out⟩
      · exact .inr ⟨whole, mem, piece⟩
    · rintro (⟨mem, out⟩ | ⟨whole, mem, piece⟩)
      · exact ⟨iv, mem, .inl ⟨rfl, out⟩⟩
      · exact ⟨whole, mem, .inr piece⟩

end Lists

end IntervalTrees

end SensorKit.Lib
