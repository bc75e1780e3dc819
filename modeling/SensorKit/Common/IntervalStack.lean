import SensorKit.Common.Interval
import SensorKit.Lib.Trace

/-!
# Stacking and stamping

What a stacked tree holds at a point is the data of the last input that covers it. A stamp merges its data into what
the target holds within it, and leaves the rest of the target as it is.
-/

namespace SensorKit.Common

open Lib IntervalTrees

variable {τ α δ : Type} [LinearOrder τ] [DecidableEq δ] {lib : IntervalTrees τ} {p : τ}

/-! ## Stacks -/

section Stack

variable {target : lib.Tree δ} {d : δ}

/-- The data of the last input that covers a point. -/
def topmost (lib : IntervalTrees τ) (inputs : List (δ × lib.Tree Unit)) (p : τ) : Option δ :=
  (lastOf (fun input => lib.Covers input.2 p) inputs).map Prod.fst

/-- An input takes the place of what its intervals cover. -/
theorem stackInput_exact (lawful : lib.Lawful) (ivs : List (Interval τ Unit)) (data : δ)
    (disjoint : lib.Disjoint target) :
    let stacked := ivs.foldl (fun target iv =>
      lib.add (lib.chop target iv.begin iv.end) ⟨iv.begin, iv.end, data, iv.lt⟩) target
    lib.Disjoint stacked ∧ ∀ p d, lib.Holds stacked p d ↔
      (∃ iv ∈ ivs, iv.Contains p) ∧ d = data ∨ (¬ ∃ iv ∈ ivs, iv.Contains p) ∧ lib.Holds target p d := by
  induction ivs using List.reverseRecOn with
  | nil => simp [disjoint]
  | append_singleton ivs iv ih =>
    obtain ⟨disjoint, holds⟩ := ih
    simp only [List.foldl_append, List.foldl_cons, List.foldl_nil]
    constructor
    · apply lawful.disjoint_add (lawful.disjoint_chop iv.lt disjoint)
      intro p d here held
      exact ((lawful.holds_chop iv.lt).1 held).2 here
    · intro p d
      rw [lawful.holds_add, lawful.holds_chop iv.lt, holds]
      have contains : (⟨iv.begin, iv.end, data, iv.lt⟩ : Interval τ δ).Contains p ↔ iv.Contains p := Iff.rfl
      have between : iv.begin ≤ p ∧ p < iv.end ↔ iv.Contains p := Iff.rfl
      rw [contains, between]
      simp only [List.mem_append, List.mem_singleton, or_and_right, exists_or, exists_eq_left]
      by_cases here : iv.Contains p <;> simp [here, eq_comm]

/-- **A stack holds what lies on top.** -/
theorem stackIntervalTrees_exact (lawful : lib.Lawful) (inputs : List (δ × lib.Tree Unit)) :
    lib.Disjoint (stackIntervalTrees lib inputs) ∧
      ∀ p d, lib.Holds (stackIntervalTrees lib inputs) p d ↔ topmost lib inputs p = some d := by
  unfold stackIntervalTrees
  induction inputs using List.reverseRecOn with
  | nil => exact ⟨lawful.disjoint_empty, fun p d => by simp [topmost, lawful.not_holds_empty]⟩
  | append_singleton inputs input ih =>
    rw [List.foldl_append, List.foldl_cons, List.foldl_nil]
    obtain ⟨disjoint, holds⟩ := stackInput_exact lawful (lib.intervals input.2) input.1 ih.1
    refine ⟨disjoint, fun p d => ?_⟩
    rw [holds, ih.2]
    unfold topmost
    rw [lastOf_snoc]
    by_cases covers : lib.Covers input.2 p
    · rw [if_pos (by simpa using covers), Option.map_some, Option.some.injEq]
      have exists_ : ∃ iv ∈ lib.intervals input.2, iv.Contains p := covers
      simp [exists_, eq_comm]
    · rw [if_neg (by simpa using covers)]
      have none_ : ¬ ∃ iv ∈ lib.intervals input.2, iv.Contains p := covers
      simp [none_]

omit [DecidableEq δ] in
theorem exists_of_topmost {inputs : List (δ × lib.Tree Unit)} (top : topmost lib inputs p = some d) :
    ∃ input ∈ inputs, input.1 = d := by
  unfold topmost at top
  obtain ⟨input, last, rfl⟩ := Option.map_eq_some_iff.1 top
  obtain ⟨-, pre, post, rfl, -⟩ := exists_append_of_lastOf last
  exact ⟨input, by simp, rfl⟩

end Stack

/-! ## Stamps -/

section Stamp

variable {target : lib.Tree δ}

section

variable (lawful : lib.Lawful)
include lawful

/-- Slicing where an interval is hit makes the point split the tree. -/
theorem sliced_exact (disjoint : lib.Disjoint target) (q : τ) :
    let sliced := if lib.overlapsPoint target q then lib.slice target q else target
    lib.Disjoint sliced ∧ (∀ p d, lib.Holds sliced p d ↔ lib.Holds target p d) ∧ lib.Splits sliced q ∧
      ∀ r, lib.Splits target r → lib.Splits sliced r := by
  dsimp only
  split_ifs with hit
  · exact ⟨lawful.disjoint_slice disjoint, fun p d => lawful.holds_slice, lawful.splits_slice,
      fun r splits => lawful.splits_slice_of splits⟩
  · refine ⟨disjoint, fun p d => Iff.rfl, ?_, fun r splits => splits⟩
    rintro iv mem ⟨before, inside⟩
    exact hit ((lawful.overlapsPoint target q).2 ⟨iv, mem, before.le, inside⟩)

/-- The enveloped intervals get merged data, and the others stay. -/
theorem mem_merged (disjoint : lib.Disjoint target) (f : δ → δ) (es : List (Interval τ δ)) (nodup : es.Nodup)
    (sub : ∀ e ∈ es, e ∈ lib.intervals target) (iv : Interval τ δ) :
    iv ∈ lib.intervals (es.foldl (fun target e => lib.add (lib.remove target e) ⟨e.begin, e.end, f e.data, e.lt⟩) target) ↔
      iv ∈ lib.intervals target ∧ iv ∉ es ∨ ∃ e ∈ es, iv = ⟨e.begin, e.end, f e.data, e.lt⟩ := by
  induction es using List.reverseRecOn generalizing iv with
  | nil => simp
  | append_singleton es e ih =>
    have nodup' := List.nodup_append.1 nodup
    have fresh : e ∉ es := fun mem => nodup'.2.2 e mem e (List.mem_singleton_self e) rfl
    have sub' : ∀ e ∈ es, e ∈ lib.intervals target := fun e mem => sub e (List.mem_append_left _ mem)
    -- An interval that has been merged is not one that is still to be.
    have apart : ¬ ∃ e' ∈ es, e = ⟨e'.begin, e'.end, f e'.data, e'.lt⟩ := by
      rintro ⟨e', mem, eq⟩
      have there : e.Contains e'.begin := by
        rw [eq]
        exact ⟨le_rfl, e'.lt⟩
      have same := disjoint e (sub e (by simp)) e' (sub' e' mem) _ there Interval.contains_begin
      exact fresh (same ▸ mem)
    rw [List.foldl_append, List.foldl_cons, List.foldl_nil, lawful.mem_add, lawful.mem_remove, ih nodup'.1 sub']
    constructor
    · rintro (rfl | ⟨⟨mem, other⟩ | ⟨e', mem, rfl⟩, ne⟩)
      · exact .inr ⟨e, by simp, rfl⟩
      · exact .inl ⟨mem, by simp [other, ne]⟩
      · exact .inr ⟨e', by simp [mem], rfl⟩
    · rintro (⟨mem, other⟩ | ⟨e', mem, rfl⟩)
      · simp only [List.mem_append, List.mem_singleton, not_or] at other
        exact .inr ⟨.inl ⟨mem, other.1⟩, other.2⟩
      · rcases mem_snoc.1 mem with mem | rfl
        · exact .inr ⟨.inr ⟨e', mem, rfl⟩, fun eq => apart ⟨e', mem, eq.symm⟩⟩
        · exact .inl rfl

/-- **A stamp merges its data into what lies within it.** -/
theorem stampInterval_exact (merge : δ → α → δ) (iv : Interval τ α) (disjoint : lib.Disjoint target) :
    lib.Disjoint (stampInterval lib merge target iv) ∧ ∀ p d, lib.Holds (stampInterval lib merge target iv) p d ↔
      ∃ before, lib.Holds target p before ∧ d = if iv.Contains p then merge before iv.data else before := by
  unfold stampInterval
  obtain ⟨disjoint, holds, splits, -⟩ := sliced_exact lawful disjoint iv.begin
  simp only [← holds]
  generalize (if lib.overlapsPoint target iv.begin then lib.slice target iv.begin else target) = target
    at disjoint splits
  obtain ⟨disjoint, holds, ends, keeps⟩ := sliced_exact lawful disjoint iv.end
  have begins := keeps iv.begin splits
  simp only [← holds]
  generalize (if lib.overlapsPoint target iv.end then lib.slice target iv.end else target) = sliced
    at disjoint begins ends
  -- What contains a point of the stamp lies within it.
  have enveloped {e : Interval τ δ} {p : τ} (mem : e ∈ lib.intervals sliced) (here : e.Contains p) :
      e ∈ lib.envelop sliced iv.begin iv.end ↔ iv.Contains p := by
    rw [lawful.mem_envelop]
    constructor
    · rintro ⟨-, after, before⟩
      exact ⟨after.trans here.1, here.2.trans_le before⟩
    · rintro ⟨after, before⟩
      refine ⟨mem, ?_, ?_⟩
      · by_contra less
        exact begins e mem ⟨not_le.1 less, after.trans_lt here.2⟩
      · by_contra less
        exact ends e mem ⟨here.1.trans_lt before, not_le.1 less⟩
  have merged := mem_merged lawful disjoint (fun d => merge d iv.data) (lib.envelop sliced iv.begin iv.end)
    (lawful.nodup_envelop sliced iv.begin iv.end) fun e mem => ((lawful.mem_envelop sliced _ _ e).1 mem).1
  have source {e : Interval τ δ} {p : τ} (mem : e ∈ lib.intervals ((lib.envelop sliced iv.begin iv.end).foldl
      (fun target e => lib.add (lib.remove target e) ⟨e.begin, e.end, merge e.data iv.data, e.lt⟩) sliced))
      (here : e.Contains p) : ∃ e' ∈ lib.intervals sliced, e'.Contains p ∧ e.begin = e'.begin ∧ e.end = e'.end ∧
        e.data = if iv.Contains p then merge e'.data iv.data else e'.data := by
    rcases (merged e).1 mem with ⟨mem, outside⟩ | ⟨e', within, rfl⟩
    · rw [enveloped mem here] at outside
      exact ⟨e, mem, here, rfl, rfl, by rw [if_neg outside]⟩
    · have mem' := ((lawful.mem_envelop sliced _ _ e').1 within).1
      have here' : e'.Contains p := here
      exact ⟨e', mem', here', rfl, rfl, by rw [if_pos ((enveloped mem' here').1 within)]⟩
  constructor
  · intro e mem e₂ mem₂ p here here₂
    obtain ⟨e', from_, there, begin_, end_, data⟩ := source mem here
    obtain ⟨e₂', from₂, there₂, begin₂, end₂, data₂⟩ := source mem₂ here₂
    obtain rfl := disjoint e' from_ e₂' from₂ p there there₂
    exact Interval.ext (begin_.trans begin₂.symm) (end_.trans end₂.symm) (data.trans data₂.symm)
  · intro p d
    constructor
    · rintro ⟨e, mem, here, rfl⟩
      obtain ⟨e', from_, there, -, -, data⟩ := source mem here
      exact ⟨e'.data, ⟨e', from_, there, rfl⟩, data⟩
    · rintro ⟨before, ⟨e, mem, here, rfl⟩, rfl⟩
      by_cases within : iv.Contains p
      · refine ⟨_, (merged _).2 (.inr ⟨e, (enveloped mem here).2 within, rfl⟩), here, ?_⟩
        rw [if_pos within]
      · refine ⟨e, (merged e).2 (.inl ⟨mem, fun h => within ((enveloped mem here).1 h)⟩), here, ?_⟩
        rw [if_neg within]

/-- Whatever overlaps the stamps have, the target stays disjoint, and keeps what a merge keeps. -/
theorem stampIntervals_keeps {merge : δ → α → δ} {P : δ → Prop} {ivs : List (Interval τ α)}
    (kept : ∀ d, ∀ iv ∈ ivs, P d → P (merge d iv.data)) (disjoint : lib.Disjoint target)
    (holds : ∀ p d, lib.Holds target p d → P d) : lib.Disjoint (ivs.foldl (stampInterval lib merge) target) ∧
      ∀ p d, lib.Holds (ivs.foldl (stampInterval lib merge) target) p d → P d := by
  induction ivs generalizing target with
  | nil => exact ⟨disjoint, holds⟩
  | cons iv ivs ih =>
    obtain ⟨apart, stamped⟩ := stampInterval_exact lawful merge iv disjoint
    apply ih (fun d iv mem => kept d iv (List.mem_cons_of_mem _ mem)) apart
    intro p d held
    obtain ⟨before, held', rfl⟩ := (stamped p d).1 held
    split_ifs
    · exact kept before iv (List.mem_cons_self ..) (holds p before held')
    · exact holds p before held'

theorem stampIntervals_exact (merge : δ → α → δ) (ivs : List (Interval τ α))
    (pairwise : ivs.Pairwise fun iv iv' => ∀ p, iv.Contains p → ¬ iv'.Contains p) (disjoint : lib.Disjoint target) :
    lib.Disjoint (ivs.foldl (stampInterval lib merge) target) ∧
      ∀ p d, lib.Holds (ivs.foldl (stampInterval lib merge) target) p d ↔ ∃ before, lib.Holds target p before ∧
        ((∃ iv ∈ ivs, iv.Contains p ∧ d = merge before iv.data) ∨ (∀ iv ∈ ivs, ¬ iv.Contains p) ∧ d = before) := by
  induction ivs generalizing target with
  | nil => simpa [eq_comm] using disjoint
  | cons iv ivs ih =>
    obtain ⟨first, pairwise⟩ := List.pairwise_cons.1 pairwise
    obtain ⟨disjoint, holds⟩ := stampInterval_exact lawful merge iv disjoint
    obtain ⟨disjoint', holds'⟩ := ih pairwise disjoint
    refine ⟨disjoint', fun p d => ?_⟩
    rw [List.foldl_cons, holds']
    simp only [holds]
    by_cases here : iv.Contains p
    · have others : ∀ iv' ∈ ivs, ¬ iv'.Contains p := fun iv' mem => first iv' mem p here
      constructor
      · rintro ⟨_, ⟨before, held, rfl⟩, ⟨iv', mem, there, -⟩ | ⟨-, rfl⟩⟩
        · exact absurd there (others iv' mem)
        · exact ⟨before, held, .inl ⟨iv, List.mem_cons_self .., here, by rw [if_pos here]⟩⟩
      · rintro ⟨before, held, ⟨iv', mem, there, rfl⟩ | ⟨none, -⟩⟩
        · rcases List.mem_cons.1 mem with rfl | mem
          · exact ⟨_, ⟨before, held, rfl⟩, .inr ⟨others, by rw [if_pos here]⟩⟩
          · exact absurd there (others iv' mem)
        · exact absurd here (none iv (List.mem_cons_self ..))
    · simp only [List.mem_cons, exists_eq_or_imp, forall_eq_or_imp, here, false_and, false_or, not_false_eq_true,
        true_and, ↓reduceIte, exists_eq_right']

/-- **Stamping is exact.** The target's data is merged with what the stamp has at the point, if it has anything. -/
theorem stampIntervalTrees_exact {stamp : lib.Tree α} (merge : δ → α → δ) (disjoint : lib.Disjoint target)
    (apart : lib.Disjoint stamp) : lib.Disjoint (stampIntervalTrees lib target stamp merge) ∧
      ∀ p d, lib.Holds (stampIntervalTrees lib target stamp merge) p d ↔ ∃ before, lib.Holds target p before ∧
        ((∃ a, lib.Holds stamp p a ∧ d = merge before a) ∨ (∀ a, ¬ lib.Holds stamp p a) ∧ d = before) := by
  have pairwise : (lib.intervals stamp).Pairwise fun iv iv' => ∀ p, iv.Contains p → ¬ iv'.Contains p := by
    refine (lawful.nodup stamp).imp_of_mem fun mem mem' ne => ?_
    intro p here here'
    exact ne (apart _ mem _ mem' p here here')
  obtain ⟨disjoint, holds⟩ := stampIntervals_exact lawful merge (lib.intervals stamp) pairwise disjoint
  refine ⟨disjoint, fun p d => ?_⟩
  unfold stampIntervalTrees
  rw [holds]
  constructor
  · rintro ⟨before, held, ⟨iv, mem, here, rfl⟩ | ⟨none, rfl⟩⟩
    · exact ⟨before, held, .inl ⟨iv.data, ⟨iv, mem, here, rfl⟩, rfl⟩⟩
    · refine ⟨d, held, .inr ⟨?_, rfl⟩⟩
      rintro a ⟨iv, mem, here, -⟩
      exact none iv mem here
  · rintro ⟨before, held, ⟨_, ⟨iv, mem, here, rfl⟩, rfl⟩ | ⟨none, rfl⟩⟩
    · exact ⟨before, held, .inl ⟨iv, mem, here, rfl⟩⟩
    · exact ⟨d, held, .inr ⟨fun iv mem here => none iv.data ⟨iv, mem, here, rfl⟩, rfl⟩⟩

end

end Stamp

end SensorKit.Common
