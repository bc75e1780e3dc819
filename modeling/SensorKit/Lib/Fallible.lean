import Mathlib.Data.List.Forall2

/-!
# Computations that may fail

What a successful computation in `Except` has done, step by step: its binds, its traversals and
its loops.
-/

namespace SensorKit.Lib

universe u v

variable {ε : Type u} {α β σ : Type v} {f : α → Except ε β} {xs : List α} {ys : List β} {g : σ → α → Except ε σ}
  {x : Except ε α}

theorem bind_eq_ok {b : β} : (x >>= f) = .ok b ↔ ∃ a, x = .ok a ∧ f a = .ok b := by
  cases x <;> simp [bind, Except.bind]

theorem bind_eq_error {e : ε} : (x >>= f) = .error e ↔ x = .error e ∨ ∃ a, x = .ok a ∧ f a = .error e := by
  cases x <;> simp [bind, Except.bind]

theorem pure_eq_ok {a b : α} : (pure a : Except ε α) = .ok b ↔ a = b := by
  simp [pure, Except.pure]

theorem toOption_eq_some {a : α} : x.toOption = some a ↔ x = .ok a := by
  cases x <;> simp [Except.toOption]

theorem mapError_eq_ok {ε' : Type u} {g : ε → ε'} {a : α} : x.mapError g = .ok a ↔ x = .ok a := by
  cases x <;> simp [Except.mapError]

/-- A traversal that succeeds does so at each element. -/
theorem mapM_eq_ok : xs.mapM f = .ok ys ↔ List.Forall₂ (fun x y => f x = .ok y) xs ys := by
  induction xs generalizing ys with
  | nil => cases ys <;> simp [pure_eq_ok]
  | cons x xs ih =>
    simp only [List.mapM_cons, bind_eq_ok, pure_eq_ok, ih]
    constructor
    · rintro ⟨y, head, ys, tail, rfl⟩
      exact .cons head tail
    · rintro (_ | ⟨head, tail⟩)
      exact ⟨_, head, _, tail, rfl⟩

/-- Each element of a list has its partner in the other. -/
theorem exists_left_of_forall₂ {R : α → β → Prop} (h : List.Forall₂ R xs ys) {y : β} (mem : y ∈ ys) :
    ∃ x ∈ xs, R x y := by
  induction h with
  | nil => simp at mem
  | cons head _ ih =>
    rcases List.mem_cons.1 mem with rfl | mem
    · exact ⟨_, by simp, head⟩
    · obtain ⟨x, mem, here⟩ := ih mem
      exact ⟨x, by simp [mem], here⟩

theorem exists_right_of_forall₂ {R : α → β → Prop} (h : List.Forall₂ R xs ys) {x : α} (mem : x ∈ xs) :
    ∃ y ∈ ys, R x y :=
  exists_left_of_forall₂ h.flip mem

/-- What a traversal returns comes from one of the elements. -/
theorem exists_of_mem_mapM {y : β} (h : xs.mapM f = .ok ys) (mem : y ∈ ys) : ∃ x ∈ xs, f x = .ok y :=
  exists_left_of_forall₂ (mapM_eq_ok.1 h) mem

/-- A traversal whose visits all return, returns. -/
theorem exists_mapM (all : ∀ x ∈ xs, ∃ y, f x = .ok y) : ∃ ys, xs.mapM f = .ok ys := by
  induction xs with
  | nil => exact ⟨[], rfl⟩
  | cons x xs ih =>
    obtain ⟨y, here⟩ := all x List.mem_cons_self
    obtain ⟨ys, rest⟩ := ih fun x mem => all x (List.mem_cons_of_mem _ mem)
    exact ⟨y :: ys, mapM_eq_ok.2 (.cons here (mapM_eq_ok.1 rest))⟩

theorem exists_of_mapM_error {e : ε} (h : xs.mapM f = .error e) : ∃ x ∈ xs, f x = .error e := by
  induction xs with
  | nil => cases h
  | cons x xs ih =>
    rw [List.mapM_cons, bind_eq_error] at h
    rcases h with here | ⟨y, -, h⟩
    · exact ⟨x, by simp, here⟩
    · rcases bind_eq_error.1 h with there | ⟨_, -, done⟩
      · obtain ⟨x', mem, fails⟩ := ih there
        exact ⟨x', by simp [mem], fails⟩
      · cases done

theorem forM_eq_ok {ε α : Type} {f : α → Except ε Unit} {xs : List α} :
    xs.forM f = .ok () ↔ ∀ x ∈ xs, f x = .ok () := by
  induction xs with
  | nil => simp [List.forM, pure_eq_ok]
  | cons x xs ih =>
    rw [List.forM, bind_eq_ok, List.forall_mem_cons, ← ih]
    constructor
    · rintro ⟨_, here, rest⟩
      exact ⟨here, rest⟩
    · rintro ⟨here, rest⟩
      exact ⟨(), here, rest⟩

theorem exists_of_forM_error {ε α : Type} {f : α → Except ε Unit} {xs : List α} {e : ε} (h : xs.forM f = .error e) :
    ∃ x ∈ xs, f x = .error e := by
  induction xs with
  | nil => cases h
  | cons x xs ih =>
    rw [List.forM, bind_eq_error] at h
    rcases h with here | ⟨_, -, rest⟩
    · exact ⟨x, by simp, here⟩
    · obtain ⟨y, mem, there⟩ := ih rest
      exact ⟨y, by simp [mem], there⟩

/-- The elements that satisfy a test that may fail. -/
def keepM {α : Type} (p : α → Except ε Bool) : List α → Except ε (List α)
  | [] => .ok []
  | x :: xs => do
    let kept ← p x
    let rest ← keepM p xs
    return if kept then x :: rest else rest

/-- A test that keeps some of the elements succeeds at each, and keeps those that satisfy it. -/
theorem mem_keepM {α : Type} {p : α → Except ε Bool} {xs kept : List α} {x : α} (h : keepM p xs = .ok kept) :
    (x ∈ kept ↔ x ∈ xs ∧ p x = .ok true) ∧ (x ∈ xs → ∃ b, p x = .ok b) := by
  induction xs generalizing kept with
  | nil =>
    cases h
    simp
  | cons y xs ih =>
    simp only [keepM, bind_eq_ok, pure_eq_ok] at h
    obtain ⟨test, tested, rest, others, rfl⟩ := h
    obtain ⟨mem, answers⟩ := ih others
    refine ⟨?_, fun here => ?_⟩
    · cases test with
      | true =>
        rw [if_pos rfl, List.mem_cons, List.mem_cons, mem]
        constructor
        · rintro (rfl | there)
          · exact ⟨.inl rfl, tested⟩
          · exact ⟨.inr there.1, there.2⟩
        · rintro ⟨rfl | there, holds⟩
          · exact .inl rfl
          · exact .inr ⟨there, holds⟩
      | false =>
        rw [if_neg Bool.false_ne_true, List.mem_cons, mem]
        constructor
        · exact fun there => ⟨.inr there.1, there.2⟩
        · rintro ⟨rfl | there, holds⟩
          · rw [tested] at holds
            simp at holds
          · exact ⟨there, holds⟩
    · rcases List.mem_cons.1 here with rfl | here
      · exact ⟨test, tested⟩
      · exact answers here

theorem mem_of_keepM {α : Type} {p : α → Except ε Bool} {xs kept : List α} {x : α} (h : keepM p xs = .ok kept)
    (mem : x ∈ kept) : x ∈ xs ∧ p x = .ok true :=
  (mem_keepM h).1.1 mem

/-- A test that does not fail filters. -/
theorem keepM_eq_filter {α : Type} {p : α → Except ε Bool} {f : α → Bool} {xs : List α}
    (answers : ∀ x ∈ xs, p x = .ok (f x)) : keepM p xs = .ok (xs.filter f) := by
  induction xs with
  | nil => rfl
  | cons x xs ih =>
    have rest := ih fun y mem => answers y (List.mem_cons_of_mem x mem)
    simp only [keepM, bind_eq_ok, pure_eq_ok]
    refine ⟨f x, answers x (List.mem_cons_self ..), _, rest, ?_⟩
    rw [List.filter_cons]

theorem keepM_sublist {α : Type} {p : α → Except ε Bool} {xs kept : List α} (h : keepM p xs = .ok kept) :
    kept.Sublist xs := by
  induction xs generalizing kept with
  | nil =>
    cases h
    exact .slnil
  | cons y xs ih =>
    simp only [keepM, bind_eq_ok, pure_eq_ok] at h
    obtain ⟨test, -, rest, others, rfl⟩ := h
    cases test with
    | true => exact (ih others).cons_cons y
    | false => exact (ih others).cons y

section Quantifiers

variable {α : Type} {p : α → Except ε Bool} {xs : List α}

/-- What the search for an element that satisfies a test has found. -/
theorem anyM_eq_ok {b : Bool} (h : xs.anyM p = .ok b) :
    if b then ∃ x ∈ xs, p x = .ok true else ∀ x ∈ xs, p x = .ok false := by
  induction xs with
  | nil =>
    obtain rfl := pure_eq_ok.1 h
    simp
  | cons y xs ih =>
    rw [List.anyM, bind_eq_ok] at h
    obtain ⟨test, tested, h⟩ := h
    cases test with
    | true =>
      obtain rfl := pure_eq_ok.1 h
      exact ⟨y, by simp, tested⟩
    | false =>
      have rest := ih h
      cases b with
      | true =>
        obtain ⟨x, mem, holds⟩ := rest
        exact ⟨x, by simp [mem], holds⟩
      | false =>
        intro x mem
        rcases List.mem_cons.1 mem with rfl | mem
        · exact tested
        · exact rest x mem

/-- What the check that all elements satisfy a test has found. -/
theorem allM_eq_ok {b : Bool} (h : xs.allM p = .ok b) :
    if b then ∀ x ∈ xs, p x = .ok true else ∃ x ∈ xs, p x = .ok false := by
  induction xs with
  | nil =>
    obtain rfl := pure_eq_ok.1 h
    simp
  | cons y xs ih =>
    rw [List.allM, bind_eq_ok] at h
    obtain ⟨test, tested, h⟩ := h
    cases test with
    | false =>
      obtain rfl := pure_eq_ok.1 h
      exact ⟨y, by simp, tested⟩
    | true =>
      have rest := ih h
      cases b with
      | true =>
        intro x mem
        rcases List.mem_cons.1 mem with rfl | mem
        · exact tested
        · exact rest x mem
      | false =>
        obtain ⟨x, mem, fails⟩ := rest
        exact ⟨x, by simp [mem], fails⟩

/-- What a search for an element finds is one of them. -/
theorem mem_of_findM? {x : α} (h : xs.findM? p = .ok (some x)) : x ∈ xs := by
  induction xs with
  | nil => simp [List.findM?, pure_eq_ok] at h
  | cons y xs ih =>
    rw [List.findM?, bind_eq_ok] at h
    obtain ⟨test, -, h⟩ := h
    cases test with
    | true =>
      cases pure_eq_ok.1 h
      simp
    | false => exact List.mem_cons_of_mem y (ih h)

end Quantifiers

/-- **Loop invariant.** What holds at the start and is kept by each turn holds at the end. -/
theorem foldlM_invariant {s t : σ} (I : σ → Prop) (h : xs.foldlM g s = .ok t) (start : I s)
    (turn : ∀ s t, ∀ x ∈ xs, I s → g s x = .ok t → I t) : I t := by
  induction xs generalizing s with
  | nil =>
    obtain rfl := pure_eq_ok.1 h
    exact start
  | cons x xs ih =>
    rw [List.foldlM_cons, bind_eq_ok] at h
    obtain ⟨m, first, rest⟩ := h
    exact ih rest (turn s m x (by simp) start first) fun s t y mem => turn s t y (by simp [mem])

section

variable (I : List α → σ → Prop)
include I

/-- Loop invariant over what the loop has been through. -/
theorem foldlM_invariant_prefix {s t : σ} (h : xs.foldlM g s = .ok t) (start : I [] s)
    (turn : ∀ pre x post s t, xs = pre ++ x :: post → I pre s → g s x = .ok t → I (pre ++ [x]) t) : I xs t := by
  have all (post : List α) : ∀ pre s, xs = pre ++ post → I pre s → post.foldlM g s = .ok t → I xs t := by
    induction post with
    | nil =>
      intro pre s eq inv h
      obtain rfl := pure_eq_ok.1 h
      simpa [eq] using inv
    | cons x post ih =>
      intro pre s eq inv h
      rw [List.foldlM_cons, bind_eq_ok] at h
      obtain ⟨m, first, rest⟩ := h
      exact ih (pre ++ [x]) m (by simp [eq]) (turn pre x post s m eq inv first) rest
  exact all xs [] s rfl start h

/-- **Total loop.** A loop whose turns all return, from where what holds of the elements so far holds, returns. -/
theorem exists_foldlM {s : σ} (start : I [] s)
    (turn : ∀ pre x post s, xs = pre ++ x :: post → I pre s → ∃ t, g s x = .ok t ∧ I (pre ++ [x]) t) :
    ∃ t, xs.foldlM g s = .ok t ∧ I xs t := by
  have all (post : List α) : ∀ pre s, xs = pre ++ post → I pre s → ∃ t, post.foldlM g s = .ok t ∧ I xs t := by
    induction post with
    | nil =>
      intro pre s eq inv
      exact ⟨s, rfl, by simpa [eq] using inv⟩
    | cons x post ih =>
      intro pre s eq inv
      obtain ⟨m, first, inv⟩ := turn pre x post s eq inv
      obtain ⟨t, rest, inv⟩ := ih (pre ++ [x]) m (by simp [eq]) inv
      exact ⟨t, by rw [List.foldlM_cons, bind_eq_ok]; exact ⟨m, first, rest⟩, inv⟩
  exact all xs [] s rfl start

/-- A loop whose turns all return, followed by what returns from where it ends. -/
theorem exists_foldlM_bind {s : σ} {after : σ → Except ε β} (start : I [] s)
    (turn : ∀ pre x post s, xs = pre ++ x :: post → I pre s → ∃ t, g s x = .ok t ∧ I (pre ++ [x]) t)
    (returns : ∀ t, I xs t → ∃ b, after t = .ok b) : ∃ b, (xs.foldlM g s >>= after) = .ok b := by
  obtain ⟨t, done, inv⟩ := exists_foldlM I start turn
  obtain ⟨b, returned⟩ := returns t inv
  exact ⟨b, bind_eq_ok.2 ⟨t, done, returned⟩⟩

/-- **Failing loop.** A loop that raises does so at a turn, from where what its turns keep holds. -/
theorem exists_of_foldlM_error {s : σ} {e : ε} (h : xs.foldlM g s = .error e) (start : I [] s)
    (turn : ∀ pre x post s t, xs = pre ++ x :: post → I pre s → g s x = .ok t → I (pre ++ [x]) t) :
    ∃ pre x post t, xs = pre ++ x :: post ∧ I pre t ∧ g t x = .error e := by
  have all (post : List α) : ∀ pre s, xs = pre ++ post → I pre s → post.foldlM g s = .error e →
      ∃ pre x post t, xs = pre ++ x :: post ∧ I pre t ∧ g t x = .error e := by
    induction post with
    | nil =>
      intro pre s _ _ h
      cases h
    | cons x post ih =>
      intro pre s eq inv h
      rw [List.foldlM_cons, bind_eq_error] at h
      rcases h with here | ⟨m, first, rest⟩
      · exact ⟨pre, x, post, s, eq, inv, here⟩
      · exact ih (pre ++ [x]) m (by simp [eq]) (turn pre x post s m eq inv first) rest
  exact all xs [] s rfl start h

end

/-- Go through the elements until one raises. What has been done by then stays done. -/
def forEach {ε α σ : Type} (f : σ → α → Except ε σ) : List α → σ → σ × Option ε
  | [], s => (s, none)
  | x :: xs, s =>
    match f s x with
    | .ok t => forEach f xs t
    | .error e => (s, some e)

section ForEach

variable {ε α σ : Type} {f : σ → α → Except ε σ} {xs : List α} {s : σ}

theorem forEach_invariant (I : σ → Prop) (start : I s) (turn : ∀ s t, ∀ x ∈ xs, I s → f s x = .ok t → I t) :
    I (forEach f xs s).1 := by
  induction xs generalizing s with
  | nil => exact start
  | cons x xs ih =>
    unfold forEach
    cases done : f s x with
    | error e => exact start
    | ok t => exact ih (turn s t x (List.mem_cons_self ..) start done) fun s t y mem => turn s t y (List.mem_cons_of_mem x mem)

/-- Where no turn raises, neither does the loop. -/
theorem forEach_returns (I : σ → Prop) (start : I s) (turn : ∀ s, ∀ x ∈ xs, I s → ∃ t, f s x = .ok t ∧ I t) :
    (forEach f xs s).2 = none ∧ I (forEach f xs s).1 := by
  induction xs generalizing s with
  | nil => exact ⟨rfl, start⟩
  | cons x xs ih =>
    obtain ⟨t, done, kept⟩ := turn s x (List.mem_cons_self ..) start
    unfold forEach
    rw [done]
    exact ih kept fun s y mem => turn s y (List.mem_cons_of_mem x mem)

end ForEach

end SensorKit.Lib
