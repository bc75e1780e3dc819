import Mathlib.Logic.Relation

/-!
# Runs of a labelled partial step

A system is a step function `σ → α → Option σ`: the label carries every choice the
environment makes (which task goes on, how an operation ends, how long a delay is), and
`none` says the label is not enabled. `Reaches step ok s t` is a finite run whose every
step also satisfies the side condition `ok`, read off the state before the step. Safety
results are `Reaches.invariant`; concrete traces are `exec`, which computes.
-/

namespace SensorKit.Lib

variable {σ α : Type*} {step : σ → α → Option σ} {ok ok' : σ → α → Prop} {s t u : σ} {as : List α} {I : σ → Prop}

/-- A run from `s` to `t` all of whose steps satisfy `ok`. -/
inductive Reaches (step : σ → α → Option σ) (ok : σ → α → Prop) : σ → σ → Prop where
  | refl (s : σ) : Reaches step ok s s
  | tail {s t u : σ} {a : α} : Reaches step ok s t → ok t a → step t a = some u → Reaches step ok s u

/-- The side condition of an unrestricted run. -/
def always : σ → α → Prop := fun _ _ => True

/-- Run the labels in order, stopping at the first one that is not enabled. -/
def exec (step : σ → α → Option σ) : σ → List α → Option σ
  | s, [] => some s
  | s, a :: as => (step s a).bind fun t => exec step t as

/-- Every step of the run over `as` satisfies `ok`. -/
def okAlong (step : σ → α → Option σ) (ok : σ → α → Prop) : σ → List α → Prop
  | _, [] => True
  | s, a :: as => ok s a ∧ ∀ t ∈ step s a, okAlong step ok t as

instance decidableOkAlong [∀ s a, Decidable (ok s a)] : (s : σ) → (as : List α) → Decidable (okAlong step ok s as)
  | _, [] => inferInstanceAs (Decidable True)
  | s, a :: as =>
    letI := fun t => decidableOkAlong t as
    inferInstanceAs (Decidable (ok s a ∧ ∀ t ∈ step s a, okAlong step ok t as))

theorem Reaches.trans (h : Reaches step ok s t) (h' : Reaches step ok t u) : Reaches step ok s u := by
  induction h' with
  | refl => exact h
  | tail _ hok hs ih => exact .tail ih hok hs

theorem Reaches.single {a : α} (hok : ok s a) (h : step s a = some t) : Reaches step ok s t :=
  .tail (.refl s) hok h

/-- A run under a condition is a run under any weaker one. -/
theorem Reaches.mono (hw : ∀ s a, ok s a → ok' s a) (h : Reaches step ok s t) :
    Reaches step ok' s t := by
  induction h with
  | refl => exact .refl _
  | tail _ hok hs ih => exact .tail ih (hw _ _ hok) hs

/-- **Invariant induction.** What holds at the start and is kept by every step of the
run holds at its end. -/
theorem Reaches.invariant (h : Reaches step ok s t) (h0 : I s)
    (hstep : ∀ t a u, I t → ok t a → step t a = some u → I u) : I t := by
  induction h with
  | refl => exact h0
  | tail _ hok hs ih => exact hstep _ _ _ ih hok hs

/-- Invariant induction with a second invariant already proved along the run. -/
theorem Reaches.invariant₂ {J : σ → Prop} (h : Reaches step ok s t) (hI : ∀ t, Reaches step ok s t → I t)
    (h0 : J s) (hstep : ∀ t a u, I t → J t → ok t a → step t a = some u → J u) : J t := by
  induction h with
  | refl => exact h0
  | tail hr hok hs ih => exact hstep _ _ _ (hI _ hr) ih hok hs

/-- **Liveness.** What goes on unless it is done, each time with less to do, can come to be done. -/
theorem exists_done (measure : σ → Nat) {done : σ → Prop} (h : I s) (next : ∀ s, I s → done s ∨
    ∃ a t, ok s a ∧ step s a = some t ∧ I t ∧ measure t < measure s) : ∃ t, Reaches step ok s t ∧ I t ∧ done t := by
  induction m : measure s using Nat.strongRecOn generalizing s with
  | ind m ih =>
    rcases next s h with finished | ⟨a, t, hok, hs, keeps, less⟩
    · exact ⟨s, .refl s, h, finished⟩
    · obtain ⟨u, run, rest⟩ := ih _ (m ▸ less) keeps rfl
      exact ⟨u, (Reaches.single hok hs).trans run, rest⟩

theorem exec_cons {a : α} : exec step s (a :: as) = (step s a).bind fun t => exec step t as :=
  rfl

theorem exec_cons_eq_some {a : α} :
    exec step s (a :: as) = some t ↔ ∃ m, step s a = some m ∧ exec step m as = some t :=
  Option.bind_eq_some_iff

theorem exec_append {bs : List α} : exec step s (as ++ bs) = (exec step s as).bind fun t => exec step t bs := by
  induction as generalizing s with
  | nil => rfl
  | cons a as ih =>
    rw [List.cons_append, exec_cons, exec_cons, Option.bind_assoc]
    exact congrArg (Option.bind (step s a)) (funext fun t => ih)

/-- An executed trace is a run. -/
theorem reaches_of_exec (h : exec step s as = some t) (hok : okAlong step ok s as) :
    Reaches step ok s t := by
  induction as generalizing s with
  | nil => cases h; exact .refl _
  | cons a as ih =>
    obtain ⟨m, hm, hr⟩ := exec_cons_eq_some.1 h
    exact (Reaches.single hok.1 hm).trans (ih hr (hok.2 m hm))

/-- Every step of a run satisfies what every label of it does. -/
theorem okAlong_of_forall (h : ∀ a ∈ as, ∀ s, ok s a) : okAlong step ok s as := by
  induction as generalizing s with
  | nil => trivial
  | cons a as ih => exact ⟨h a (by simp) s, fun _ _ => ih fun a mem => h a (by simp [mem])⟩

/-- Two conditions that agree where an invariant holds, and that keep it, are met by the same runs. -/
theorem okAlong_iff_of_keeps (h0 : I s)
    (same : ∀ s a, I s → (ok s a ↔ ok' s a)) (keeps : ∀ s a t, I s → ok' s a → step s a = some t → I t) :
    okAlong step ok s as ↔ okAlong step ok' s as := by
  induction as generalizing s with
  | nil => exact Iff.rfl
  | cons a as ih =>
    constructor
    · intro h
      have first := (same s a h0).1 h.1
      exact ⟨first, fun t ht => (ih (keeps s a t h0 first ht)).1 (h.2 t ht)⟩
    · intro h
      exact ⟨(same s a h0).2 h.1, fun t ht => (ih (keeps s a t h0 h.1 ht)).2 (h.2 t ht)⟩

/-- Every step of a run satisfies a condition just if it holds of each label at the state that the labels before lead to. -/
theorem okAlong_iff : okAlong step ok s as ↔
    ∀ pre a post m, as = pre ++ a :: post → exec step s pre = some m → ok m a := by
  constructor
  · intro h pre a post m split run
    subst split
    induction pre generalizing s with
    | nil =>
      cases run
      exact h.1
    | cons first pre ih =>
      obtain ⟨n, hn, rest⟩ := exec_cons_eq_some.1 run
      exact ih rest (h.2 n hn)
  · intro h
    induction as generalizing s with
    | nil => trivial
    | cons a as ih =>
      refine ⟨h [] a as s rfl rfl, fun n hn => ih fun pre b post m split run => ?_⟩
      exact h (a :: pre) b post m (congrArg _ split) (exec_cons_eq_some.2 ⟨n, hn, run⟩)

/-- A condition along a run and along the one that follows it. -/
theorem okAlong_append {bs : List α} (h : okAlong step ok s as)
    (h' : ∀ t, exec step s as = some t → okAlong step ok t bs) : okAlong step ok s (as ++ bs) := by
  induction as generalizing s with
  | nil => exact h' s rfl
  | cons a as ih =>
    refine ⟨h.1, fun t ht => ih (h.2 t ht) fun u run => h' u ?_⟩
    rw [exec_cons, ht, Option.bind_some, run]

theorem okAlong_mono (hw : ∀ s a, ok s a → ok' s a) (h : okAlong step ok s as) :
    okAlong step ok' s as := by
  induction as generalizing s with
  | nil => trivial
  | cons a as ih => exact ⟨hw s a h.1, fun t ht => ih (h.2 t ht)⟩

theorem okAlong_and (h : okAlong step ok s as) (h' : okAlong step ok' s as) :
    okAlong step (fun s a => ok s a ∧ ok' s a) s as := by
  induction as generalizing s with
  | nil => trivial
  | cons a as ih => exact ⟨⟨h.1, h'.1⟩, fun t ht => ih (h.2 t ht) (h'.2 t ht)⟩

/-- **Termination.** A run is no longer than a measure that each of its steps decreases. -/
theorem length_le_of_exec (μ : σ → Nat) (h : exec step s as = some t)
    (hok : okAlong step ok s as) (h0 : I s)
    (hstep : ∀ s a t, I s → ok s a → step s a = some t → I t ∧ μ t < μ s) : as.length + μ t ≤ μ s := by
  induction as generalizing s with
  | nil =>
    cases h
    simp
  | cons a as ih =>
    obtain ⟨m, hm, hr⟩ := exec_cons_eq_some.1 h
    obtain ⟨kept, less⟩ := hstep s a m h0 hok.1 hm
    have rest := ih hr (hok.2 m hm) kept
    rw [List.length_cons]
    omega

/-- Termination of the runs whose steps are all of one kind. -/
theorem length_le_of_forall {P : α → Prop} (μ : σ → Nat) (h : exec step s as = some t)
    (all : ∀ a ∈ as, P a) (h0 : I s) (hstep : ∀ s a t, I s → P a → step s a = some t → I t ∧ μ t < μ s) :
    as.length + μ t ≤ μ s := by
  have along : okAlong step (fun _ a => P a) s as := okAlong_of_forall fun a mem _ => all a mem
  exact length_le_of_exec μ h along h0 hstep

/-- What each step keeps just if it meets a condition holds at the end of a run just if all its steps have met it. -/
theorem iff_okAlong_of_step {J : σ → Prop} (h : exec step s as = some t) (h0 : I s)
    (hstep : ∀ s a t, I s → step s a = some t → I t ∧ (J t ↔ J s ∧ ok s a)) : J t ↔ J s ∧ okAlong step ok s as := by
  induction as generalizing s with
  | nil =>
    cases h
    exact (and_iff_left trivial).symm
  | cons a as ih =>
    obtain ⟨m, hm, hr⟩ := exec_cons_eq_some.1 h
    obtain ⟨kept, each⟩ := hstep s a m h0 hm
    rw [ih hr kept, each, and_assoc]
    refine and_congr_right fun _ => and_congr_right fun _ => ?_
    exact ⟨fun rest t there => by rw [hm] at there; cases there; exact rest, fun rest => rest m hm⟩

section

variable (h : exec step s as = some t) (hok : okAlong step ok s as)
include h hok

/-- Forward along a run: what its steps keep under their condition holds at its end. -/
theorem exec_invariant (h0 : I s) (hstep : ∀ s a t, I s → ok s a → step s a = some t → I t) : I t :=
  (reaches_of_exec h hok).invariant h0 hstep

/-- A condition that an invariant gives holds along the run. -/
theorem okAlong_of_invariant (h0 : I s) (hstep : ∀ s a t, I s → ok s a → step s a = some t → I t ∧ ok' s a) :
    okAlong step ok' s as := by
  induction as generalizing s with
  | nil => trivial
  | cons a as ih =>
    obtain ⟨m, hm, hr⟩ := exec_cons_eq_some.1 h
    obtain ⟨kept, met⟩ := hstep s a m h0 hok.1 hm
    refine ⟨met, fun t ht => ?_⟩
    obtain rfl : m = t := Option.some.inj (hm.symm.trans ht)
    exact ih hr (hok.2 m hm) kept

/-- Backward along a run: if each step whose end is right began right and met the condition, then
so did every step of a run whose end is right. -/
theorem okAlong_of_end {J : σ → Prop} (h0 : J s) (hstep : ∀ s a t, J s → ok s a → step s a = some t → J t)
    (back : ∀ s a t, J s → ok s a → step s a = some t → I t → I s ∧ ok' s a) (right : I t) :
    I s ∧ okAlong step ok' s as := by
  induction as generalizing s with
  | nil =>
    cases h
    exact ⟨right, trivial⟩
  | cons a as ih =>
    obtain ⟨m, hm, hr⟩ := exec_cons_eq_some.1 h
    obtain ⟨here, rest⟩ := ih hr (hok.2 m hm) (hstep s a m h0 hok.1 hm)
    obtain ⟨began, met⟩ := back s a m h0 hok.1 hm here
    refine ⟨began, met, fun t ht => ?_⟩
    obtain rfl : m = t := Option.some.inj (hm.symm.trans ht)
    exact rest

end

theorem okAlong_always : okAlong step always s as := by
  induction as generalizing s with
  | nil => trivial
  | cons a as ih => exact ⟨trivial, fun _ _ => ih⟩

end SensorKit.Lib
