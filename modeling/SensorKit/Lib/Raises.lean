import Mathlib.Data.List.Induction
import SensorKit.Lib.Fallible

/-!
# What a computation may raise

Errors come in kinds. `RaisesOnly kind x` says that the computation returns or raises an error of the kind, and is
kept by binds, traversals, searches and loops. The empty kind is that of computations which return.
-/

namespace SensorKit.Lib

variable {ε α β σ : Type} {kind : ε → Prop} {x : Except ε α} {xs : List α}

/-- Whatever the computation raises is of the kind. -/
def RaisesOnly (kind : ε → Prop) (x : Except ε α) : Prop :=
  ∀ e, x = .error e → kind e

/-- The computation returns. -/
abbrev Returns (x : Except ε α) : Prop :=
  RaisesOnly (fun _ => False) x

theorem raisesOnly_ok (a : α) : RaisesOnly kind (.ok a : Except ε α) := by
  intro e raised
  cases raised

theorem raisesOnly_pure (a : α) : RaisesOnly kind (pure a : Except ε α) :=
  raisesOnly_ok a

theorem raisesOnly_error {e : ε} (is_kind : kind e) : RaisesOnly kind (.error e : Except ε α) := by
  intro e' raised
  cases raised
  exact is_kind

theorem returns_iff : Returns x ↔ ∃ a, x = .ok a := by
  constructor
  · intro h
    cases same : x with
    | ok a => exact ⟨a, rfl⟩
    | error e => exact (h e same).elim
  · rintro ⟨a, rfl⟩
    exact raisesOnly_ok a

theorem Returns.raisesOnly (h : Returns x) : RaisesOnly kind x := by
  intro e raised
  exact (h e raised).elim

theorem isOk_iff : x.isOk = true ↔ ∃ a, x = .ok a := by
  cases x <;> simp [Except.isOk, Except.toBool]

/-- Such a computation either returns or raises an error of the kind. -/
theorem RaisesOnly.cases (h : RaisesOnly kind x) : (∃ a, x = .ok a) ∨ ∃ e, x = .error e ∧ kind e := by
  cases same : x with
  | ok a => exact .inl ⟨a, rfl⟩
  | error e => exact .inr ⟨e, rfl, h e same⟩

theorem RaisesOnly.bind {f : α → Except ε β} (h : RaisesOnly kind x)
    (rest : ∀ a, x = .ok a → RaisesOnly kind (f a)) : RaisesOnly kind (x >>= f) := by
  cases same : x with
  | ok a => exact rest a same
  | error e => exact raisesOnly_error (h e same)

theorem raisesOnly_mapM {f : α → Except ε β} (each : ∀ x ∈ xs, RaisesOnly kind (f x)) :
    RaisesOnly kind (xs.mapM f) := by
  induction xs with
  | nil => exact raisesOnly_pure []
  | cons x xs ih =>
    rw [List.mapM_cons]
    refine (each x (by simp)).bind fun y _ => ?_
    refine (ih fun x mem => each x (by simp [mem])).bind fun ys _ => ?_
    exact raisesOnly_pure (y :: ys)

theorem raisesOnly_forM {f : α → Except ε Unit} (each : ∀ x ∈ xs, RaisesOnly kind (f x)) :
    RaisesOnly kind (xs.forM f) := by
  induction xs with
  | nil => exact raisesOnly_pure ()
  | cons x xs ih =>
    rw [List.forM]
    refine (each x (by simp)).bind fun _ _ => ?_
    exact ih fun x mem => each x (by simp [mem])

section Tests

variable {p : α → Except ε Bool}

section

variable (each : ∀ x ∈ xs, RaisesOnly kind (p x))
include each

theorem raisesOnly_keepM : RaisesOnly kind (keepM p xs) := by
  induction xs with
  | nil => exact raisesOnly_ok []
  | cons x xs ih =>
    unfold keepM
    refine (each x (by simp)).bind fun kept _ => ?_
    refine (ih fun x mem => each x (by simp [mem])).bind fun rest _ => ?_
    exact raisesOnly_pure _

theorem raisesOnly_anyM : RaisesOnly kind (xs.anyM p) := by
  induction xs with
  | nil => exact raisesOnly_pure false
  | cons x xs ih =>
    rw [List.anyM]
    refine (each x (by simp)).bind fun test _ => ?_
    cases test with
    | true => exact raisesOnly_pure true
    | false => exact ih fun x mem => each x (by simp [mem])

theorem raisesOnly_allM : RaisesOnly kind (xs.allM p) := by
  induction xs with
  | nil => exact raisesOnly_pure true
  | cons x xs ih =>
    rw [List.allM]
    refine (each x (by simp)).bind fun test _ => ?_
    cases test with
    | true => exact ih fun x mem => each x (by simp [mem])
    | false => exact raisesOnly_pure false

end

/-- A check that all elements pass. -/
theorem allM_eq_true (each : ∀ x ∈ xs, p x = .ok true) : xs.allM p = .ok true := by
  induction xs with
  | nil => rfl
  | cons x xs ih =>
    rw [List.allM, each x (by simp)]
    exact ih fun x mem => each x (by simp [mem])

theorem raisesOnly_findM? (each : ∀ x ∈ xs, RaisesOnly kind (p x)) : RaisesOnly kind (xs.findM? p) := by
  induction xs with
  | nil => exact raisesOnly_pure none
  | cons x xs ih =>
    rw [List.findM?]
    refine (each x (by simp)).bind fun test _ => ?_
    cases test with
    | true => exact raisesOnly_pure (some x)
    | false => exact ih fun x mem => each x (by simp [mem])

/-- A search goes past what fails the test. -/
theorem findM?_append {before after : List α} {result : Except ε Bool} {a : α}
    (refused : ∀ y ∈ before, p y = .ok false) (here : p a = result) :
    (before ++ a :: after).findM? p =
      (result >>= fun test => if test then pure (some a) else after.findM? p) := by
  subst here
  induction before with
  | nil =>
    rw [List.nil_append, List.findM?]
    congr 1
    funext test
    cases test <;> rfl
  | cons y before ih =>
    rw [List.cons_append, List.findM?, refused y (by simp)]
    exact ih fun y mem => refused y (by simp [mem])

/-- What a search finds satisfies the test. -/
theorem holds_of_findM? {x : α} (h : xs.findM? p = .ok (some x)) : p x = .ok true := by
  induction xs with
  | nil => simp [List.findM?, pure_eq_ok] at h
  | cons y xs ih =>
    rw [List.findM?, bind_eq_ok] at h
    obtain ⟨test, tested, h⟩ := h
    cases test with
    | true =>
      cases pure_eq_ok.1 h
      exact tested
    | false => exact ih h

/-- A search for the first element that satisfies a test. -/
theorem findM?_eq_ok {f : α → Bool} (each : ∀ x ∈ xs, p x = .ok (f x)) : xs.findM? p = .ok (xs.find? f) := by
  induction xs with
  | nil => rfl
  | cons x xs ih =>
    rw [List.findM?, each x (by simp), List.find?_cons]
    cases f x with
    | true => rfl
    | false => exact ih fun x mem => each x (by simp [mem])

/-- A search that finds nothing. -/
theorem findM?_eq_ok_none (h : xs.findM? p = .ok none) : ∀ x ∈ xs, p x = .ok false := by
  induction xs with
  | nil => simp
  | cons y xs ih =>
    rw [List.findM?, bind_eq_ok] at h
    obtain ⟨test, tested, h⟩ := h
    cases test with
    | true => simp [pure_eq_ok] at h
    | false =>
      intro x mem
      rcases List.mem_cons.1 mem with rfl | mem
      · exact tested
      · exact ih h x mem

theorem findSomeM?_eq_ok_none {f : α → Except ε (Option β)} : xs.findSomeM? f = .ok none ↔ ∀ x ∈ xs, f x = .ok none := by
  induction xs with
  | nil => simp [List.findSomeM?, pure_eq_ok]
  | cons y xs ih =>
    rw [List.findSomeM?, bind_eq_ok, List.forall_mem_cons, ← ih]
    constructor
    · rintro ⟨found, tested, rest⟩
      cases found with
      | some b => simp [pure_eq_ok] at rest
      | none => exact ⟨tested, rest⟩
    · rintro ⟨tested, rest⟩
      exact ⟨none, tested, rest⟩

end Tests

/-- A loop whose turns keep an invariant and raise only errors of the kind. -/
theorem raisesOnly_foldlM {g : σ → α → Except ε σ} {s : σ} (I : σ → Prop) (start : I s)
    (turn : ∀ s, ∀ x ∈ xs, I s → RaisesOnly kind (g s x) ∧ ∀ t, g s x = .ok t → I t) :
    RaisesOnly kind (xs.foldlM g s) := by
  induction xs generalizing s with
  | nil => exact raisesOnly_pure s
  | cons x xs ih =>
    rw [List.foldlM_cons]
    obtain ⟨raises, keeps⟩ := turn s x (by simp) start
    exact raises.bind fun m first => ih (keeps m first) fun s x mem => turn s x (by simp [mem])

/-- **A loop returns** if and only if every turn that it comes to does. -/
theorem exists_foldlM_iff {g : σ → α → Except ε σ} {s : σ} : (∃ t, xs.foldlM g s = .ok t) ↔
    ∀ before x after m, xs = before ++ x :: after → before.foldlM g s = .ok m → ∃ t, g m x = .ok t := by
  constructor
  · rintro ⟨t, ran⟩ before x after m rfl came
    rw [List.foldlM_append, bind_eq_ok] at ran
    obtain ⟨m', came', ran⟩ := ran
    cases came.symm.trans came'
    rw [List.foldlM_cons, bind_eq_ok] at ran
    obtain ⟨t', turn, -⟩ := ran
    exact ⟨t', turn⟩
  · intro turns
    induction xs using List.reverseRecOn with
    | nil => exact ⟨s, rfl⟩
    | append_singleton before x ih =>
      obtain ⟨m, came⟩ := ih fun before' x' after' m split came =>
        turns before' x' (after' ++ [x]) m (by rw [split]; simp) came
      obtain ⟨t, turn⟩ := turns before x [] m rfl came
      refine ⟨t, ?_⟩
      rw [List.foldlM_append, bind_eq_ok]
      exact ⟨m, came, by rw [List.foldlM_cons, bind_eq_ok]; exact ⟨t, turn, rfl⟩⟩

end SensorKit.Lib
