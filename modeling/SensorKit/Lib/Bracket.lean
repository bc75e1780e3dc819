import Mathlib.Data.List.Basic

/-!
# Bracketed logs

A log of marks, each of which opens, accompanies or closes something. What a reader of the log
wants of one of these things is that it is absent, or open at the end with nothing in between,
or opened and closed once with nothing in between. The lemmas say how each of the three goes on
when a mark is appended.
-/

namespace SensorKit.Lib

/-- What an entry of a log says of the thing it is about. -/
inductive Mark (ι : Type*) where
  | opens (i : ι)
  | inside (i : ι)
  | closes (i : ι)
deriving DecidableEq, Repr

namespace Mark

variable {ι : Type*}

def about : Mark ι → ι
  | opens i | inside i | closes i => i

/-- The log has nothing about `i`. -/
def Absent (log : List (Mark ι)) (i : ι) : Prop :=
  ∀ m ∈ log, m.about ≠ i

/-- The log ends with the opening of `i` and what accompanies it. -/
def Opened (log : List (Mark ι)) (i : ι) : Prop :=
  ∃ before within, log = before ++ opens i :: within ∧ Absent before i ∧ ∀ m ∈ within, m = inside i

/-- The log opens and closes `i`, once, with nothing about anything else in between. -/
def Closed (log : List (Mark ι)) (i : ι) : Prop :=
  ∃ before within after, log = before ++ opens i :: (within ++ closes i :: after) ∧
    Absent before i ∧ (∀ m ∈ within, m = inside i) ∧ Absent after i

variable {log : List (Mark ι)} {i j : ι} {m : Mark ι}

theorem Absent.nil : Absent [] i := by
  simp [Absent]

theorem Absent.snoc (h : Absent log i) (other : m.about ≠ i) : Absent (log ++ [m]) i := by
  intro m' mem
  rcases List.mem_append.1 mem with mem | mem
  · exact h m' mem
  · rw [List.mem_singleton.1 mem]
    exact other

theorem Absent.opens (h : Absent log i) : Opened (log ++ [.opens i]) i :=
  ⟨log, [], rfl, h, by simp⟩

theorem Opened.inside (h : Opened log i) : Opened (log ++ [.inside i]) i := by
  obtain ⟨before, within, rfl, absent, all⟩ := h
  refine ⟨before, within ++ [.inside i], by simp, absent, fun m mem => ?_⟩
  rcases List.mem_append.1 mem with mem | mem
  · exact all m mem
  · exact List.mem_singleton.1 mem

theorem Opened.closes (h : Opened log i) : Closed (log ++ [.closes i]) i := by
  obtain ⟨before, within, rfl, absent, all⟩ := h
  exact ⟨before, within, [], by simp, absent, all, Absent.nil⟩

theorem Closed.snoc (h : Closed log i) (other : m.about ≠ i) : Closed (log ++ [m]) i := by
  obtain ⟨before, within, after, rfl, absent, all, absent'⟩ := h
  exact ⟨before, within, after ++ [m], by simp, absent, all, absent'.snoc other⟩

/-- The last mark of a log is about what is open in it. -/
theorem Opened.about_last (h : Opened log i) : ∃ m, log.getLast? = some m ∧ m.about = i := by
  obtain ⟨before, within, rfl, -, all⟩ := h
  rcases List.eq_nil_or_concat within with rfl | ⟨init, m, rfl⟩
  · exact ⟨.opens i, by simp, rfl⟩
  · have inside : m = .inside i := all m (by simp)
    refine ⟨m, ?_, by rw [inside]; rfl⟩
    rw [List.concat_eq_append, ← List.cons_append, ← List.append_assoc, List.getLast?_concat]

/-- One thing is open at a time. -/
theorem Opened.unique (h : Opened log i) (h' : Opened log j) : i = j := by
  obtain ⟨m, last, rfl⟩ := h.about_last
  obtain ⟨m', last', rfl⟩ := h'.about_last
  obtain rfl : m = m' := by simpa [last] using last'
  rfl

end Mark

end SensorKit.Lib
