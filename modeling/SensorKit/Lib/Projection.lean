import Mathlib.Logic.Relation

/-!
# Projection of a relation along hidden points

Taking points out of a relation joins what they connected: `Through edge hidden a b` holds if `b` follows
`a` along edges whose inner points are all hidden.
-/

namespace SensorKit.Lib

variable {α : Type*} {edge edge' : α → α → Prop} {hidden : α → Prop} {a b : α}

inductive Through (edge : α → α → Prop) (hidden : α → Prop) : α → α → Prop where
  | direct {a b : α} : edge a b → Through edge hidden a b
  | hidden {a b c : α} : edge a b → hidden b → Through edge hidden b c → Through edge hidden a c

/-- A chain begins with an edge to its end, or to a hidden point with a chain from there. -/
theorem through_iff :
    Through edge hidden a b ↔ edge a b ∨ ∃ c, edge a c ∧ hidden c ∧ Through edge hidden c b := by
  constructor
  · intro chain
    cases chain with
    | direct first => exact .inl first
    | hidden first inner rest => exact .inr ⟨_, first, inner, rest⟩
  · rintro (first | ⟨c, first, inner, rest⟩)
    · exact .direct first
    · exact .hidden first inner rest

theorem Through.transGen (chain : Through edge hidden a b) : Relation.TransGen edge a b := by
  induction chain with
  | direct first => exact .single first
  | hidden first _ _ ih => exact .head first ih

/-- If every way among hidden points ends, and so does every way from the points that follow in the projection, then
every way ends. -/
theorem acc_of_through (inner : Acc (fun b a => edge a b ∧ hidden b) a)
    (outer : ∀ b, ¬ hidden b → Through edge hidden a b → Acc (fun b a => edge a b) b) :
    Acc (fun b a => edge a b) a := by
  induction inner with
  | intro a _ ih =>
    refine ⟨a, fun b first => ?_⟩
    by_cases out : hidden b
    · exact ih b ⟨first, out⟩ fun c stays chain => outer c stays (.hidden first out chain)
    · exact outer b out (.direct first)

/-- Where nothing is hidden, the projection is the relation. -/
theorem through_iff_of_none (none : ∀ c, ¬ hidden c) : Through edge hidden a b ↔ edge a b := by
  rw [through_iff]
  exact or_iff_left fun ⟨c, _, inner, _⟩ => none c inner

end SensorKit.Lib
