import Mathlib.Data.Set.Finite.List

/-!
# Cycles of a relation

A relation has a cycle if a point leads back to itself. In finitely many points each of which leads to another of them
there is one; a point from which every way ends is on none.
-/

namespace SensorKit.Lib

variable {α β : Type*} {r : α → α → Prop} {a : α}

def Cyclic (r : α → α → Prop) : Prop :=
  ∃ a, Relation.TransGen r a a

/-- Where every way ends there is no cycle. -/
theorem not_cyclic_of_acc (ends : ∀ a, Acc (fun b a => r a b) a) : ¬ Cyclic r := by
  rintro ⟨a, cycle⟩
  have back : Relation.TransGen (fun b a => r a b) a a := Relation.transGen_swap.1 cycle
  have wf : WellFounded (Relation.TransGen fun b a => r a b) := (WellFounded.intro ends).transGen
  exact wf.irrefl.irrefl a back

/-- A relation that maps into another has a cycle only if that has one. -/
theorem Cyclic.map {r' : β → β → Prop} (f : α → β) (maps : ∀ a b, r a b → Relation.TransGen r' (f a) (f b))
    (cyclic : Cyclic r) : Cyclic r' := by
  obtain ⟨a, cycle⟩ := cyclic
  exact ⟨f a, Relation.TransGen.lift' f maps a a cycle⟩

/-- A cycle goes through points that each lead back to themselves. -/
theorem Cyclic.within (cyclic : Cyclic r) :
    Cyclic fun a b => r a b ∧ Relation.TransGen r a a ∧ Relation.TransGen r b b := by
  obtain ⟨a, cycle⟩ := cyclic
  have on (b : α) (leads : Relation.TransGen r a b) (back : Relation.ReflTransGen r b a) :
      Relation.TransGen (fun a b => r a b ∧ Relation.TransGen r a a ∧ Relation.TransGen r b b) a b := by
    induction leads with
    | single edge => exact .single ⟨edge, cycle, .trans_right back (.single edge)⟩
    | tail leads edge ih =>
      have before := back.head edge
      exact .tail (ih before) ⟨edge, .trans_right before leads, .trans_right back (.tail leads edge)⟩
  exact ⟨a, on a cycle .refl⟩

/-- A cycle goes through edges that leave the rank as it is, where no edge raises it. -/
theorem Cyclic.of_rank {s : α → α → Prop} (rank : α → ℕ)
    (edges : ∀ a b, r a b → rank b < rank a ∨ rank b ≤ rank a ∧ s a b) (cyclic : Cyclic r) : Cyclic s := by
  obtain ⟨a, cycle⟩ := cyclic
  have leads (b : α) (leads : Relation.TransGen r a b) :
      rank b < rank a ∨ rank b ≤ rank a ∧ Relation.TransGen s a b := by
    induction leads with
    | single edge => exact (edges _ _ edge).imp_right fun ⟨le, edge⟩ => ⟨le, .single edge⟩
    | tail _ edge ih =>
      rcases edges _ _ edge with lt | ⟨le, edge⟩
      · rcases ih with lt' | ⟨le', -⟩ <;> exact .inl (by omega)
      · rcases ih with lt' | ⟨le', leads⟩
        · exact .inl (by omega)
        · exact .inr ⟨by omega, .tail leads edge⟩
  rcases leads a cycle with lt | ⟨-, cycle⟩
  · omega
  · exact ⟨a, cycle⟩

end SensorKit.Lib
