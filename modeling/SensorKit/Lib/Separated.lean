import Mathlib.Data.List.Basic

/-!
# Names joined by a separator

Names that are joined are read back by splitting, each one that holds the separator itself as several.
-/

namespace SensorKit.Lib

section Lists

variable {α : Type*} [BEq α] [LawfulBEq α] {x : α} {xs l : List α} {ls : List (List α)}

/-- Splitting what has been joined splits each part. -/
theorem splitOn_intercalate_eq (some_ : ls ≠ []) : ([x].intercalate ls).splitOn x = ls.flatMap (·.splitOn x) := by
  induction ls with
  | nil => exact absurd rfl some_
  | cons first rest ih =>
    cases rest with
    | nil => rw [List.intercalate_singleton, List.flatMap_singleton]
    | cons second rest =>
      rw [List.intercalate_cons_cons, List.append_assoc, List.singleton_append, List.splitOn_append_cons_self,
        ih (List.cons_ne_nil second rest)]
      rfl

/-- No part of a split holds the separator. -/
theorem notMem_of_mem_splitOn (part : l ∈ xs.splitOn x) : x ∉ l := by
  induction xs generalizing l with
  | nil =>
    rw [List.splitOn_nil, List.mem_singleton] at part
    rw [part]
    exact List.not_mem_nil
  | cons y ys ih =>
    rw [List.splitOn_cons_eq_if_modifyHead] at part
    split at part
    · rcases List.mem_cons.1 part with rfl | part
      · exact List.not_mem_nil
      · exact ih part
    · rename_i apart
      cases parts : ys.splitOn x with
      | nil =>
        rw [parts] at part
        cases part
      | cons first rest =>
        rw [parts, List.modifyHead_cons] at part
        rcases List.mem_cons.1 part with rfl | part
        · have free := ih (parts ▸ List.mem_cons_self : first ∈ ys.splitOn x)
          rw [List.mem_cons, not_or]
          exact ⟨fun same => apart (beq_iff_eq.2 same.symm), free⟩
        · exact ih (parts ▸ List.mem_cons_of_mem first part : l ∈ ys.splitOn x)

end Lists

/-! ## Names -/

def joinDots (names : List String) : String :=
  String.ofList (['.'].intercalate (names.map String.toList))

def splitDots (text : String) : List String :=
  (text.toList.splitOn '.').map String.ofList

/-- The name does not hold the separator. -/
def DotFree (name : String) : Prop :=
  '.' ∉ name.toList

instance : DecidablePred DotFree := fun name => inferInstanceAs (Decidable ('.' ∉ name.toList))

variable {name text : String} {names : List String}

theorem splitDots_joinDots (some_ : names ≠ []) : splitDots (joinDots names) = names.flatMap splitDots := by
  have parts : names.map String.toList ≠ [] := fun none_ => some_ (List.map_eq_nil_iff.1 none_)
  unfold splitDots joinDots
  rw [String.toList_ofList, splitOn_intercalate_eq parts, List.flatMap_map, List.map_flatMap]

theorem dotFree_of_mem (part : name ∈ splitDots text) : DotFree name := by
  obtain ⟨l, mem, rfl⟩ := List.mem_map.1 part
  unfold DotFree
  rw [String.toList_ofList]
  exact notMem_of_mem_splitOn mem

theorem splitDots_eq_singleton (free : DotFree name) : splitDots name = [name] := by
  unfold splitDots
  rw [List.splitOn_eq_singleton free, List.map_singleton, String.ofList_toList]

theorem flatMap_splitDots (free : ∀ name ∈ names, DotFree name) : names.flatMap splitDots = names := by
  induction names with
  | nil => rfl
  | cons name names ih =>
    rw [List.flatMap_cons, splitDots_eq_singleton (free name List.mem_cons_self),
      ih fun other mem => free other (List.mem_cons_of_mem name mem), List.singleton_append]

theorem dotFree_of_mem_flatMap (part : name ∈ names.flatMap splitDots) : DotFree name := by
  obtain ⟨text, -, part⟩ := List.mem_flatMap.1 part
  exact dotFree_of_mem part

theorem splitDots_ne_nil : splitDots name ≠ [] :=
  fun none_ => List.splitOn_ne_nil _ _ (List.map_eq_nil_iff.1 none_)

/-- Names are split into no fewer parts than they are. -/
theorem length_le_flatMap : names.length ≤ (names.flatMap splitDots).length := by
  induction names with
  | nil => exact Nat.le_refl _
  | cons name names ih =>
    have some_ := List.length_pos_of_ne_nil (@splitDots_ne_nil name)
    rw [List.flatMap_cons, List.length_append, List.length_cons]
    omega

end SensorKit.Lib
