import SensorKit.Common.ModelRegistryUpdate

/-!
# Resolution of tags that are registered in several namespaces

The loop of `_resolve` keeps the listed namespace of the highest precedence. Its answer when there is none is the unnamed
namespace, whether or not that one registers the tag: what is then found there, or under the default tag, is taken for the
tag's type.
-/

namespace SensorKit.Common

open Lib

variable {T : Type} {registry : ModelRegistry T} {precedence : List String} {tag namespc : String} {ns : Option String}

namespace ModelRegistry

/-- The data carry a tag, or the context does, or both carry the same one. -/
def Carries (registry : ModelRegistry T) (data : String → Option String) (tagFromContext : Option String) (tag : String) :
    Prop :=
  let tagFromData := ModelRegistryView.given ((ModelRegistryView.given registry.discriminatorField).bind data)
  let tagFromContext := ModelRegistryView.given tagFromContext
  tagFromData.or tagFromContext = some tag ∧ (tagFromData = none ∨ tagFromContext = none ∨ tagFromContext = tagFromData)

end ModelRegistry

/-- Data are validated against a type: a dictionary is, and an object of that type. -/
def ValidatedAs (modelType : T) (object : Option T) (outcome : Except String T) : Prop :=
  (object = none ∨ object = some modelType → outcome = .ok modelType) ∧
    (¬(object = none ∨ object = some modelType) → ∃ error, outcome = .error error)

theorem ValidatedAs.eq {modelType other : T} {object : Option T} {outcome : Except String T}
    (validated : ValidatedAs modelType object outcome) (accepted : outcome = .ok other) : other = modelType := by
  by_cases fits : object = none ∨ object = some modelType
  · exact Except.ok.inj (accepted.symm.trans (validated.1 fits))
  · obtain ⟨error, raised⟩ := validated.2 fits
    rw [raised] at accepted
    cases accepted

namespace ModelRegistryView

open ModelRegistry

variable {view : ModelRegistryView T}

/-- What the loop of `_resolve` holds when it has seen some namespaces: the best of the listed ones and its place, or none if
none is listed. -/
inductive Best (view : ModelRegistryView T) (seen : List (Option String)) : Option String × Option ℕ → Prop where
  | listed (best : String) (place : ℕ) (mem : some best ∈ seen) (held : view.precedence.get? best = some place)
      (first : ∀ other later, some other ∈ seen → view.precedence.get? other = some later → place ≤ later) :
      Best view seen (some best, some place)
  | unlisted (absent : ∀ other, some other ∈ seen → view.precedence.get? other = none) : Best view seen (none, none)

/-- A turn of the loop on a namespace that is not listed, or that is the unnamed one, changes nothing. -/
theorem Best.skip {seen : List (Option String)} {bestPrio : Option String × Option ℕ} (best : Best view seen bestPrio)
    (unlisted : ∀ namespc, ns = some namespc → view.precedence.get? namespc = none) :
    view.resolveStep bestPrio ns = bestPrio ∧ Best view (seen ++ [ns]) bestPrio := by
  have old (other : String) (later : ℕ) (there : some other ∈ seen ++ [ns])
      (held : view.precedence.get? other = some later) : some other ∈ seen := by
    obtain there | there := List.mem_append.1 there
    · exact there
    · rw [unlisted other (List.mem_singleton.1 there).symm] at held
      cases held
  constructor
  · cases ns with
    | none => cases best <;> rfl
    | some namespc =>
      unfold resolveStep
      dsimp only
      rw [unlisted namespc rfl, if_neg (by cases best <;> exact id)]
  · cases best with
    | listed best place mem held first =>
      exact .listed best place (List.mem_append_left _ mem) held fun other later there held =>
        first other later (old other later there held) held
    | unlisted absent =>
      refine .unlisted fun other there => ?_
      cases held : view.precedence.get? other with
      | none => rfl
      | some later => exact held.symm.trans (absent other (old other later there held))

/-- A turn of the loop on a listed namespace keeps the better of two. -/
theorem Best.take {seen : List (Option String)} {bestPrio : Option String × Option ℕ} (best : Best view seen bestPrio)
    {place : ℕ} (held : view.precedence.get? namespc = some place) :
    Best view (seen ++ [some namespc]) (view.resolveStep bestPrio (some namespc)) := by
  have either (other : String) (there : some other ∈ seen ++ [some namespc]) : some other ∈ seen ∨ other = namespc :=
    (List.mem_append.1 there).imp_right fun last => Option.some.inj (List.mem_singleton.1 last)
  have here : some namespc ∈ seen ++ [some namespc] := List.mem_append_right _ List.mem_cons_self
  unfold resolveStep
  dsimp only
  rw [held]
  cases best with
  | unlisted absent =>
    refine .listed namespc place here held fun other later there held' => ?_
    obtain there | rfl := either other there
    · rw [absent other there] at held'
      cases held'
    · exact Nat.le_of_eq (Option.some.inj (held.symm.trans held'))
  | listed best bestPlace mem bestHeld first =>
    split
    · rename_i before
      have less : place < bestPlace := before
      refine .listed namespc place here held fun other later there held' => ?_
      obtain there | rfl := either other there
      · have bound := first other later there held'
        omega
      · exact Nat.le_of_eq (Option.some.inj (held.symm.trans held'))
    · rename_i before
      have least : bestPlace ≤ place := Nat.not_lt.1 before
      refine .listed best bestPlace (List.mem_append_left _ mem) bestHeld fun other later there held' => ?_
      obtain there | rfl := either other there
      · exact first other later there held'
      · rw [held] at held'
        cases held'
        exact least

variable [DecidableEq T]

variable {types : ModelTypes T} {object : Option T} {data : String → Option String} {tagFromContext : Option String}

end ModelRegistryView

end SensorKit.Common
