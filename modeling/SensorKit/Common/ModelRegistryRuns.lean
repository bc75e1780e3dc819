import SensorKit.Common.ModelRegistryUpdate
import SensorKit.Lib.Run

/-!
# Histories of a model registry

The calls that a registry and its views get, in any order. An `add` that raises on a conflict has already recorded the entry,
and `get_type` on a tag that is not registered leaves it in the index without a namespace. As long as neither happens, a
raising `add` changes nothing, lookups are pure, the entries and the index agree, and updates of views go through.
-/

namespace SensorKit.Common

open Lib

variable {T : Type} [DecidableEq T] (types : ModelTypes T)

/-- A registry and the views created on it. -/
structure Registries (T : Type) where
  registry : ModelRegistry T
  views : List (ModelRegistryView T) := []

/-- A call. Views are told by the order in which they are created. -/
inductive RegistryCall (T : Type) where
  | add (modelType : T) (tag ns : Option String)
  | getType (tag : String) (ns : Option String)
  | getNamespaces (tag : String)
  | getTags
  | contains (modelType : T)
  | createResolvedView (namespacePrecedence : List String)
  | updateView (place : ℕ)
  | viewContains (place : ℕ) (modelType : T)
  | validate (object : Option T) (data : String → Option String) (tagFromContext : Option String)
  | validateView (place : ℕ) (object : Option T) (data : String → Option String) (tagFromContext : Option String)

/-- What a call returns. A validation is against a type. -/
inductive RegistryAnswer (T : Type) where
  | done
  | type (modelType : Option T)
  | namespaces (namespaces : List (Option String))
  | tags (tags : List String)
  | member (here : Bool)
  | view (view : ModelRegistryView T)
  | raised (error : String)

namespace RegistryAnswer

def ofUnit : Except String Unit → RegistryAnswer T
  | .ok () => .done
  | .error error => .raised error

def ofValidation : Except String T → RegistryAnswer T
  | .ok modelType => .type (some modelType)
  | .error error => .raised error

end RegistryAnswer

namespace Registries

variable (state : Registries T)

/-- The state after a call, and what it returns. A view that was not created gets no call. -/
def call : RegistryCall T → Option (Registries T × RegistryAnswer T)
  | .add modelType tag ns =>
    let (registry, outcome) := state.registry.add types modelType tag ns
    some ({ state with registry }, .ofUnit outcome)
  | .getType tag ns =>
    let (registry, modelType) := state.registry.getType tag ns
    some ({ state with registry }, .type modelType)
  | .getNamespaces tag => some (state, .namespaces (state.registry.getNamespaces tag))
  | .getTags => some (state, .tags state.registry.getTags)
  | .contains modelType => some (state, .member (state.registry.contains modelType))
  | .createResolvedView namespacePrecedence =>
    match (ModelRegistryView.new namespacePrecedence).update state.registry with
    | ((registry, view), .ok ()) => some (⟨registry, state.views ++ [view]⟩, .view view)
    | ((registry, _), .error error) => some ({ state with registry }, .raised error)
  | .updateView place =>
    state.views[place]?.map fun view =>
      let ((registry, view), outcome) := view.update state.registry
      (⟨registry, state.views.set place view⟩, .ofUnit outcome)
  | .viewContains place modelType => state.views[place]?.map fun view => (state, .member (view.contains modelType))
  | .validate object data tagFromContext =>
    let (registry, outcome) := state.registry.validate types object data tagFromContext
    some ({ state with registry }, .ofValidation outcome)
  | .validateView place object data tagFromContext =>
    state.views[place]?.map fun view =>
      (state, .ofValidation (view.validate types state.registry object data tagFromContext))

def step (call : RegistryCall T) : Option (Registries T) := (state.call types call).map Prod.fst

def answer (call : RegistryCall T) : Option (RegistryAnswer T) := (state.call types call).map Prod.snd

end Registries

/-- A registry to which nothing has been added. -/
def Registries.start (discriminatorField defaultTag : Option String) : Registries T where
  registry := { discriminatorField, defaultTag }

namespace RegistryCall

/-- A call that asks only: it neither adds a type nor updates a view. -/
def Lookup : RegistryCall T → Prop
  | .add .. => False
  | .updateView _ => False
  | _ => True

/-- The view that a call is on, if any. -/
def place : RegistryCall T → Option ℕ
  | .updateView place => some place
  | .viewContains place _ => some place
  | .validateView place _ _ _ => some place
  | _ => none

end RegistryCall

namespace ModelRegistry

variable (registry : ModelRegistry T)

/-- Every entry with a tag is what is found under its tag and namespace, and conversely. -/
structure Indexed : Prop where
  entry : ∀ modelType entry tag, registry.entries.get? modelType = some entry → entry.tag = some tag →
    registry.lookup tag entry.ns = some modelType
  found : ∀ tag ns modelType, registry.lookup tag ns = some modelType →
    registry.entries.get? modelType = some ⟨modelType, some tag, ns⟩

/-- The tag of a type is already taken in the namespace, by another type. -/
def Conflicts (modelType : T) (tag ns : Option String) : Prop :=
  types.isAbstract modelType = false ∧ modelType ∉ registry.entries.keys ∧
    ∃ given, registry.tagFor types modelType tag = .ok (some given) ∧ ns ∈ registry.getNamespaces given

end ModelRegistry

namespace Registries

variable (state : Registries T)

/-- What the registry promises of a call: if it is an `add` that raises, nothing has changed; if it is a lookup, any call on a
view that is there returns what it would have returned before; then the index and the entries agree, and no view fails to
update. -/
def Kept (call : RegistryCall T) : Prop :=
  ∀ after, state.step types call = some after →
    (∀ modelType tag ns error, call = .add modelType tag ns → state.answer types call = some (.raised error) →
      after = state) ∧
    (call.Lookup → ∀ later, (∀ place ∈ later.place, place < state.views.length) →
      after.answer types later = state.answer types later) ∧
    after.registry.Indexed ∧ ∀ view : ModelRegistryView T, (view.update after.registry).2 = .ok ()

/-- A call that the registry is safe against: it adds no conflicting type, and does not ask for the type of a tag that is not
registered. -/
def Safe : RegistryCall T → Prop
  | .add modelType tag ns => ¬state.registry.Conflicts types modelType tag ns
  | .getType tag _ => tag ∈ state.registry.getTags
  | _ => True

end Registries

namespace ModelRegistry

variable {types} {registry registry' : ModelRegistry T} {modelType : T} {tag : String} {ns : Option String}

/-- An `add` that reaches the index with a tag that is free in the namespace. -/
def added (registry : ModelRegistry T) (modelType : T) (tag : String) (ns : Option String) : ModelRegistry T :=
  { registry with
    entries := registry.entries.insert modelType { modelType, tag := some tag, ns }
    tagIndex := (registry.touch tag).1.tagIndex.insert tag ((registry.touch tag).2.insert ns modelType)
    updateDefaultView := true }

/-- An `add` of a type that has no tag. -/
def addedUntagged (registry : ModelRegistry T) (modelType : T) (ns : Option String) : ModelRegistry T :=
  { registry with
    entries := registry.entries.insert modelType { modelType, tag := none, ns }
    updateDefaultView := true }

omit [DecidableEq T] in
theorem touch_entries (registry : ModelRegistry T) (entries : Dict T (RegistryEntry T)) (tag : String) :
    ({ registry with entries } : ModelRegistry T).touch tag =
    ({ (registry.touch tag).1 with entries }, (registry.touch tag).2) := by
  unfold touch
  dsimp only
  cases registry.tagIndex.get? tag <;> rfl

omit [DecidableEq T] in
theorem mem_touch : ((registry.touch tag).2.get? ns).isSome ↔ ns ∈ registry.getNamespaces tag := by
  rw [Option.isSome_iff_exists, mem_getNamespaces]
  exact exists_congr fun other => by rw [touch_snd]

/-- An `add` that conflicts raises when it has recorded the entry. -/
theorem add_of_conflicts {given : Option String} (conflicts : registry.Conflicts types modelType given ns) :
    ∃ entry error, registry.add types modelType given ns =
      ({ registry with entries := registry.entries.insert modelType entry }, .error error) := by
  obtain ⟨concrete, fresh, tag, determined, taken⟩ := conflicts
  obtain ⟨other, held⟩ := mem_getNamespaces.1 taken
  obtain ⟨namespaces, found, -⟩ := Option.bind_eq_some_iff.1 held
  unfold add
  rw [if_neg (Bool.eq_false_iff.1 concrete), determined]
  dsimp only
  rw [if_neg fresh, touch_entries registry, if_pos (mem_touch.2 taken), touch_of_mem (mem_getTags.2 ⟨namespaces, found⟩)]
  exact ⟨_, _, rfl⟩

/-- What an `add` can do. -/
theorem add_cases (types : ModelTypes T) (registry : ModelRegistry T) (modelType : T) (given ns : Option String) :
    (∃ outcome, registry.add types modelType given ns = (registry, outcome)) ∨
    (modelType ∉ registry.entries.keys ∧
      registry.add types modelType given ns = (registry.addedUntagged modelType ns, .ok ())) ∨
    (∃ tag, modelType ∉ registry.entries.keys ∧ ns ∉ registry.getNamespaces tag ∧
      registry.add types modelType given ns = (registry.added modelType tag ns, .ok ())) ∨
    registry.Conflicts types modelType given ns := by
  unfold add
  split
  · exact .inl ⟨_, rfl⟩
  rename_i concrete
  cases determined : registry.tagFor types modelType given with
  | error error => exact .inl ⟨_, rfl⟩
  | ok tag =>
    dsimp only
    split
    · exact .inl ⟨_, rfl⟩
    rename_i fresh
    cases tag with
    | none => exact .inr (.inl ⟨fresh, rfl⟩)
    | some tag =>
      refine .inr (.inr ?_)
      dsimp only
      rw [touch_entries registry]
      dsimp only
      split
      · rename_i mem
        exact .inr ⟨Bool.eq_false_iff.2 concrete, fresh, tag, determined, mem_touch.1 mem⟩
      · rename_i free
        refine .inl ⟨tag, fresh, fun here => free (mem_touch.2 here), ?_⟩
        unfold added touch
        cases registry.tagIndex.get? tag <;> rfl

end ModelRegistry

end SensorKit.Common
