import SensorKit.Common.ModelRegistry

/-!
# What an update of a view does

As long as each tag of a registry has a namespace, an update reads the registry without changing it, and its assertion
holds. What the view resolves then depends on the registry's index and on its own precedence alone.
-/

namespace SensorKit.Common

open Lib

variable {T : Type} {types : ModelTypes T} {registry registry' : ModelRegistry T}
  {view view' : ModelRegistryView T} {tag : String} {tags : List String} {ns : Option String} {modelType : T}

namespace ModelRegistry

/-- The type that is registered under a tag in a namespace. -/
def lookup (registry : ModelRegistry T) (tag : String) (ns : Option String) : Option T :=
  (registry.tagIndex.get? tag).bind fun namespaces => namespaces.get? ns

/-- No tag is without a namespace. -/
def Inhabited (registry : ModelRegistry T) : Prop :=
  ∀ tag ∈ registry.getTags, registry.getNamespaces tag ≠ []

theorem mem_getTags : tag ∈ registry.getTags ↔ ∃ namespaces, registry.tagIndex.get? tag = some namespaces :=
  Dict.mem_keys

theorem mem_getNamespaces : ns ∈ registry.getNamespaces tag ↔ ∃ modelType, registry.lookup tag ns = some modelType := by
  unfold getNamespaces lookup
  cases registry.tagIndex.get? tag with
  | none => exact iff_of_false (by simp) fun ⟨modelType, held⟩ => by cases held
  | some namespaces => exact Dict.mem_keys

/-- Reading at a tag that is registered changes nothing. -/
theorem touch_of_mem (here : tag ∈ registry.getTags) : (registry.touch tag).1 = registry := by
  obtain ⟨namespaces, found⟩ := mem_getTags.1 here
  unfold touch
  rw [found]

/-- Reading at any other tag registers it, without a namespace. -/
theorem touch_of_notMem (absent : tag ∉ registry.getTags) :
    registry.touch tag = ({ registry with tagIndex := registry.tagIndex.insert tag .empty }, .empty) := by
  have none : registry.tagIndex.get? tag = none := Dict.get?_eq_none.2 absent
  unfold touch
  rw [none]

theorem touch_snd : (registry.touch tag).2.get? ns = registry.lookup tag ns := by
  unfold touch lookup
  cases registry.tagIndex.get? tag <;> rfl

theorem getType_eq : registry.getType tag ns = ((registry.touch tag).1, registry.lookup tag ns) := by
  rw [← touch_snd]
  rfl

end ModelRegistry

variable [DecidableEq T]

namespace ModelRegistryView

open ModelRegistry

/-- The namespace that a tag is resolved to. -/
def choice (view : ModelRegistryView T) (registry : ModelRegistry T) (tag : String) : Option String :=
  if 1 < (registry.getNamespaces tag).length then view.resolve (registry.getNamespaces tag)
  else (registry.getNamespaces tag).headD none

/-- A view after a tag has been resolved. -/
def refreshTag (registry : ModelRegistry T) (view : ModelRegistryView T) (tag : String) : ModelRegistryView T :=
  { view with
    resolved := view.resolved.insert tag (registry.lookup tag (view.choice registry tag))
    index := view.index.insert (registry.lookup tag (view.choice registry tag)) tag }

/-- A view after an update that goes through. -/
def updated (view : ModelRegistryView T) (registry : ModelRegistry T) : ModelRegistryView T :=
  registry.getTags.foldl (refreshTag registry) { view with resolved := .empty, index := .empty }

theorem updateTag_eq (here : registry.getNamespaces tag ≠ []) :
    updateTag (registry, view) tag = .ok (registry, refreshTag registry view tag) := by
  have mem : tag ∈ registry.getTags := by
    obtain ⟨ns, mem⟩ := List.exists_mem_of_ne_nil _ here
    obtain ⟨modelType, held⟩ := mem_getNamespaces.1 mem
    obtain ⟨namespaces, found, -⟩ := Option.bind_eq_some_iff.1 held
    exact mem_getTags.2 ⟨namespaces, found⟩
  unfold updateTag
  dsimp only
  rw [if_neg here, getType_eq, touch_of_mem mem]
  rfl

theorem updateTags_eq (all : ∀ tag ∈ tags, registry.getNamespaces tag ≠ []) :
    updateTags (registry, view) tags = ((registry, tags.foldl (refreshTag registry) view), .ok ()) := by
  induction tags generalizing view with
  | nil => rfl
  | cons tag tags ih =>
    unfold updateTags
    rw [updateTag_eq (all tag List.mem_cons_self)]
    exact ih fun tag mem => all tag (List.mem_cons_of_mem _ mem)

theorem update_eq (inhabited : registry.Inhabited) :
    view.update registry = ((registry, view.updated registry), .ok ()) :=
  updateTags_eq inhabited

theorem precedence_foldl : (tags.foldl (refreshTag registry) view).precedence = view.precedence := by
  induction tags generalizing view with
  | nil => rfl
  | cons tag tags ih => exact ih

theorem precedence_updated : (view.updated registry).precedence = view.precedence :=
  precedence_foldl

/-- An update reads nothing else than the index and the precedence. -/
theorem updated_congr (index : registry.tagIndex = registry'.tagIndex) (precedence : view.precedence = view'.precedence) :
    view.updated registry = view'.updated registry' := by
  have each : refreshTag registry = refreshTag registry' := by
    funext view tag
    unfold refreshTag choice ModelRegistry.lookup ModelRegistry.getNamespaces
    rw [index]
  unfold updated
  rw [each, precedence, ModelRegistry.getTags, index]
  rfl

end ModelRegistryView

namespace ModelRegistry

open ModelRegistryView

/-- The default view has no precedence, and is up to date unless it is to be updated. -/
def Coherent (registry : ModelRegistry T) : Prop :=
  ∀ view, registry.defaultView = some view → view.precedence = (new [] : ModelRegistryView T).precedence ∧
    (registry.updateDefaultView = false → view = (new []).updated registry)

/-- The default view of a registry, up to date. -/
def defaultViewOf (registry : ModelRegistry T) : ModelRegistryView T :=
  (new []).updated registry

theorem refresh_eq (inhabited : registry.Inhabited) (coherent : registry.Coherent) : registry.refresh =
    ({ registry with defaultView := some registry.defaultViewOf, updateDefaultView := false },
      .ok registry.defaultViewOf) := by
  have withView : ∃ view, registry.withDefaultView = ({ registry with defaultView := some view }, .ok view) ∧
      view.precedence = (new [] : ModelRegistryView T).precedence ∧
      (registry.updateDefaultView = false → view = registry.defaultViewOf) := by
    cases held : registry.defaultView with
    | none =>
      refine ⟨registry.defaultViewOf, ?_, precedence_updated, fun _ => rfl⟩
      unfold withDefaultView
      rw [held, update_eq inhabited]
      rfl
    | some view =>
      obtain ⟨precedence, upToDate⟩ := coherent view held
      refine ⟨view, ?_, precedence, upToDate⟩
      unfold withDefaultView
      rw [held]
      exact congrArg (fun given => (({ registry with defaultView := given } : ModelRegistry T), Except.ok view)) held
  obtain ⟨view, given, precedence, upToDate⟩ := withView
  unfold refresh
  rw [given]
  dsimp only
  cases flag : registry.updateDefaultView with
  | true =>
    have inhabited' : Inhabited { registry with defaultView := some view, updateDefaultView := true } := inhabited
    have same : view.updated { registry with defaultView := some view, updateDefaultView := true } =
      registry.defaultViewOf := updated_congr rfl precedence
    rw [update_eq inhabited', same]
    rfl
  | false =>
    rw [upToDate flag]
    rfl

end ModelRegistry

end SensorKit.Common
