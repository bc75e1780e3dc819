import SensorKit.Lib.Dict
import SensorKit.Lib.Fallible

/-!
# Model registries

A registry keeps an entry for each model type, and an index of the types by tag and namespace. A view resolves each tag to
one type by a precedence of namespaces. Types are told apart by the type variable; what the registry asks of one of them is
given.
-/

namespace SensorKit.Common

open Lib

variable {T : Type} [DecidableEq T]

/-- What is asked of a model type: whether it is abstract, its name, and the value of the discriminator field that
`extract_field_default_value` finds. -/
structure ModelTypes (T : Type) where
  isAbstract : T → Bool
  name : T → String
  fieldDefault : String → T → Option String

/-- Metadata record for a type registered in a registry. -/
structure RegistryEntry (T : Type) where
  modelType : T
  tag : Option String
  ns : Option String
deriving DecidableEq, Repr

/-- A view of a registry: the place of each namespace, the type of each tag, and the tag of each type. A tag that is not
resolved has no type. -/
structure ModelRegistryView (T : Type) where
  precedence : Dict String ℕ
  resolved : Dict String (Option T) := .empty
  index : Dict (Option T) String := .empty

structure ModelRegistry (T : Type) where
  discriminatorField : Option String := none
  defaultTag : Option String := none
  entries : Dict T (RegistryEntry T) := .empty
  tagIndex : Dict String (Dict (Option String) T) := .empty
  updateDefaultView : Bool := false
  defaultView : Option (ModelRegistryView T) := none

namespace ModelRegistry

variable (types : ModelTypes T) (registry : ModelRegistry T)

/-- Read the index at a tag: a default map, which a read grows. -/
def touch (tag : String) : ModelRegistry T × Dict (Option String) T :=
  match registry.tagIndex.get? tag with
  | some namespaces => (registry, namespaces)
  | none => ({ registry with tagIndex := registry.tagIndex.insert tag .empty }, .empty)

/-- The tag under which a type is added. A field name that is empty has no default. -/
def tagFor (modelType : T) : Option String → Except String (Option String)
  | some tag => .ok (some tag)
  | none =>
    match registry.discriminatorField with
    | none => .error "cannot add model to registry without a discriminator value"
    | some field =>
      let tag := if field = "" then none else types.fieldDefault field modelType
      if tag = none ∧ registry.defaultTag = none then
        .error s!"could not determine discriminator value for {types.name modelType}"
      else .ok tag

/-- The registry after `add`, and whether it raises. An abstract type is ignored. -/
def add (modelType : T) (tag ns : Option String) : ModelRegistry T × Except String Unit :=
  if types.isAbstract modelType then (registry, .ok ())
  else
    match registry.tagFor types modelType tag with
    | .error error => (registry, .error error)
    | .ok tag =>
      if modelType ∈ registry.entries.keys then
        (registry, .error s!"model type {types.name modelType} already registered")
      else
        let registry := { registry with entries := registry.entries.insert modelType { modelType, tag, ns } }
        match tag with
        | none => ({ registry with updateDefaultView := true }, .ok ())
        | some tag =>
          let (registry, namespaces) := registry.touch tag
          if (namespaces.get? ns).isSome then
            (registry, .error ("tag '" ++ tag ++ "' already defined in namespace '" ++ ns.getD "None" ++ "'"))
          else
            ({ registry with
                tagIndex := registry.tagIndex.insert tag (namespaces.insert ns modelType), updateDefaultView := true },
              .ok ())

def getTags : List String := registry.tagIndex.keys

def getNamespaces (tag : String) : List (Option String) :=
  ((registry.tagIndex.get? tag).map Dict.keys).getD []

/-- The registry after `get_type`, and the type. -/
def getType (tag : String) (ns : Option String) : ModelRegistry T × Option T :=
  let (registry, namespaces) := registry.touch tag
  (registry, namespaces.get? ns)

/-- Membership. -/
def contains (modelType : T) : Bool := modelType ∈ registry.entries.keys

end ModelRegistry

namespace ModelRegistryView

variable (view : ModelRegistryView T)

/-- A place comes before another one; no place is infinitely far. -/
def Before : Option ℕ → Option ℕ → Prop
  | some prio, some best => prio < best
  | some _, none => True
  | none, _ => False

instance : (prio best : Option ℕ) → Decidable (Before prio best)
  | some prio, some best => inferInstanceAs (Decidable (prio < best))
  | some _, none => inferInstanceAs (Decidable True)
  | none, _ => inferInstanceAs (Decidable False)

/-- A turn of the loop of `_resolve`, on `best_prio`. -/
def resolveStep (bestPrio : Option String × Option ℕ) : Option String → Option String × Option ℕ
  | none => if bestPrio.1 = none then (none, none) else bestPrio
  | some ns =>
    let prio := view.precedence.get? ns
    if Before prio bestPrio.2 then (some ns, prio) else bestPrio

def resolve (namespaces : List (Option String)) : Option String :=
  (namespaces.foldl view.resolveStep (none, none)).1

/-- A turn of the loop of `update`, on the registry and the view. -/
def updateTag (state : ModelRegistry T × ModelRegistryView T) (tag : String) :
    Except String (ModelRegistry T × ModelRegistryView T) :=
  let namespaces := state.1.getNamespaces tag
  if namespaces = [] then .error "AssertionError"
  else
    let resolved := if 1 < namespaces.length then state.2.resolve namespaces else namespaces.headD none
    let (registry, modelType) := state.1.getType tag resolved
    .ok (registry, { state.2 with resolved := state.2.resolved.insert tag modelType, index := state.2.index.insert modelType tag })

/-- The loop of `update`, as far as it comes. -/
def updateTags (state : ModelRegistry T × ModelRegistryView T) :
    List String → (ModelRegistry T × ModelRegistryView T) × Except String Unit
  | [] => (state, .ok ())
  | tag :: tags =>
    match updateTag state tag with
    | .ok state => updateTags state tags
    | .error error => (state, .error error)

/-- The registry and the view after `update`, and whether it raises. -/
def update (registry : ModelRegistry T) : (ModelRegistry T × ModelRegistryView T) × Except String Unit :=
  updateTags (registry, { view with resolved := .empty, index := .empty }) registry.getTags

/-- A view that is yet to be updated. A namespace that is listed again has its last place. -/
def new (precedence : List String) : ModelRegistryView T where
  precedence := Dict.ofList precedence.zipIdx

/-- Membership: the type is what some tag is resolved to. -/
def contains (modelType : T) : Bool := some modelType ∈ view.index.keys

/-- A tag that is given: an empty text is none. -/
def given (tag : Option String) : Option String :=
  tag.filter fun tag => tag ≠ ""

/-- The type that a tag is resolved to, if it is. -/
def found (tag : Option String) : Option (T × String) :=
  tag.bind fun tag => ((view.resolved.get? tag).join).map fun modelType => (modelType, tag)

/-- The type that `validate` determines from the tags of the data and of the context, with the tag. -/
def modelType (defaultTag tagFromData tagFromContext : Option String) : Except String (T × String) :=
  if given tagFromData ≠ none ∧ given tagFromContext ≠ none ∧ tagFromData ≠ tagFromContext then
    .error ("tag mismatch: data='" ++ tagFromData.getD "None" ++ "' context='" ++ tagFromContext.getD "None" ++ "'")
  else
    match view.found ((given tagFromData).or (given tagFromContext)) with
    | some resolved => .ok resolved
    | none =>
      match view.found defaultTag with
      | some resolved => .ok resolved
      | none => .error ("no model resolved for tag: " ++ defaultTag.getD "None")

/-- `validate` up to the validation against the type that it determines. The data have a value for each field; they are a
dictionary, or an object of some type. -/
def validate (types : ModelTypes T) (registry : ModelRegistry T) (object : Option T) (data : String → Option String)
    (tagFromContext : Option String) : Except String T :=
  let tagFromData := (given registry.discriminatorField).bind data
  match view.modelType registry.defaultTag tagFromData tagFromContext with
  | .error error => .error error
  | .ok (modelType, tag) =>
    if object ≠ none ∧ object ≠ some modelType then
      .error s!"model {types.name modelType} does not match tag: {tag}"
    else .ok modelType

end ModelRegistryView

namespace ModelRegistry

variable (types : ModelTypes T) (registry : ModelRegistry T)

/-- The registry after `_default_view` is asked for, which creates it the first time. -/
def withDefaultView : ModelRegistry T × Except String (ModelRegistryView T) :=
  match registry.defaultView with
  | some view => (registry, .ok view)
  | none =>
    match (ModelRegistryView.new []).update registry with
    | ((registry, view), .ok ()) => ({ registry with defaultView := some view }, .ok view)
    | ((registry, _), .error error) => (registry, .error error)

/-- The registry after the default view is brought up to date. -/
def refresh : ModelRegistry T × Except String (ModelRegistryView T) :=
  match registry.withDefaultView with
  | (registry, .error error) => (registry, .error error)
  | (registry, .ok view) =>
    if registry.updateDefaultView then
      match view.update registry with
      | ((registry, view), .ok ()) => ({ registry with defaultView := some view, updateDefaultView := false }, .ok view)
      | ((registry, view), .error error) => ({ registry with defaultView := some view }, .error error)
    else (registry, .ok view)

/-- `ModelRegistry.validate`, up to the validation against a type. -/
def validate (object : Option T) (data : String → Option String) (tagFromContext : Option String) :
    ModelRegistry T × Except String T :=
  match registry.refresh with
  | (registry, .error error) => (registry, .error error)
  | (registry, .ok view) => (registry, view.validate types registry object data tagFromContext)

end ModelRegistry

end SensorKit.Common
