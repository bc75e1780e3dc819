import SensorKit.Common.ModelRegistryRuns

/-!
# Safe calls on a model registry

Under the invariant, a call on a registry is safe just if the registry keeps what it promises of it, and then it keeps the
invariant as well.
-/

namespace SensorKit.Common

open Lib

variable {T : Type} [DecidableEq T] {types : ModelTypes T} {registry registry' : ModelRegistry T} {modelType : T}
  {tag : String} {ns : Option String} {call : RegistryCall T}

namespace ModelRegistry

/-- What holds of a registry between calls. -/
structure Sound (registry : ModelRegistry T) : Prop where
  indexed : registry.Indexed
  inhabited : registry.Inhabited
  coherent : registry.Coherent

/-- Registries that hold the same types. -/
structure Same (registry registry' : ModelRegistry T) : Prop where
  discriminatorField : registry'.discriminatorField = registry.discriminatorField
  defaultTag : registry'.defaultTag = registry.defaultTag
  entries : registry'.entries = registry.entries
  tagIndex : registry'.tagIndex = registry.tagIndex

omit [DecidableEq T] in
theorem Same.refl (registry : ModelRegistry T) : Same registry registry := ⟨rfl, rfl, rfl, rfl⟩

omit [DecidableEq T] in
theorem Same.lookup (same : Same registry registry') (tag : String) (ns : Option String) :
    registry'.lookup tag ns = registry.lookup tag ns := by
  unfold ModelRegistry.lookup
  rw [same.tagIndex]

/-- Registries that hold the same types have the same default view. -/
theorem Same.defaultViewOf (same : Same registry registry') : registry'.defaultViewOf = registry.defaultViewOf :=
  ModelRegistryView.updated_congr same.tagIndex rfl

omit [DecidableEq T] in
theorem Same.tagFor (same : Same registry registry') (given : Option String) :
    registry'.tagFor types modelType given = registry.tagFor types modelType given := by
  unfold ModelRegistry.tagFor
  rw [same.discriminatorField, same.defaultTag]

/-- A registry whose types are added later keeps its default view, which is then to be updated. -/
theorem coherent_of_flag (coherent : registry.Coherent) (kept : registry'.defaultView = registry.defaultView)
    (flag : registry'.updateDefaultView = true) : registry'.Coherent := by
  intro view held
  refine ⟨(coherent view (kept ▸ held)).1, fun upToDate => ?_⟩
  rw [flag] at upToDate
  cases upToDate

theorem lookup_added (tag' : String) (ns' : Option String) : (registry.added modelType tag ns).lookup tag' ns' =
    if tag' = tag ∧ ns' = ns then some modelType else registry.lookup tag' ns' := by
  unfold added lookup
  dsimp only
  by_cases same : tag' = tag
  · subst same
    rw [Dict.get?_insert_self, Option.bind_some, Dict.get?_insert, touch_snd]
    simp only [true_and]
    rfl
  · rw [Dict.get?_insert_of_ne same, if_neg fun both => same both.1]
    unfold touch
    cases registry.tagIndex.get? tag with
    | none => rw [Dict.get?_insert_of_ne same]
    | some namespaces => rfl

theorem Sound.added (sound : registry.Sound) (fresh : modelType ∉ registry.entries.keys)
    (free : ns ∉ registry.getNamespaces tag) : (registry.added modelType tag ns).Sound := by
  have absent : registry.entries.get? modelType = none := Dict.get?_eq_none.2 fresh
  have untaken : registry.lookup tag ns = none := by
    cases held : registry.lookup tag ns with
    | none => rfl
    | some other => exact absurd (mem_getNamespaces.2 ⟨other, held⟩) free
  refine ⟨⟨?_, ?_⟩, ?_, coherent_of_flag sound.coherent rfl rfl⟩
  · intro other entry tag' held tagged
    rw [lookup_added]
    change (registry.entries.insert modelType _).get? other = some entry at held
    rw [Dict.get?_insert] at held
    split at held
    · rename_i same
      cases held
      cases tagged
      rw [if_pos ⟨rfl, rfl⟩, same]
    · have old := sound.indexed.entry other entry tag' held tagged
      rw [if_neg, old]
      rintro ⟨rfl, same⟩
      rw [same, untaken] at old
      cases old
  · intro tag' ns' other held
    rw [lookup_added] at held
    change (registry.entries.insert modelType _).get? other = _
    split at held
    · rename_i same
      cases held
      rw [Dict.get?_insert_self, same.1, same.2]
    · have old := sound.indexed.found tag' ns' other held
      have different : other ≠ modelType := by
        rintro rfl
        rw [absent] at old
        cases old
      rw [Dict.get?_insert_of_ne different, old]
  · intro tag' mem
    suffices ∃ ns' other, (registry.added modelType tag ns).lookup tag' ns' = some other by
      obtain ⟨ns', here⟩ := this
      exact List.ne_nil_of_mem (mem_getNamespaces.2 here)
    by_cases same : tag' = tag
    · exact ⟨ns, modelType, by rw [lookup_added, if_pos ⟨same, rfl⟩]⟩
    have old : tag' ∈ registry.getTags := by
      obtain ⟨namespaces, held⟩ := mem_getTags.1 mem
      change (Dict.insert _ tag _).get? tag' = some namespaces at held
      rw [Dict.get?_insert_of_ne same] at held
      apply mem_getTags.2
      unfold touch at held
      cases at_ : registry.tagIndex.get? tag with
      | none =>
        rw [at_] at held
        exact ⟨namespaces, (Dict.get?_insert_of_ne same).symm.trans held⟩
      | some _ =>
        rw [at_] at held
        exact ⟨namespaces, held⟩
    obtain ⟨ns', mem'⟩ := List.exists_mem_of_ne_nil _ (sound.inhabited tag' old)
    obtain ⟨other, held⟩ := mem_getNamespaces.1 mem'
    exact ⟨ns', other, by rw [lookup_added, if_neg fun both => same both.1, held]⟩

theorem Sound.addedUntagged (sound : registry.Sound) (fresh : modelType ∉ registry.entries.keys) :
    (registry.addedUntagged modelType ns).Sound := by
  have absent : registry.entries.get? modelType = none := Dict.get?_eq_none.2 fresh
  refine ⟨⟨?_, ?_⟩, sound.inhabited, coherent_of_flag sound.coherent rfl rfl⟩
  · intro other entry tag held tagged
    change (registry.entries.insert modelType _).get? other = some entry at held
    rw [Dict.get?_insert] at held
    split at held
    · cases held
      cases tagged
    · exact sound.indexed.entry other entry tag held tagged
  · intro tag ns' other held
    have old := sound.indexed.found tag ns' other held
    have different : other ≠ modelType := by
      rintro rfl
      rw [absent] at old
      cases old
    exact (Dict.get?_insert_of_ne different).trans old

/-- The default view that validation leaves behind is up to date. -/
theorem Sound.refreshed (sound : registry.Sound) :
    Sound { registry with defaultView := some registry.defaultViewOf, updateDefaultView := false } := by
  refine ⟨⟨sound.indexed.entry, sound.indexed.found⟩, sound.inhabited, fun view held => ?_⟩
  cases held
  exact ⟨ModelRegistryView.precedence_updated, fun _ => ModelRegistryView.updated_congr rfl rfl⟩

theorem Sound.validate (sound : registry.Sound) (object : Option T) (data : String → Option String)
    (tagFromContext : Option String) : registry.validate types object data tagFromContext =
      ({ registry with defaultView := some registry.defaultViewOf, updateDefaultView := false },
        registry.defaultViewOf.validate types registry object data tagFromContext) := by
  unfold ModelRegistry.validate
  rw [refresh_eq sound.inhabited sound.coherent]
  rfl

theorem Same.validate (same : Same registry registry') (view : ModelRegistryView T) (object : Option T)
    (data : String → Option String) (tagFromContext : Option String) :
    view.validate types registry' object data tagFromContext = view.validate types registry object data tagFromContext := by
  unfold ModelRegistryView.validate
  rw [same.discriminatorField, same.defaultTag]

omit [DecidableEq T] in
theorem Same.touch (same : Same registry registry') (tag : String) : (registry'.touch tag).2 = (registry.touch tag).2 := by
  unfold ModelRegistry.touch
  rw [same.tagIndex]
  cases registry.tagIndex.get? tag <;> rfl

theorem Same.add (same : Same registry registry') (given : Option String) :
    (registry'.add types modelType given ns).2 = (registry.add types modelType given ns).2 := by
  unfold ModelRegistry.add
  rw [same.tagFor, same.entries]
  split
  · rfl
  cases registry.tagFor types modelType given with
  | error error => rfl
  | ok tag =>
    dsimp only
    split
    · rfl
    cases tag with
    | none => rfl
    | some tag =>
      dsimp only
      rw [touch_entries registry, touch_entries registry', same.touch]
      dsimp only
      split <;> rfl

end ModelRegistry

namespace Registries

open ModelRegistry

variable {state after : Registries T}

/-- The state after a lookup: the registry holds the same types, and the views are there. -/
structure Extends (state after : Registries T) : Prop where
  same : Same state.registry after.registry
  views : ∀ place < state.views.length, after.views[place]? = state.views[place]?

theorem call_getType (types : ModelTypes T) (state : Registries T) (tag : String) (ns : Option String) :
    state.call types (.getType tag ns) =
      some ({ state with registry := (state.registry.touch tag).1 }, .type (state.registry.lookup tag ns)) := by
  unfold call
  dsimp only
  rw [getType_eq]

theorem call_createResolvedView (sound : state.registry.Sound) (namespacePrecedence : List String) :
    state.call types (.createResolvedView namespacePrecedence) =
      some ({ state with views := state.views ++ [(ModelRegistryView.new namespacePrecedence).updated state.registry] },
        .view ((ModelRegistryView.new namespacePrecedence).updated state.registry)) := by
  unfold call
  dsimp only
  rw [ModelRegistryView.update_eq sound.inhabited]

theorem call_updateView (sound : state.registry.Sound) (place : ℕ) : state.call types (.updateView place) =
    state.views[place]?.map fun view =>
      ({ state with views := state.views.set place (view.updated state.registry) }, .done) := by
  unfold call
  dsimp only
  cases state.views[place]? with
  | none => rfl
  | some view =>
    rw [Option.map_some, Option.map_some, ModelRegistryView.update_eq sound.inhabited]
    rfl

theorem call_validate (sound : state.registry.Sound) (object : Option T) (data : String → Option String)
    (tagFromContext : Option String) : state.call types (.validate object data tagFromContext) =
      some ({ state with registry :=
        { state.registry with defaultView := some state.registry.defaultViewOf, updateDefaultView := false } },
        .ofValidation (state.registry.defaultViewOf.validate types state.registry object data tagFromContext)) := by
  unfold call
  dsimp only
  rw [sound.validate]

/-- The answer to a call depends on what the registry holds, and on the view that it is on. -/
theorem Extends.answer (extends_ : Extends state after) (sound : state.registry.Sound) (sound' : after.registry.Sound)
    (later : RegistryCall T) (there : ∀ place ∈ later.place, place < state.views.length) :
    after.answer types later = state.answer types later := by
  have same := extends_.same
  have held : ∀ place ∈ later.place, after.views[place]? = state.views[place]? :=
    fun place mem => extends_.views place (there place mem)
  unfold Registries.answer
  cases later with
  | add modelType tag ns => exact congrArg (fun outcome => some (RegistryAnswer.ofUnit outcome)) (same.add tag)
  | getType tag ns => rw [call_getType, call_getType, Option.map_some, Option.map_some, same.lookup]
  | getNamespaces tag =>
    have answered : after.registry.getNamespaces tag = state.registry.getNamespaces tag := by
      unfold getNamespaces
      rw [same.tagIndex]
    exact congrArg (fun namespaces => some (RegistryAnswer.namespaces namespaces)) answered
  | getTags =>
    have answered : after.registry.getTags = state.registry.getTags := congrArg Dict.keys same.tagIndex
    exact congrArg (fun tags => some (RegistryAnswer.tags tags)) answered
  | contains modelType =>
    have answered : after.registry.contains modelType = state.registry.contains modelType := by
      unfold contains
      rw [same.entries]
    exact congrArg (fun here => some (RegistryAnswer.member here)) answered
  | createResolvedView namespacePrecedence =>
    rw [call_createResolvedView sound, call_createResolvedView sound', Option.map_some, Option.map_some,
      ModelRegistryView.updated_congr same.tagIndex rfl]
  | updateView place =>
    rw [call_updateView sound, call_updateView sound', held place rfl]
    cases state.views[place]? <;> rfl
  | viewContains place modelType =>
    unfold call
    dsimp only
    rw [held place rfl]
    cases state.views[place]? <;> rfl
  | validate object data tagFromContext =>
    rw [call_validate sound, call_validate sound', Option.map_some, Option.map_some, same.defaultViewOf, same.validate]
  | validateView place object data tagFromContext =>
    unfold call
    dsimp only
    rw [held place rfl]
    cases state.views[place]? with
    | none => rfl
    | some view =>
      rw [Option.map_some, Option.map_some, same.validate]
      rfl

omit [DecidableEq T] in
theorem Extends.refl (state : Registries T) : Extends state state := ⟨.refl _, fun _ _ => rfl⟩

theorem step_eq {answer : RegistryAnswer T} (called : state.call types call = some (after, answer)) :
    state.step types call = some after ∧ state.answer types call = some answer := by
  unfold step Registries.answer
  rw [called]
  exact ⟨rfl, rfl⟩

theorem step_of_call {next : Registries T} {answer : RegistryAnswer T}
    (called : state.call types call = some (next, answer)) (stepped : state.step types call = some after) :
    after = next :=
  Option.some.inj (stepped.symm.trans (step_eq called).1)

/-- A safe `add` that raises changes nothing. -/
theorem add_safe (sound : state.registry.Sound) {given : Option String} (safe : state.Safe types (.add modelType given ns))
    (stepped : state.step types (.add modelType given ns) = some after) : after.registry.Sound ∧
      ∀ error, state.answer types (.add modelType given ns) = some (.raised error) → after = state := by
  have called (registry : ModelRegistry T) (outcome : Except String Unit)
      (added : state.registry.add types modelType given ns = (registry, outcome)) :
      state.call types (.add modelType given ns) = some ({ state with registry }, .ofUnit outcome) := by
    unfold call
    dsimp only
    rw [added]
  obtain ⟨outcome, added⟩ | ⟨fresh, added⟩ | ⟨tag, fresh, free, added⟩ | conflicts :=
    add_cases types state.registry modelType given ns
  · obtain rfl := step_of_call (called _ _ added) stepped
    exact ⟨sound, fun _ _ => rfl⟩
  · obtain rfl := step_of_call (called _ _ added) stepped
    refine ⟨sound.addedUntagged fresh, fun error raised => ?_⟩
    rw [(step_eq (called _ _ added)).2] at raised
    cases raised
  · obtain rfl := step_of_call (called _ _ added) stepped
    refine ⟨sound.added fresh free, fun error raised => ?_⟩
    rw [(step_eq (called _ _ added)).2] at raised
    cases raised
  · exact absurd conflicts safe

/-- A safe lookup leaves a registry that holds the same types, and the views that are there. -/
theorem lookup_safe (sound : state.registry.Sound) (lookup : call.Lookup)
    (safe : state.Safe types call) (stepped : state.step types call = some after) :
    after.registry.Sound ∧ Extends state after := by
  cases call with
  | add modelType tag ns => cases lookup
  | updateView place => cases lookup
  | getType tag ns =>
    obtain rfl := step_of_call (call_getType types state tag ns) stepped
    rw [touch_of_mem safe]
    exact ⟨sound, .refl state⟩
  | getNamespaces tag =>
    cases stepped
    exact ⟨sound, .refl state⟩
  | getTags =>
    cases stepped
    exact ⟨sound, .refl state⟩
  | contains modelType =>
    cases stepped
    exact ⟨sound, .refl state⟩
  | createResolvedView namespacePrecedence =>
    obtain rfl := step_of_call (call_createResolvedView sound namespacePrecedence) stepped
    exact ⟨sound, .refl _, fun place there => List.getElem?_append_left there⟩
  | viewContains place modelType =>
    obtain ⟨returned, called, rfl⟩ := Option.map_eq_some_iff.1 stepped
    obtain ⟨view, -, rfl⟩ := Option.map_eq_some_iff.1 called
    exact ⟨sound, .refl state⟩
  | validate object data tagFromContext =>
    obtain rfl := step_of_call (call_validate sound object data tagFromContext) stepped
    exact ⟨sound.refreshed, ⟨rfl, rfl, rfl, rfl⟩, fun _ _ => rfl⟩
  | validateView place object data tagFromContext =>
    obtain ⟨returned, called, rfl⟩ := Option.map_eq_some_iff.1 stepped
    obtain ⟨view, -, rfl⟩ := Option.map_eq_some_iff.1 called
    exact ⟨sound, .refl state⟩

/-- A safe call leaves a sound registry. -/
theorem Safe.sound (sound : state.registry.Sound) (safe : state.Safe types call)
    (stepped : state.step types call = some after) : after.registry.Sound := by
  by_cases lookup : call.Lookup
  · exact (lookup_safe sound lookup safe stepped).1
  cases call with
  | add modelType tag ns => exact (add_safe sound safe stepped).1
  | updateView place =>
    unfold step at stepped
    rw [call_updateView sound] at stepped
    obtain ⟨returned, called, rfl⟩ := Option.map_eq_some_iff.1 stepped
    obtain ⟨view, -, rfl⟩ := Option.map_eq_some_iff.1 called
    exact sound
  | _ => exact absurd trivial lookup

/-- What the registry promises of a call is kept just if the call is safe. -/
theorem kept_iff (sound : state.registry.Sound) (call : RegistryCall T) : state.Kept types call ↔ state.Safe types call := by
  constructor
  · intro kept
    cases call with
    | add modelType given ns =>
      intro conflicts
      obtain ⟨entry, error, added⟩ := add_of_conflicts conflicts
      have called : state.call types (.add modelType given ns) = some ({ state with registry :=
          { state.registry with entries := state.registry.entries.insert modelType entry } }, .raised error) := by
        unfold call
        dsimp only
        rw [added]
        rfl
      have unchanged := (kept _ (step_eq called).1).1 modelType given ns error rfl (step_eq called).2
      apply conflicts.2.1
      rw [← unchanged]
      exact Dict.mem_keys_insert.2 (.inl rfl)
    | getType tag ns =>
      by_contra absent
      change tag ∉ state.registry.getTags at absent
      have stepped := (step_eq (call_getType types state tag ns)).1
      have same := (kept _ stepped).2.1 trivial .getTags nofun
      have tags := RegistryAnswer.tags.inj (Option.some.inj same)
      dsimp only at tags
      rw [touch_of_notMem absent] at tags
      apply absent
      rw [← tags]
      exact Dict.mem_keys_insert.2 (.inl rfl)
    | _ => trivial
  · intro safe after stepped
    have sound' := safe.sound sound stepped
    refine ⟨?_, fun lookup later there => ?_, sound'.indexed, fun view => ?_⟩
    · rintro modelType tag ns error rfl raised
      exact (add_safe sound safe stepped).2 error raised
    · exact (lookup_safe sound lookup safe stepped).2.answer sound sound' later there
    · rw [ModelRegistryView.update_eq sound'.inhabited]

theorem sound_start (discriminatorField defaultTag : Option String) :
    (start discriminatorField defaultTag : Registries T).registry.Sound := by
  refine ⟨⟨?_, ?_⟩, ?_, ?_⟩
  · intro modelType entry tag held
    cases held
  · intro tag ns modelType held
    cases held
  · intro tag mem
    cases mem
  · intro view held
    cases held

/-- Along every history of a registry, the registry keeps what it promises of each call just if each call is safe. -/
theorem registry_kept_iff (types : ModelTypes T) (discriminatorField defaultTag : Option String)
    (calls : List (RegistryCall T)) :
    okAlong (step types) (Kept types) (start discriminatorField defaultTag) calls ↔
      okAlong (step types) (Safe types) (start discriminatorField defaultTag) calls := by
  apply okAlong_iff_of_keeps (I := fun state => state.registry.Sound)
  · exact sound_start discriminatorField defaultTag
  · intro state call sound
    exact kept_iff sound call
  · intro state call after sound safe stepped
    exact safe.sound sound stepped

/-- Two types added under one tag in one namespace, and the type of a tag asked for that nothing is registered under. -/
theorem conflict_leaves_entry :
    ¬okAlong (step ⟨fun _ => false, fun _ => "Model", fun _ _ => none⟩)
      (Kept ⟨fun _ => false, fun _ => "Model", fun _ _ => none⟩)
      (start (some "type") none : Registries ℕ) [.add 0 (some "camera") none, .add 1 (some "camera") none] ∧
    ¬okAlong (step ⟨fun _ => false, fun _ => "Model", fun _ _ => none⟩)
      (Kept ⟨fun _ => false, fun _ => "Model", fun _ _ => none⟩)
      (start (some "type") none : Registries ℕ) [.getType "camera" none] := by
  constructor
  · intro kept
    have unchanged := (kept.2 _ rfl).1 _ rfl |>.1 1 (some "camera") none _ rfl rfl
    have recorded := congrArg (fun state => state.registry.contains 1) unchanged
    revert recorded
    decide
  · intro kept
    have updates := (kept.1 _ rfl).2.2.2 (ModelRegistryView.new [])
    revert updates
    decide

end Registries

end SensorKit.Common
