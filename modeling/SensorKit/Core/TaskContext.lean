import Mathlib.Data.List.Basic

/-!
# Task contexts in layers

An overlay has raw keyword payloads for all task types and for single ones. An agent's overlay is propagated into those of
its controllers, and these into those of their programs. A payload is null, a mapping of fields, or a leaf: any other value.
-/

namespace SensorKit.Core

/-- A raw payload. A dict is known by its lookups. -/
inductive Payload (α : Type) where
  | null
  | leaf (value : α)
  | dict (fields : String → Option (Payload α))

/-- A sparse, unvalidated mapping of keyword key to raw payload. -/
abbrev RawKeywords (α : Type) := String → Option (Payload α)

namespace Payload

variable {α : Type}

/-- Induction on the fields of dicts. -/
theorem induct {motive : Payload α → Prop} (null : motive .null) (leaf : ∀ value, motive (.leaf value))
    (dict : ∀ fields : String → Option (Payload α), (∀ key value, fields key = some value → motive value) →
      motive (.dict fields)) (payload : Payload α) : motive payload :=
  @Payload.rec α motive (fun entry => ∀ value, entry = some value → motive value) null leaf
    (fun fields ih => dict fields ih) (fun _ absent => nomatch absent)
    (fun _ ih _ same => Option.some.inj same ▸ ih) payload

mutual

/-- Recursively merge `override` onto `base`, with `override` winning on conflict. -/
def deepMerge : Payload α → Payload α → Payload α
  | base, .null => base
  | .dict base, .dict override => .dict fun key => mergeEntry (base key) (override key)
  | _, override => override

/-- What `merged` has at a key, which is `base.get(key)` merged with the value of `override` if it has the key. -/
def mergeEntry (base : Option (Payload α)) : Option (Payload α) → Option (Payload α)
  | some value => some (deepMerge (base.getD .null) value)
  | none => base

end

end Payload

open Payload

variable {α V : Type}

/-- The merge of two dicts. -/
def mergeKeywords (base override : RawKeywords α) : RawKeywords α :=
  fun key => mergeEntry (base key) (override key)

/-- Raw, sparse, layered task context as declared in config. -/
structure TaskContextOverlay (α : Type) where
  all : RawKeywords α := fun _ => none
  init : RawKeywords α := fun _ => none
  standby : RawKeywords α := fun _ => none
  shutdown : RawKeywords α := fun _ => none
  extra : String → Option (RawKeywords α) := fun _ => none

namespace TaskContextOverlay

variable (overlay into : TaskContextOverlay α)

/-- `getattr(overlay, task_type, None)`, and the item of the task type. -/
def get? : String → Option (RawKeywords α)
  | "init" => some overlay.init
  | "standby" => some overlay.standby
  | "shutdown" => some overlay.shutdown
  | taskType => overlay.extra taskType

/-- The loop over the parent's keywords of a task type. Each turn only changes its own key of the target. -/
def propagateType (all target keywords : RawKeywords α) : RawKeywords α := fun key =>
  match keywords key with
  | none => target key
  | some payload => if (all key).isSome then target key else some (deepMerge payload ((target key).getD .null))

/-- Merge this (parent) overlay into `into` (child), with the child taking precedence. -/
def propagate : TaskContextOverlay α where
  all := mergeKeywords overlay.all into.all
  init := propagateType into.all into.init overlay.init
  standby := propagateType into.all into.standby overlay.standby
  shutdown := propagateType into.all into.shutdown overlay.shutdown
  extra taskType :=
    match overlay.extra taskType with
    | none => into.extra taskType
    | some keywords => some (propagateType into.all ((into.extra taskType).getD fun _ => none) keywords)

end TaskContextOverlay

/-- Flattened, validated task contexts keyed by task type. -/
structure TaskContextMap (V : Type) where
  defaults : V
  byType : String → Option V

/-- The effective context for a task type, falling back to `defaults`. -/
def TaskContextMap.get (map : TaskContextMap V) (taskType : String) : V :=
  (map.byType taskType).getD map.defaults

/-- Flatten the `all` layer into each task type and validate every payload as a keyword. -/
def TaskContextOverlay.build (overlay : TaskContextOverlay α) (validated : RawKeywords α → V) : TaskContextMap V where
  defaults := validated overlay.all
  byType taskType := (overlay.get? taskType).map fun keywords => validated (mergeKeywords overlay.all keywords)

/-- The task contexts of a `ControllerConfig`: its own, and those of its program configs. -/
structure ControllerContexts (α : Type) where
  contexts : TaskContextOverlay α
  tasking : List (TaskContextOverlay α)

/-- Merge agent-level task contexts into this controller and its program configs. -/
def ControllerContexts.propagateConfig (config : ControllerContexts α) (contexts : TaskContextOverlay α) :
    ControllerContexts α :=
  let own := contexts.propagate config.contexts
  { contexts := own, tasking := config.tasking.map own.propagate }

/-! ## Merging -/

section Merging

variable {x y z w : Payload α} {a b c d : Option (Payload α)} {f g h : RawKeywords α} {v : α} {key : String}

@[simp] theorem deepMerge_null : deepMerge x .null = x := by
  cases x <;> rfl

@[simp] theorem null_deepMerge : deepMerge .null x = x := by
  cases x <;> rfl

@[simp] theorem deepMerge_leaf : deepMerge x (.leaf v) = .leaf v := by
  cases x <;> rfl

@[simp] theorem leaf_deepMerge_dict : deepMerge (.leaf v) (.dict f) = .dict f := rfl

theorem deepMerge_dict : deepMerge (.dict f) (.dict g) = .dict fun key => mergeEntry (f key) (g key) := rfl

@[simp] theorem mergeEntry_none : mergeEntry a none = a := by
  unfold mergeEntry
  rfl

@[simp] theorem none_mergeEntry : mergeEntry none a = a := by
  cases a with
  | none => rfl
  | some x => simp [mergeEntry]

@[simp] theorem mergeEntry_some : mergeEntry (some x) (some y) = some (deepMerge x y) := rfl

/-- Somewhere a leaf stands between two dicts. -/
inductive Between : Payload α → Payload α → Payload α → Prop where
  | here (f : RawKeywords α) (v : α) (h : RawKeywords α) : Between (.dict f) (.leaf v) (.dict h)
  | within {f g h : RawKeywords α} {key : String} {x y z : Payload α} (hx : f key = some x) (hy : g key = some y)
      (hz : h key = some z) (between : Between x y z) : Between (.dict f) (.dict g) (.dict h)

/-- Merging is associative but where a leaf stands between two dicts. -/
theorem deepMerge_assoc (apart : ¬ Between x y z) : deepMerge x (deepMerge y z) = deepMerge (deepMerge x y) z := by
  induction z using Payload.induct generalizing x y with
  | null => simp
  | leaf v => simp
  | dict h ih =>
    cases y with
    | null => simp
    | leaf v =>
      cases x with
      | null => simp
      | leaf w => simp
      | dict f => exact absurd (.here f v h) apart
    | dict g =>
      cases x with
      | null => simp
      | leaf v => simp [deepMerge_dict]
      | dict f =>
        simp only [deepMerge_dict, Payload.dict.injEq]
        funext key
        cases hz : h key with
        | none => simp
        | some z =>
          cases hy : g key with
          | none => simp
          | some y =>
            cases hx : f key with
            | none => simp
            | some x =>
              simp only [mergeEntry_some, Option.some.injEq]
              exact ih key z hz fun between => apart (.within hx hy hz between)

@[simp] theorem deepMerge_self : deepMerge x x = x := by
  induction x using Payload.induct with
  | null => simp
  | leaf v => simp
  | dict f ih =>
    simp only [deepMerge_dict, Payload.dict.injEq]
    funext key
    cases hx : f key with
    | none => simp
    | some x => rw [mergeEntry_some, ih key x hx]

/-- Merging again changes nothing. -/
@[simp] theorem deepMerge_deepMerge_self : deepMerge x (deepMerge x y) = deepMerge x y := by
  induction y using Payload.induct generalizing x with
  | null => simp
  | leaf v => simp
  | dict g ih =>
    cases x with
    | null => simp
    | leaf v => simp
    | dict f =>
      simp only [deepMerge_dict, Payload.dict.injEq]
      funext key
      cases hy : g key with
      | none => cases f key <;> simp
      | some y =>
        cases f key with
        | none => simp
        | some x => simpa using ih key y hy

@[simp] theorem mergeEntry_mergeEntry_self : mergeEntry a (mergeEntry a b) = mergeEntry a b := by
  cases b with
  | none => cases a <;> simp
  | some y => cases a <;> simp

/-- A leaf of a merged payload is one of those that were merged. -/
theorem between_of_merged (between : Between x (deepMerge y w) z) : Between x y z ∨ Between x w z := by
  generalize merged : deepMerge y w = m at between
  induction between generalizing y w with
  | here f v h =>
    cases w with
    | null =>
      rw [deepMerge_null] at merged
      subst merged
      exact .inl (.here f v h)
    | leaf u => exact .inr (.here f u h)
    | dict g => cases y <;> simp [deepMerge_dict] at merged
  | @within f m h key x m' z hx hm hz between ih =>
    cases w with
    | null =>
      rw [deepMerge_null] at merged
      subst merged
      exact .inl (.within hx hm hz between)
    | leaf u => simp at merged
    | dict g =>
      cases y with
      | null =>
        obtain rfl : g = m := by simpa using merged
        exact .inr (.within hx hm hz between)
      | leaf u =>
        obtain rfl : g = m := by simpa using merged
        exact .inr (.within hx hm hz between)
      | dict k =>
        obtain rfl : (fun key => mergeEntry (k key) (g key)) = m := by simpa [deepMerge_dict] using merged
        replace hm : mergeEntry (k key) (g key) = some m' := hm
        cases hg : g key with
        | none =>
          rw [hg, mergeEntry_none] at hm
          exact .inl (.within hx hm hz between)
        | some w =>
          cases hk : k key with
          | none =>
            rw [hg, hk, none_mergeEntry] at hm
            exact .inr (.within hx (hg.trans hm) hz between)
          | some y =>
            rw [hg, hk, mergeEntry_some] at hm
            rcases ih (Option.some.inj hm) with left | right
            · exact .inl (.within hx hk hz left)
            · exact .inr (.within hx hg hz right)

/-- Of three layers, the middle one has a leaf somewhere where the others have dicts. -/
def Blocks (a b c : Option (Payload α)) : Prop :=
  ∃ x y z, a = some x ∧ b = some y ∧ c = some z ∧ Between x y z

theorem mergeEntry_assoc (apart : ¬ Blocks a b c) : mergeEntry a (mergeEntry b c) = mergeEntry (mergeEntry a b) c := by
  cases c with
  | none => simp
  | some z =>
    cases b with
    | none => simp
    | some y =>
      cases a with
      | none => simp
      | some x =>
        simp only [mergeEntry_some, Option.some.injEq]
        exact deepMerge_assoc fun between => apart ⟨x, y, z, rfl, rfl, rfl, between⟩

theorem blocks_of_merged (blocks : Blocks a (mergeEntry b d) c) : Blocks a b c ∨ Blocks a d c := by
  obtain ⟨x, m, z, rfl, merged, rfl, between⟩ := blocks
  cases d with
  | none =>
    rw [mergeEntry_none] at merged
    exact .inl ⟨x, m, z, rfl, merged, rfl, between⟩
  | some w =>
    cases b with
    | none =>
      rw [none_mergeEntry] at merged
      exact .inr ⟨x, m, z, rfl, merged, rfl, between⟩
    | some y =>
      rw [mergeEntry_some] at merged
      cases merged
      rcases between_of_merged between with left | right
      · exact .inl ⟨x, y, z, rfl, rfl, rfl, left⟩
      · exact .inr ⟨x, w, z, rfl, rfl, rfl, right⟩

end Merging

/-! ## Layers -/

/-- The layers of a payload, folded from the least specific one. -/
def layered (layers : List (Option (Payload α))) : Option (Payload α) :=
  layers.foldl mergeEntry none

/-- The payload of a layer for a task type. -/
def TaskContextOverlay.entry (overlay : TaskContextOverlay α) (taskType key : String) : Option (Payload α) :=
  (overlay.get? taskType).bind fun keywords => keywords key

section Layers

variable {agent parent child : TaskContextOverlay α} {taskType key : String}

theorem get?_propagate : (parent.propagate child).get? taskType = (parent.get? taskType).elim (child.get? taskType)
    fun keywords => some (TaskContextOverlay.propagateType child.all ((child.get? taskType).getD fun _ => none) keywords) := by
  unfold TaskContextOverlay.get?
  split <;> try rfl
  unfold TaskContextOverlay.propagate
  dsimp only
  cases parent.extra taskType <;> rfl

/-- A keyword of a parent's task type joins the child's, unless the child states it for all task types. -/
theorem entry_propagate : (parent.propagate child).entry taskType key =
    if (child.all key).isSome then child.entry taskType key
    else mergeEntry (parent.entry taskType key) (child.entry taskType key) := by
  unfold TaskContextOverlay.entry
  rw [get?_propagate]
  cases parent.get? taskType with
  | none => simp
  | some keywords =>
    have target : ((child.get? taskType).getD fun _ => none) key =
        (child.get? taskType).bind fun keywords => keywords key := by
      cases child.get? taskType <;> rfl
    simp only [Option.elim_some, Option.bind_some, TaskContextOverlay.propagateType, target]
    cases keywords key with
    | none => simp
    | some payload =>
      cases (child.get? taskType).bind fun keywords => keywords key with
      | none => simp
      | some value => rfl

theorem all_propagate : (parent.propagate child).all key = mergeEntry (parent.all key) (child.all key) := rfl

/-- What `build` uses for a task type. -/
theorem get_build {validated : RawKeywords α → V} : (child.build validated).get taskType =
    validated fun key => mergeEntry (child.all key) (child.entry taskType key) := by
  unfold TaskContextMap.get TaskContextOverlay.build TaskContextOverlay.entry
  dsimp only
  cases child.get? taskType with
  | none => simp
  | some keywords => rfl

theorem propagateType_self {all parents target keywords : RawKeywords α} :
    TaskContextOverlay.propagateType (mergeKeywords parents all)
      (TaskContextOverlay.propagateType all target keywords) keywords =
      TaskContextOverlay.propagateType all target keywords := by
  funext key
  unfold TaskContextOverlay.propagateType mergeKeywords
  cases keywords key with
  | none => rfl
  | some payload =>
    cases all key with
    | some value => simp [mergeEntry]
    | none => simp

/-- Propagating again changes nothing. -/
theorem propagate_propagate : parent.propagate (parent.propagate child) = parent.propagate child := by
  have all : mergeKeywords parent.all (mergeKeywords parent.all child.all) = mergeKeywords parent.all child.all := by
    funext key
    exact mergeEntry_mergeEntry_self
  unfold TaskContextOverlay.propagate
  simp only [TaskContextOverlay.mk.injEq]
  refine ⟨all, propagateType_self, propagateType_self, propagateType_self, ?_⟩
  funext taskType
  cases parent.extra taskType with
  | none => rfl
  | some keywords => simp [propagateType_self]

end Layers

/-! ## Precedence -/

section Precedence

variable (agent controller program : TaskContextOverlay α) (taskType key : String)

/-- The payloads for all task types, from the least specific. -/
def allLayers : List (Option (Payload α)) :=
  [agent.all key, controller.all key, program.all key]

/-- The payloads for the task type, but for those that a more specific layer states for all. -/
def typeLayers : List (Option (Payload α)) :=
  [if (controller.all key).isSome || (program.all key).isSome then none else agent.entry taskType key,
    if (program.all key).isSome then none else controller.entry taskType key, program.entry taskType key]

/-- The payloads from the least specific to the most specific one. -/
def layers : List (Option (Payload α)) :=
  List.flatten (List.zipWith (fun all ofType => [all, ofType]) (allLayers agent controller program key)
    (typeLayers agent controller program taskType key))

variable {agent controller program taskType key}

theorem entry_propagated : ((agent.propagate controller).propagate program).entry taskType key =
    layered (typeLayers agent controller program taskType key) := by
  rw [entry_propagate, entry_propagate]
  unfold layered typeLayers
  cases program.all key with
  | some value => simp
  | none => cases controller.all key <;> simp

/-- Folding the two kinds of layers apart comes to the same as folding them in turn, unless a payload for the task type has a
leaf somewhere where those for all and a more specific one have dicts. -/
theorem layered_layers (apart : (typeLayers agent controller program taskType key).Pairwise fun lower upper =>
    ¬ Blocks (layered (allLayers agent controller program key)) lower upper) :
    mergeEntry (layered (allLayers agent controller program key))
      (layered (typeLayers agent controller program taskType key)) =
      layered (layers agent controller program taskType key) := by
  unfold layers
  unfold layered allLayers typeLayers at *
  simp only [List.pairwise_cons, List.mem_cons, List.not_mem_nil, or_false, forall_eq_or_imp, forall_eq,
    List.foldl_cons, List.foldl_nil, none_mergeEntry] at apart
  obtain ⟨⟨agentController, agentProgram⟩, controllerProgram, -⟩ := apart
  simp only [List.zipWith_cons_cons, List.zipWith_nil_left, List.flatten_cons, List.flatten_nil, List.cons_append,
    List.nil_append, List.append_nil, List.foldl_cons, List.foldl_nil, none_mergeEntry]
  cases forProgram : program.all key with
  | some value => simp
  | none =>
    cases forController : controller.all key with
    | some value =>
      simp only [forProgram, forController, Option.isSome_some, Option.isSome_none, Bool.true_or, if_true, mergeEntry_none,
        none_mergeEntry, Bool.false_eq_true, if_false] at controllerProgram ⊢
      exact mergeEntry_assoc controllerProgram
    | none =>
      simp only [forProgram, forController, Option.isSome_none, Bool.or_self, mergeEntry_none, Bool.false_eq_true,
        if_false] at agentController agentProgram controllerProgram ⊢
      rw [mergeEntry_assoc fun blocks => ?_, mergeEntry_assoc agentController]
      exact (blocks_of_merged blocks).elim agentProgram controllerProgram

/-- **Context layering.** What a program's contexts build for a task type is the fold of the payloads for all task types,
merged with the fold of those for the task type. Both are folded in turn unless a payload for the task type has a leaf
somewhere where those for all and a more specific one have dicts. Propagating again changes nothing. -/
theorem layering (agent : TaskContextOverlay α) (config : ControllerContexts α) :
    (∀ (i : ℕ) (program : TaskContextOverlay α), config.tasking[i]? = some program →
      ∃ (program' : TaskContextOverlay α) (raw : String → RawKeywords α), (config.propagateConfig agent).tasking[i]? = some program' ∧
        (∀ (V : Type) (validated : RawKeywords α → V) (taskType : String),
          (program'.build validated).get taskType = validated (raw taskType)) ∧
        ∀ taskType key, raw taskType key = mergeEntry (layered (allLayers agent config.contexts program key))
            (layered (typeLayers agent config.contexts program taskType key)) ∧
          ((typeLayers agent config.contexts program taskType key).Pairwise (fun lower upper =>
            ¬ Blocks (layered (allLayers agent config.contexts program key)) lower upper) →
          raw taskType key = layered (layers agent config.contexts program taskType key))) ∧
    (config.propagateConfig agent).propagateConfig agent = config.propagateConfig agent := by
  constructor
  · intro i program here
    refine ⟨(agent.propagate config.contexts).propagate program, fun taskType key => mergeEntry
      (((agent.propagate config.contexts).propagate program).all key)
      (((agent.propagate config.contexts).propagate program).entry taskType key), ?_, fun V validated taskType => get_build,
      fun taskType key => ?_⟩
    · unfold ControllerContexts.propagateConfig
      rw [List.getElem?_map, here]
      rfl
    · have folded : mergeEntry (((agent.propagate config.contexts).propagate program).all key)
          (((agent.propagate config.contexts).propagate program).entry taskType key) =
          mergeEntry (layered (allLayers agent config.contexts program key))
            (layered (typeLayers agent config.contexts program taskType key)) := by
        rw [entry_propagated, all_propagate, all_propagate]
        unfold layered allLayers
        simp
      exact ⟨folded, fun apart => folded.trans (layered_layers apart)⟩
  · unfold ControllerContexts.propagateConfig
    simp only [propagate_propagate, List.map_map, ControllerContexts.mk.injEq, true_and]
    refine List.map_congr_left fun program _ => ?_
    exact propagate_propagate

theorem layering_example :
    let agent : TaskContextOverlay ℕ := { all := fun _ => some (.leaf 1), init := fun _ => some (.leaf 2) }
    let config : ControllerContexts ℕ := { contexts := { init := fun _ => some .null }, tasking := [{}] }
    ∃ program', (config.propagateConfig agent).tasking[0]? = some program' ∧
      (program'.build id).get "init" "camera" = some (.leaf 2) := by
  intro agent config
  obtain ⟨program', raw, here, built, folds⟩ := (layering agent config).1 0 {} rfl
  refine ⟨program', here, ?_⟩
  rw [built (RawKeywords ℕ) id "init", id, (folds "init" "camera").1]
  rfl

/-- A number that an agent states for one task type is replaced by the dict of its controller, under which what the agent
states for all task types shows again. -/
theorem layers_not_folded : ¬ ∀ (agent controller program : TaskContextOverlay ℕ) (taskType key : String),
    mergeEntry (((agent.propagate controller).propagate program).all key)
      (((agent.propagate controller).propagate program).entry taskType key) =
      layered (layers agent controller program taskType key) := by
  intro law
  let fields (name : String) (value : ℕ) : Payload ℕ :=
    .dict fun field => if field = name then some (.leaf value) else none
  have merged := law { all := fun _ => some (fields "a" 1), init := fun _ => some (.leaf 5) }
    { init := fun _ => some (fields "b" 2) } {} "init" "camera"
  have same : (some (.dict fun field => mergeEntry (if field = "a" then some (.leaf 1) else none)
      (if field = "b" then some (.leaf 2) else none)) : Option (Payload ℕ)) = some (fields "b" 2) := merged
  have lost := congrFun (Payload.dict.inj (Option.some.inj same)) "a"
  cases lost

end Precedence

end SensorKit.Core
