import SensorKit.Common.DagSafety
import SensorKit.Lib.Projection
import SensorKit.Sensor.Workflow

/-!
# What lowering builds

The graph of a list of planned steps has one node for each step that is kept, in their order. Its edges
are the declared dependencies with the omitted steps taken out: a chain of dependencies through omitted
steps becomes one edge, which is hard if some such chain asks for success all along.
-/

namespace SensorKit.Sensor

open Lib Common

/-- The step is left out, if lowering accepts it, as its device does not support its command. -/
def PlannedStep.omitted (facts : BoundSensor) (step : PlannedStep) : Bool :=
  match step.command, step.target with
  | some command, some target => command.modelTag ∉ facts.supportedCommands target.device
  | _, _ => false

/-- The steps that become nodes. -/
def kept (facts : BoundSensor) (steps : List PlannedStep) : List PlannedStep :=
  steps.filter (!·.omitted facts)

/-- The step of the name declares a dependency on the other. -/
def Declares (steps : List PlannedStep) (n m : String) : Prop :=
  ∃ step ∈ steps, step.name = n ∧ ∃ dep ∈ step.deps, dep.on = m

/-- The step of the name declares that the other must succeed. -/
def Requires (steps : List PlannedStep) (n m : String) : Prop :=
  ∃ step ∈ steps, step.name = n ∧ ∃ dep ∈ step.deps, dep.on = m ∧ dep.kind = .success

/-- The step of the name is left out. -/
def Hidden (facts : BoundSensor) (steps : List PlannedStep) (n : String) : Prop :=
  ∃ step ∈ steps, step.name = n ∧ step.omitted facts = true

variable {facts : BoundSensor} {steps : List PlannedStep} {n m : String} {omitted : List String}
  {byName : Dict String PlannedStep} {c : Compiling} {node : Node (Option Operation)} {omissions : List Omission}

/-! ## Checked steps -/

/-- The steps are indexed under their names. -/
structure ByName (steps : List PlannedStep) (byName : Dict String PlannedStep) : Prop where
  names : byName.keys = steps.map PlannedStep.name
  named : ∀ step ∈ steps, byName.get? step.name = some step
  paired : ∀ step ∈ steps, step.command.isNone = step.target.isNone

theorem ByName.nodup (h : ByName steps byName) :
    (steps.map PlannedStep.name).Nodup := by
  rw [← h.names]
  exact byName.nodup

/-- **What `_checked` accepts** has distinct names, and depends on nothing else. -/
theorem checked_eq_ok (h : checked steps = .ok byName) :
    ByName steps byName ∧ ∀ n m, Declares steps n m → m ∈ steps.map PlannedStep.name := by
  simp only [checked, bind_eq_ok] at h
  obtain ⟨index, indexed, h⟩ := h
  have all : ByName steps index := by
    refine foldlM_invariant_prefix (fun pre index => ByName pre index) indexed ⟨rfl, by simp, by simp⟩
      fun pre step post index index' _ inv turn => ?_
    split_ifs at turn with repeated unpaired
    cases turn
    refine ⟨?_, fun step' mem => ?_, fun step' mem => ?_⟩
    · rw [Dict.keys_insert repeated, inv.names, List.map_append]
      rfl
    · rcases mem_snoc.1 mem with mem | rfl
      · have other : step'.name ≠ step.name := fun same => repeated (by
          rw [inv.names, ← same]
          exact List.mem_map_of_mem mem)
        rw [Dict.get?_insert_of_ne other]
        exact inv.named step' mem
      · exact Dict.get?_insert_self
    · rcases mem_snoc.1 mem with mem | rfl
      · exact inv.paired step' mem
      · exact not_not.1 unpaired
  split_ifs at h with dangling
  · obtain rfl := pure_eq_ok.1 h
    refine ⟨all, fun n m ⟨step, mem, _, dep, dep_mem, on⟩ => ?_⟩
    by_contra absent
    have missing : m ∈ ((steps.flatMap fun step => step.deps.map Dependency.on).filter
        (· ∉ index.keys)).dedup.insertionSort (· ≤ ·) := by
      rw [List.mem_insertionSort, List.mem_dedup, List.mem_filter]
      refine ⟨List.mem_flatMap.2 ⟨step, mem, List.mem_map.2 ⟨dep, dep_mem, on⟩⟩, ?_⟩
      rw [all.names]
      simpa using absent
    rw [dangling] at missing
    exact List.not_mem_nil missing

/-! ## Omitted steps -/

/-- **What `_fates` omits** is the steps whose command the device does not support. -/
theorem fates_eq_ok (h : fates steps facts = .ok (omitted, omissions)) :
    omitted = (steps.filter (·.omitted facts)).map PlannedStep.name ∧
      ∀ step ∈ steps, step.omitted facts = true → step.unsupported = .omit := by
  unfold fates at h
  refine foldlM_invariant_prefix (fun pre (fated : List String × List Omission) =>
    fated.1 = (pre.filter (·.omitted facts)).map PlannedStep.name ∧
      ∀ step ∈ pre, step.omitted facts = true → step.unsupported = .omit) h ⟨rfl, by simp⟩
    fun pre step post s t _ inv turn => ?_
  have keeps (supported : step.omitted facts = false) (same : t = s) :
      t.1 = ((pre ++ [step]).filter (·.omitted facts)).map PlannedStep.name ∧
        ∀ step' ∈ pre ++ [step], step'.omitted facts = true → step'.unsupported = .omit := by
    subst same
    refine ⟨by simpa [supported] using inv.1, fun step' mem omitted => ?_⟩
    rcases mem_snoc.1 mem with mem | rfl
    · exact inv.2 step' mem omitted
    · simp [supported] at omitted
  unfold fate at turn
  split at turn
  rename_i omitted omissions
  split at turn
  · rename_i command target hc ht
    dsimp only at turn
    split_ifs at turn with supported
    · exact keeps (by simp [PlannedStep.omitted, hc, ht, supported]) (Except.ok.inj turn).symm
    · split at turn
      · simp at turn
      · rename_i leaves
        cases turn
        have out : step.omitted facts = true := by simp [PlannedStep.omitted, hc, ht, supported]
        refine ⟨by simpa [out] using inv.1, fun step' mem omitted' => ?_⟩
        rcases mem_snoc.1 mem with mem | rfl
        · exact inv.2 step' mem omitted'
        · exact leaves
  · rename_i none
    refine keeps ?_ (Except.ok.inj turn).symm
    unfold PlannedStep.omitted
    split
    · exact absurd ‹_› (none _ _ ‹_›)
    · rfl

theorem mem_omitted (h : fates steps facts = .ok (omitted, omissions)) :
    n ∈ omitted ↔ Hidden facts steps n := by
  rw [(fates_eq_ok h).1]
  simp only [List.mem_map, List.mem_filter, Hidden]
  constructor
  · rintro ⟨step, ⟨mem, out⟩, name⟩
    exact ⟨step, mem, name, out⟩
  · rintro ⟨step, mem, name, out⟩
    exact ⟨step, ⟨mem, out⟩, name⟩

/-! ## Resolved dependencies -/

/-- What a list of dependencies says of the names, whatever its order and its repetitions. -/
structure Depends (deps : List Dependency) (any success : String → Prop) : Prop where
  any : ∀ m, (∃ dep ∈ deps, dep.on = m) ↔ any m
  success : ∀ m, (∃ dep ∈ deps, dep.on = m ∧ dep.kind = .success) ↔ success m

theorem mergeDep_get? (kinds : Dict String DependencyKind) (dep : Dependency) (m : String) :
    (mergeDep kinds dep).get? m =
      if m = dep.on then some (if kinds.get? m = some .success then .success else dep.kind) else kinds.get? m := by
  unfold mergeDep
  by_cases same : m = dep.on
  · subst same
    rw [if_pos rfl]
    by_cases success : kinds.get? dep.on = some .success <;> simp [success]
  · rw [if_neg same]
    split_ifs
    · rfl
    · exact Dict.get?_insert_of_ne same

/-- **Merging keeps what the list says.** -/
theorem merged_depends (deps : List Dependency) : Depends (merged deps)
    (fun m => ∃ dep ∈ deps, dep.on = m) (fun m => ∃ dep ∈ deps, dep.on = m ∧ dep.kind = .success) := by
  have kinds (deps : List Dependency) : ∀ kinds : Dict String DependencyKind, ∀ m,
      (((deps.foldl mergeDep kinds).get? m).isSome ↔ (kinds.get? m).isSome ∨ ∃ dep ∈ deps, dep.on = m) ∧
      ((deps.foldl mergeDep kinds).get? m = some .success ↔
        kinds.get? m = some .success ∨ ∃ dep ∈ deps, dep.on = m ∧ dep.kind = .success) := by
    induction deps with
    | nil => simp
    | cons dep deps ih =>
      intro kinds m
      rw [List.foldl_cons, (ih _ m).1, (ih _ m).2, mergeDep_get?]
      by_cases same : m = dep.on
      · subst same
        by_cases success : kinds.get? dep.on = some .success <;> simp [success]
      · simp [same, Ne.symm same]
  have entries (m : String) (kind : DependencyKind) :
      { on := m, kind } ∈ merged deps ↔ (deps.foldl mergeDep .empty).get? m = some kind := by
    rw [Dict.get?_eq_some, merged, List.mem_map]
    constructor
    · rintro ⟨⟨m', kind'⟩, mem, eq⟩
      cases eq
      exact mem
    · exact fun mem => ⟨(m, kind), mem, rfl⟩
  refine ⟨fun m => ?_, fun m => ?_⟩
  · have spec := (kinds deps .empty m).1
    simp only [Dict.get?_empty, Option.isSome_none, Bool.false_eq_true, false_or] at spec
    rw [← spec, Option.isSome_iff_exists]
    constructor
    · rintro ⟨⟨on, kind⟩, mem, rfl⟩
      exact ⟨kind, (entries on kind).1 mem⟩
    · rintro ⟨kind, found⟩
      exact ⟨_, (entries m kind).2 found, rfl⟩
  · have spec := (kinds deps .empty m).2
    simp only [Dict.get?_empty, reduceCtorEq, false_or] at spec
    rw [← spec, ← entries]
    constructor
    · rintro ⟨⟨on, kind⟩, mem, rfl, rfl⟩
      exact mem
    · exact fun mem => ⟨_, mem, rfl, rfl⟩

/-- The dependencies of a step, with the omitted steps taken out. -/
def Projected (facts : BoundSensor) (steps : List PlannedStep) (n : String) (deps : List Dependency) : Prop :=
  Depends deps (fun m => ¬ Hidden facts steps m ∧ Through (Declares steps) (Hidden facts steps) n m)
    fun m => ¬ Hidden facts steps m ∧ Through (Requires steps) (Hidden facts steps) n m

/-- What has been resolved is right. -/
def Resolving (facts : BoundSensor) (steps : List PlannedStep) (resolved : ResolvedDeps) : Prop :=
  ∀ n deps, resolved.get? n = some deps → Projected facts steps n deps

/-- The dependencies that one declared dependency contributes. -/
structure Contributes (facts : BoundSensor) (steps : List PlannedStep) (dep : Dependency) (added : List Dependency) :
    Prop where
  any : ∀ m, (∃ d ∈ added, d.on = m) ↔ ¬ Hidden facts steps m ∧ (m = dep.on ∨
    Hidden facts steps dep.on ∧ Through (Declares steps) (Hidden facts steps) dep.on m)
  success : ∀ m, (∃ d ∈ added, d.on = m ∧ d.kind = .success) ↔ ¬ Hidden facts steps m ∧ dep.kind = .success ∧
    (m = dep.on ∨ Hidden facts steps dep.on ∧ Through (Requires steps) (Hidden facts steps) dep.on m)

theorem contributes_kept {dep : Dependency} (stays : ¬ Hidden facts steps dep.on) :
    Contributes facts steps dep [dep] := by
  refine ⟨fun m => ?_, fun m => ?_⟩
  · simp only [List.mem_singleton, exists_eq_left]
    constructor
    · rintro rfl
      exact ⟨stays, .inl rfl⟩
    · rintro ⟨-, rfl | ⟨out, -⟩⟩
      · rfl
      · exact absurd out stays
  · simp only [List.mem_singleton, exists_eq_left]
    constructor
    · rintro ⟨rfl, success⟩
      exact ⟨stays, success, .inl rfl⟩
    · rintro ⟨-, success, rfl | ⟨out, -⟩⟩
      · exact ⟨rfl, success⟩
      · exact absurd out stays

/-- What an omitted predecessor passes on. -/
def inherited (dep : Dependency) (deps : List Dependency) : List Dependency :=
  deps.map fun i => { on := i.on, kind := if dep.kind = .success ∧ i.kind = .success then .success else .completion }

theorem contributes_inherited {dep : Dependency} {deps : List Dependency} (out : Hidden facts steps dep.on)
    (projected : Projected facts steps dep.on deps) : Contributes facts steps dep (inherited dep deps) := by
  refine ⟨fun m => ?_, fun m => ?_⟩
  · have any := projected.any m
    simp only [inherited, List.mem_map, exists_exists_and_eq_and]
    rw [any]
    constructor
    · rintro ⟨stays, chain⟩
      exact ⟨stays, .inr ⟨out, chain⟩⟩
    · rintro ⟨stays, rfl | ⟨-, chain⟩⟩
      · exact absurd out stays
      · exact ⟨stays, chain⟩
  · have success := projected.success m
    simp only [inherited, List.mem_map, exists_exists_and_eq_and]
    constructor
    · rintro ⟨i, mem, on, kind⟩
      split_ifs at kind with both
      obtain ⟨stays, chain⟩ := success.1 ⟨i, mem, on, both.2⟩
      exact ⟨stays, both.1, .inr ⟨out, chain⟩⟩
    · rintro ⟨stays, required, rfl | ⟨-, chain⟩⟩
      · exact absurd out stays
      · obtain ⟨i, mem, on, kind⟩ := success.2 ⟨stays, chain⟩
        exact ⟨i, mem, on, by simp [required, kind]⟩

/-- The contributions of the declared dependencies make up the projected ones. -/
theorem projected_of_contributes {step : PlannedStep} {parts : List (List Dependency)}
    (unique : ∀ step' ∈ steps, step'.name = step.name → step' = step) (mem : step ∈ steps)
    (parts_of : List.Forall₂ (Contributes facts steps) step.deps parts) :
    Projected facts steps step.name (merged parts.flatten) := by
  have list := merged_depends parts.flatten
  refine ⟨fun m => ?_, fun m => ?_⟩
  · rw [list.any m]
    simp only [List.mem_flatten]
    constructor
    · rintro ⟨d, ⟨added, mem_parts, mem_added⟩, on⟩
      obtain ⟨dep, declared, here⟩ := exists_left_of_forall₂ parts_of mem_parts
      obtain ⟨stays, rfl | ⟨out, chain⟩⟩ := (here.any m).1 ⟨d, mem_added, on⟩
      · exact ⟨stays, .direct ⟨step, mem, rfl, dep, declared, rfl⟩⟩
      · exact ⟨stays, .hidden ⟨step, mem, rfl, dep, declared, rfl⟩ out chain⟩
    · rintro ⟨stays, chain⟩
      obtain ⟨o, ⟨step', mem', name, dep, declared, on⟩, here⟩ : ∃ o, Declares steps step.name o ∧
          (m = o ∨ Hidden facts steps o ∧ Through (Declares steps) (Hidden facts steps) o m) := by
        rcases through_iff.1 chain with first | ⟨o, first, out, rest⟩
        · exact ⟨m, first, .inl rfl⟩
        · exact ⟨o, first, .inr ⟨out, rest⟩⟩
      obtain rfl := unique step' mem' name
      subst on
      obtain ⟨added, mem_parts, contributes⟩ := exists_right_of_forall₂ parts_of declared
      obtain ⟨d, mem_added, on⟩ := (contributes.any m).2 ⟨stays, here⟩
      exact ⟨d, ⟨added, mem_parts, mem_added⟩, on⟩
  · rw [list.success m]
    simp only [List.mem_flatten]
    constructor
    · rintro ⟨d, ⟨added, mem_parts, mem_added⟩, on⟩
      obtain ⟨dep, declared, here⟩ := exists_left_of_forall₂ parts_of mem_parts
      obtain ⟨stays, required, rfl | ⟨out, chain⟩⟩ := (here.success m).1 ⟨d, mem_added, on⟩
      · exact ⟨stays, .direct ⟨step, mem, rfl, dep, declared, rfl, required⟩⟩
      · exact ⟨stays, .hidden ⟨step, mem, rfl, dep, declared, rfl, required⟩ out chain⟩
    · rintro ⟨stays, chain⟩
      obtain ⟨o, ⟨step', mem', name, dep, declared, on, required⟩, here⟩ : ∃ o, Requires steps step.name o ∧
          (m = o ∨ Hidden facts steps o ∧ Through (Requires steps) (Hidden facts steps) o m) := by
        rcases through_iff.1 chain with first | ⟨o, first, out, rest⟩
        · exact ⟨m, first, .inl rfl⟩
        · exact ⟨o, first, .inr ⟨out, rest⟩⟩
      obtain rfl := unique step' mem' name
      subst on
      obtain ⟨added, mem_parts, contributes⟩ := exists_right_of_forall₂ parts_of declared
      obtain ⟨d, mem_added, on⟩ := (contributes.success m).2 ⟨stays, required, here⟩
      exact ⟨d, ⟨added, mem_parts, mem_added⟩, on⟩

section

variable (index : ByName steps byName) (hidden : ∀ n, n ∈ omitted ↔ Hidden facts steps n)
  (closed : ∀ n m, Declares steps n m → m ∈ steps.map PlannedStep.name)
include index hidden closed

/-- **Resolving a step.** By induction on the fuel: what is memoized stays right, and so is the answer. -/
theorem resolveStep_spec (fuel : ℕ) :
    ∀ {name : String} {resolved resolved' : ResolvedDeps} {seen : List String} {deps : List Dependency},
      name ∈ steps.map PlannedStep.name → Resolving facts steps resolved →
      resolveStep byName omitted fuel name resolved seen = .ok (resolved', deps) →
      Resolving facts steps resolved' ∧ Projected facts steps name deps ∧ resolved'.get? name = some deps ∧
        ∀ n ∈ resolved.keys, n ∈ resolved'.keys := by
  induction fuel with
  | zero => simp [resolveStep]
  | succ fuel ih =>
    intro name resolved resolved' seen deps node right h
    rw [resolveStep] at h
    split at h
    · rename_i found
      cases h
      exact ⟨right, right name _ found, found, fun _ => id⟩
    split_ifs at h with cyclic
    obtain ⟨step, mem, rfl⟩ := List.mem_map.1 node
    rw [index.named step mem] at h
    simp only [Option.map_some, Option.getD_some, bind_eq_ok, pure_eq_ok, Prod.mk.injEq] at h
    obtain ⟨⟨after, here⟩, loop, rfl, rfl⟩ := h
    obtain ⟨right', grown, parts, parts_of, rfl⟩ := foldlM_invariant_prefix
      (fun pre (state : ResolvedDeps × List Dependency) => Resolving facts steps state.1 ∧
        (∀ n ∈ resolved.keys, n ∈ state.1.keys) ∧
        ∃ parts, List.Forall₂ (Contributes facts steps) pre parts ∧ state.2 = parts.flatten) loop
      ⟨right, fun _ => id, [], .nil, rfl⟩ fun pre dep post state state' eq inv turn => by
        obtain ⟨memo, here⟩ := state
        obtain ⟨right, grown, parts, parts_of, rfl⟩ := inv
        have declared : Declares steps step.name dep.on := ⟨step, mem, rfl, dep, by simp [eq], rfl⟩
        have add {added : List Dependency} (contributes : Contributes facts steps dep added) :
            ∃ parts', List.Forall₂ (Contributes facts steps) (pre ++ [dep]) parts' ∧
              parts.flatten ++ added = parts'.flatten :=
          ⟨parts ++ [added], List.rel_append parts_of (.cons contributes .nil), by simp⟩
        dsimp only at turn
        split_ifs at turn with out
        · simp only [bind_eq_ok, pure_eq_ok] at turn
          obtain ⟨⟨memo', deps⟩, resolves, rfl⟩ := turn
          obtain ⟨right', projected, -, grown'⟩ := ih (closed _ _ declared) right resolves
          exact ⟨right', fun n mem => grown' n (grown n mem), add (contributes_inherited ((hidden _).1 out) projected)⟩
        · obtain rfl := pure_eq_ok.1 turn
          exact ⟨right, grown, add (contributes_kept fun hides => out ((hidden _).2 hides))⟩
    have projected := projected_of_contributes (fun step' mem' name => Option.some.inj
      ((index.named step' mem').symm.trans (name ▸ index.named step mem))) mem parts_of
    refine ⟨fun n deps found => ?_, projected, Dict.get?_insert_self, fun n mem => ?_⟩
    · rw [Dict.get?_insert] at found
      split_ifs at found with same
      · cases found
        rwa [same]
      · exact right' n deps found
    · rw [Dict.mem_keys_insert]
      exact .inr (grown n mem)

/-- **What `_resolved` returns** is the projected dependencies of each step. -/
theorem resolvedDeps_eq_ok {resolved : ResolvedDeps} (h : resolvedDeps byName omitted = .ok resolved) :
    ∀ n ∈ steps.map PlannedStep.name, ∃ deps, resolved.get? n = some deps ∧ Projected facts steps n deps := by
  obtain ⟨right, all⟩ := foldlM_invariant_prefix
    (fun pre (resolved : ResolvedDeps) => Resolving facts steps resolved ∧ ∀ n ∈ pre, n ∈ resolved.keys) h
    ⟨fun n deps found => by simp at found, by simp⟩ fun pre name post memo memo' eq inv turn => by
      simp only [bind_eq_ok, pure_eq_ok] at turn
      obtain ⟨⟨memo'', deps⟩, resolves, rfl⟩ := turn
      have node : name ∈ steps.map PlannedStep.name := by
        rw [← index.names, eq]
        simp
      obtain ⟨right, -, found, grown⟩ := resolveStep_spec index hidden closed _ node inv.1 resolves
      refine ⟨right, fun n mem => ?_⟩
      rcases mem_snoc.1 mem with mem | rfl
      · exact grown n (inv.2 n mem)
      · exact Dict.mem_keys.2 ⟨deps, found⟩
  intro n mem
  obtain ⟨deps, found⟩ := Dict.mem_keys.1 (all n (index.names ▸ mem))
  exact ⟨deps, found, right n deps found⟩

end

/-! ## Nodes and edges -/

section Compile

variable {deadlines : List DeadlineRule} {rules : List OperatorRule}

/-- The node of a step. -/
structure NodeOf (facts : BoundSensor) (deadlines : List DeadlineRule) (rules : List OperatorRule)
    (step : PlannedStep) (node : Node (Option Operation)) : Prop where
  payload : planned step facts deadlines = .ok node.payload
  label : node.label = step.label
  group : node.group = step.group
  delay : node.delayS = step.delayS
  effects : effects step rules facts = .ok (node.onFailure, node.optional, node.override)

/-- What the first loop of `_compile` has built of the steps so far. -/
structure Building (facts : BoundSensor) (deadlines : List DeadlineRule) (rules : List OperatorRule)
    (steps : List PlannedStep) (c : Compiling) : Prop where
  made : c.builder.Made
  nodes : List.Forall₂ (NodeOf facts deadlines rules) (kept facts steps) c.builder.nodes
  named : c.nodes.entries = ((kept facts steps).map PlannedStep.name).zipIdx
  soft : ∀ n, c.builder.soft n = []
  hard : ∀ n, c.builder.hard n = []
  operations : ∀ n op, c.operations.get? n = some op ↔
    ∃ step ∈ kept facts steps, step.name = n ∧ planned step facts deadlines = .ok (some op)

theorem kept_append (pre : List PlannedStep) (step : PlannedStep) :
    kept facts (pre ++ [step]) = kept facts pre ++ if step.omitted facts then [] else [step] := by
  unfold kept
  cases out : step.omitted facts <;> simp [out]

theorem mem_kept {step : PlannedStep} : step ∈ kept facts steps ↔ step ∈ steps ∧ step.omitted facts = false := by
  simp [kept]

theorem nodup_kept (names : (steps.map PlannedStep.name).Nodup) : ((kept facts steps).map PlannedStep.name).Nodup :=
  (List.filter_sublist.map PlannedStep.name).nodup names

theorem building_of_foldlM (names : (steps.map PlannedStep.name).Nodup)
    (hidden : ∀ n, n ∈ omitted ↔ Hidden facts steps n)
    (h : steps.foldlM (Compiling.add facts deadlines rules omitted) {} = .ok c) :
    Building facts deadlines rules steps c := by
  refine foldlM_invariant_prefix (fun pre c => Building facts deadlines rules pre c) h
    ⟨.empty, .nil, rfl, fun _ => rfl, fun _ => rfl, by simp [kept]⟩ fun pre step post c c' eq inv turn => ?_
  have mem : step ∈ steps := by simp [eq]
  have fresh : step.name ∉ pre.map PlannedStep.name := by
    rw [eq, List.map_append, List.map_cons] at names
    exact fun mem => (List.nodup_append.1 names).2.2 _ mem _ (by simp) rfl
  unfold Compiling.add at turn
  split_ifs at turn with out
  · obtain rfl := pure_eq_ok.1 turn
    obtain ⟨step', mem', name, omits⟩ := (hidden step.name).1 out
    obtain rfl := List.inj_on_of_nodup_map names mem' mem name
    have same : kept facts (pre ++ [step']) = kept facts pre := by simp [kept_append, omits]
    obtain ⟨made, nodes, named, soft, hard, operations⟩ := inv
    exact ⟨made, same ▸ nodes, same ▸ named, soft, hard, same ▸ operations⟩
  · have stays : step.omitted facts = false := by
      by_contra omits
      exact out ((hidden step.name).2 ⟨step, mem, rfl, by simpa using omits⟩)
    have more : kept facts (pre ++ [step]) = kept facts pre ++ [step] := by simp [kept_append, stays]
    simp only [bind_eq_ok, pure_eq_ok] at turn
    obtain ⟨payload, plans, ⟨onFailure, optional, override⟩, has, rfl⟩ := turn
    have unnamed : step.name ∉ c.nodes.keys := by
      rw [Dict.keys, inv.named, List.zipIdx_map_fst]
      exact fun mem => fresh (List.mem_map.2 (by
        obtain ⟨step', mem, name⟩ := List.mem_map.1 mem
        exact ⟨step', (mem_kept.1 mem).1, name⟩))
    refine ⟨.add inv.made _ _ _ _ _ _ _, ?_, ?_, inv.soft, inv.hard, fun n op => ?_⟩
    · rw [more]
      exact List.rel_append inv.nodes (.cons ⟨plans, rfl, rfl, rfl, has⟩ .nil)
    · rw [Dict.entries_insert unnamed, inv.named, more, List.map_append, List.zipIdx_append]
      simp [inv.nodes.length_eq]
    · rw [more]
      simp only [List.mem_append, List.mem_singleton, or_and_right, exists_or, exists_eq_left, plans,
        Except.ok.injEq]
      by_cases same : n = step.name
      · subst same
        have none : ¬ ∃ step' ∈ kept facts pre, step'.name = step.name ∧ planned step' facts deadlines = .ok (some op) := by
          rintro ⟨step', mem, name, -⟩
          exact fresh (name ▸ List.mem_map_of_mem (mem_kept.1 mem).1)
        cases payload with
        | none =>
          have unknown := inv.operations step.name op
          simp only [none, iff_false] at unknown
          simp [none, unknown]
        | some op' => simp [none]
      · cases payload with
        | none =>
          dsimp only
          rw [inv.operations]
          simp [Ne.symm same]
        | some op' =>
          dsimp only
          rw [Dict.get?_insert_of_ne same, inv.operations]
          simp [Ne.symm same]

/-- The names of the nodes. -/
theorem Building.get? (h : Building facts deadlines rules steps c) {i : ℕ} :
    c.nodes.get? n = some i ↔ ((kept facts steps).map PlannedStep.name)[i]? = some n := by
  rw [Dict.get?_eq_some, h.named, List.mem_zipIdx_iff_getElem?]

theorem mem_edges {nodes : Dict String ℕ} {deps : List Dependency} {kind : DependencyKind} {j : ℕ} :
    j ∈ edges nodes deps kind ↔ ∃ dep ∈ deps, dep.kind = kind ∧ nodes.get? dep.on = some j := by
  simp [edges, and_assoc]

/-- The second loop of `_compile` adds the edges of each node, and nothing else. -/
theorem edged_spec (resolved : ResolvedDeps) (made : c.builder.Made)
    (inside : ∀ name i, (name, i) ∈ c.nodes.entries → i < c.builder.nodes.length) :
    (c.edged resolved).Made ∧ (c.edged resolved).nodes = c.builder.nodes ∧ ∀ i j,
      (j ∈ (c.edged resolved).hard i ↔ j ∈ c.builder.hard i ∨ ∃ name, (name, i) ∈ c.nodes.entries ∧
        j ∈ edges c.nodes ((resolved.get? name).getD []) .success) ∧
      (j ∈ (c.edged resolved).soft i ↔ j ∈ c.builder.soft i ∨ ∃ name, (name, i) ∈ c.nodes.entries ∧
        j ∈ edges c.nodes ((resolved.get? name).getD []) .completion) := by
  have all (l : List (String × ℕ)) : ∀ b : GraphBuilder (Option Operation), b.Made →
      (∀ name i, (name, i) ∈ l → i < b.nodes.length) →
      let b' := l.foldl (fun builder e =>
        (builder.require e.2 (edges c.nodes ((resolved.get? e.1).getD []) .success)).order e.2
          (edges c.nodes ((resolved.get? e.1).getD []) .completion)) b
      b'.Made ∧ b'.nodes = b.nodes ∧ ∀ i j,
        (j ∈ b'.hard i ↔ j ∈ b.hard i ∨ ∃ name, (name, i) ∈ l ∧
          j ∈ edges c.nodes ((resolved.get? name).getD []) .success) ∧
        (j ∈ b'.soft i ↔ j ∈ b.soft i ∨ ∃ name, (name, i) ∈ l ∧
          j ∈ edges c.nodes ((resolved.get? name).getD []) .completion) := by
    induction l with
    | nil => exact fun b made _ => ⟨made, rfl, by simp⟩
    | cons e l ih =>
      intro b made inside
      obtain ⟨name, nid⟩ := e
      have there := inside name nid (by simp)
      obtain ⟨made', nodes, spec⟩ := ih _ (.order (.require made there _) there _)
        fun name i mem => inside name i (by simp [mem])
      refine ⟨made', nodes, fun i j => ⟨?_, ?_⟩⟩
      · rw [List.foldl_cons, (spec i j).1]
        simp only [GraphBuilder.order, GraphBuilder.require, Function.update_apply, List.mem_cons, Prod.mk.injEq]
        by_cases same : i = nid
        · subst same
          simp only [if_true, List.mem_union_iff, and_true, or_and_right, exists_or, exists_eq_left, or_assoc]
          exact or_left_comm
        · simp [same]
      · rw [List.foldl_cons, (spec i j).2]
        simp only [GraphBuilder.order, GraphBuilder.require, Function.update_apply, List.mem_cons, Prod.mk.injEq]
        by_cases same : i = nid
        · subst same
          simp only [if_true, List.mem_union_iff, and_true, or_and_right, exists_or, exists_eq_left, or_assoc]
          exact or_left_comm
        · simp [same]
  exact all c.nodes.entries c.builder made inside

/-- The graph of a list of steps is the projection of their declared dependencies to the kept ones. -/
structure Projects (facts : BoundSensor) (deadlines : List DeadlineRule) (rules : List OperatorRule)
    (steps : List PlannedStep) (graph : Graph (Option Operation)) : Prop where
  names : (steps.map PlannedStep.name).Nodup
  nodes : List.Forall₂ (NodeOf facts deadlines rules) (kept facts steps) graph.nodes
  ids : graph.nodes.map Node.id = List.range graph.nodes.length
  valid : graph.Valid
  deps : ∀ i j, j ∈ graph.deps i ↔ ∃ n m, ((kept facts steps).map PlannedStep.name)[i]? = some n ∧
    ((kept facts steps).map PlannedStep.name)[j]? = some m ∧ Through (Declares steps) (Hidden facts steps) n m
  hard : ∀ i j, j ∈ graph.hard i ↔ ∃ n m, ((kept facts steps).map PlannedStep.name)[i]? = some n ∧
    ((kept facts steps).map PlannedStep.name)[j]? = some m ∧ Through (Requires steps) (Hidden facts steps) n m

theorem not_hidden_of_kept (names : (steps.map PlannedStep.name).Nodup)
    (mem : n ∈ (kept facts steps).map PlannedStep.name) : ¬ Hidden facts steps n := by
  rintro ⟨step, listed, rfl, out⟩
  obtain ⟨step', mem, name⟩ := List.mem_map.1 mem
  obtain ⟨listed', stays⟩ := mem_kept.1 mem
  obtain rfl := List.inj_on_of_nodup_map names listed' listed name
  simp [out] at stays

theorem mem_names_of_kept (mem : n ∈ (kept facts steps).map PlannedStep.name) : n ∈ steps.map PlannedStep.name := by
  obtain ⟨step, mem, name⟩ := List.mem_map.1 mem
  exact List.mem_map.2 ⟨step, (mem_kept.1 mem).1, name⟩

/-- What the second loop of `_compile` leaves: the edges are the projected dependencies of the kept steps. -/
structure Draws (facts : BoundSensor) (deadlines : List DeadlineRule) (rules : List OperatorRule)
    (steps : List PlannedStep) (b : GraphBuilder (Option Operation)) : Prop where
  made : b.Made
  nodes : List.Forall₂ (NodeOf facts deadlines rules) (kept facts steps) b.nodes
  deps : ∀ i j, j ∈ b.frozen.deps i ↔ ∃ n m, ((kept facts steps).map PlannedStep.name)[i]? = some n ∧
    ((kept facts steps).map PlannedStep.name)[j]? = some m ∧ Through (Declares steps) (Hidden facts steps) n m
  hard : ∀ i j, j ∈ b.frozen.hard i ↔ ∃ n m, ((kept facts steps).map PlannedStep.name)[i]? = some n ∧
    ((kept facts steps).map PlannedStep.name)[j]? = some m ∧ Through (Requires steps) (Hidden facts steps) n m

/-- **Compiling projects the dependencies**, also to a graph that has a cycle. -/
theorem edged_draws {resolved : ResolvedDeps} (names : (steps.map PlannedStep.name).Nodup)
    (building : Building facts deadlines rules steps c)
    (projected : ∀ n ∈ steps.map PlannedStep.name, ∃ deps, resolved.get? n = some deps ∧ Projected facts steps n deps) :
    Draws facts deadlines rules steps (c.edged resolved) := by
  have entry (n : String) (i : ℕ) :
      (n, i) ∈ c.nodes.entries ↔ ((kept facts steps).map PlannedStep.name)[i]? = some n := by
    rw [building.named, List.mem_zipIdx_iff_getElem?]
  obtain ⟨made, nodes, spec⟩ := edged_spec resolved building.made fun n i mem => by
    have bound := (List.getElem?_eq_some_iff.1 ((entry n i).1 mem)).1
    rwa [List.length_map, building.nodes.length_eq] at bound
  -- An edge of a kind that the resolved dependencies name.
  have named {n : String} {i : ℕ} (node : ((kept facts steps).map PlannedStep.name)[i]? = some n) :
      ∃ deps, resolved.get? n = some deps ∧ Projected facts steps n deps :=
    projected n (mem_names_of_kept (List.mem_of_getElem? node))
  have success (i j : ℕ) : (∃ n, (n, i) ∈ c.nodes.entries ∧
      j ∈ edges c.nodes ((resolved.get? n).getD []) .success) ↔
      ∃ n m, ((kept facts steps).map PlannedStep.name)[i]? = some n ∧
        ((kept facts steps).map PlannedStep.name)[j]? = some m ∧ Through (Requires steps) (Hidden facts steps) n m := by
    refine exists_congr fun n => ?_
    rw [entry]
    constructor
    · rintro ⟨node, mem⟩
      obtain ⟨deps, found, here⟩ := named node
      obtain ⟨dep, listed, kind, leads⟩ := mem_edges.1 mem
      rw [found, Option.getD_some] at listed
      exact ⟨dep.on, node, building.get?.1 leads, ((here.success dep.on).1 ⟨dep, listed, rfl, kind⟩).2⟩
    · rintro ⟨m, node, node', chain⟩
      obtain ⟨deps, found, here⟩ := named node
      obtain ⟨dep, listed, on, kind⟩ := (here.success m).2 ⟨not_hidden_of_kept names (List.mem_of_getElem? node'), chain⟩
      refine ⟨node, mem_edges.2 ⟨dep, ?_, kind, building.get?.2 (on ▸ node')⟩⟩
      rwa [found, Option.getD_some]
  have any (i j : ℕ) : (∃ n, (n, i) ∈ c.nodes.entries ∧
      (j ∈ edges c.nodes ((resolved.get? n).getD []) .completion ∨
        j ∈ edges c.nodes ((resolved.get? n).getD []) .success)) ↔
      ∃ n m, ((kept facts steps).map PlannedStep.name)[i]? = some n ∧
        ((kept facts steps).map PlannedStep.name)[j]? = some m ∧ Through (Declares steps) (Hidden facts steps) n m := by
    refine exists_congr fun n => ?_
    rw [entry]
    constructor
    · rintro ⟨node, mem⟩
      obtain ⟨deps, found, here⟩ := named node
      obtain ⟨dep, listed, leads⟩ : ∃ dep ∈ deps, c.nodes.get? dep.on = some j := by
        rw [found, Option.getD_some] at mem
        rcases mem with mem | mem
        all_goals
          obtain ⟨dep, listed, -, leads⟩ := mem_edges.1 mem
          exact ⟨dep, listed, leads⟩
      exact ⟨dep.on, node, building.get?.1 leads, ((here.any dep.on).1 ⟨dep, listed, rfl⟩).2⟩
    · rintro ⟨m, node, node', chain⟩
      obtain ⟨deps, found, here⟩ := named node
      obtain ⟨dep, listed, on⟩ := (here.any m).2 ⟨not_hidden_of_kept names (List.mem_of_getElem? node'), chain⟩
      have leads : c.nodes.get? dep.on = some j := building.get?.2 (on ▸ node')
      refine ⟨node, ?_⟩
      rw [found, Option.getD_some]
      cases kind : dep.kind with
      | success => exact .inr (mem_edges.2 ⟨dep, listed, kind, leads⟩)
      | completion => exact .inl (mem_edges.2 ⟨dep, listed, kind, leads⟩)
  refine ⟨made, ?_, fun i j => ?_, fun i j => ?_⟩
  · simpa [nodes] using building.nodes
  · rw [← any i j]
    simp only [GraphBuilder.frozen, List.mem_union_iff, (spec i j).1, (spec i j).2, building.soft, building.hard,
      List.not_mem_nil, false_or, and_or_left, exists_or]
  · rw [← success i j]
    simp only [GraphBuilder.frozen, (spec i j).1, building.hard, List.not_mem_nil, false_or]

/-- **What `_compile` returns** is the graph of the projected dependencies. -/
theorem compile_projects {graph : Graph (Option Operation)} {operations : Dict String Operation}
    (h : compile steps facts deadlines rules = .ok (graph, operations, omissions)) :
    Projects facts deadlines rules steps graph := by
  simp only [compile, bind_eq_ok, pure_eq_ok, Prod.mk.injEq] at h
  obtain ⟨byName, checks, ⟨omitted, _⟩, fated, resolved, resolves, c, adds, graph', builds, rfl, -⟩ := h
  obtain ⟨index, closed⟩ := checked_eq_ok checks
  have hidden : ∀ n, n ∈ omitted ↔ Hidden facts steps n := fun n => mem_omitted fated
  have names := index.nodup
  have draws := edged_draws names (building_of_foldlM names hidden adds) (resolvedDeps_eq_ok index hidden closed resolves)
  have build : (c.edged resolved).build = .ok graph' := by
    unfold built at builds
    split at builds
    · rename_i graph build
      rw [build, Except.ok.inj builds]
    · simp at builds
  obtain rfl := GraphBuilder.build_eq_ok build
  exact ⟨names, draws.nodes, draws.made.kept.ids, draws.made.valid build, draws.deps, draws.hard⟩

/-! ## Graphs without omissions -/

theorem kept_eq (all : ∀ step ∈ steps, step.omitted facts = false) : kept facts steps = steps :=
  List.filter_eq_self.2 fun step mem => by simp [all step mem]

theorem not_hidden (all : ∀ step ∈ steps, step.omitted facts = false) (n : String) : ¬ Hidden facts steps n := by
  rintro ⟨step, mem, -, out⟩
  simp [all step mem] at out

/-- Without operator rules the step's own policy holds. -/
theorem NodeOf.policy {step : PlannedStep} (h : NodeOf facts deadlines [] step node) :
    node.onFailure = (if step.failFast then .stop else .skip) ∧ node.override = none := by
  have effects := h.effects
  simp only [Sensor.effects, bind_eq_ok] at effects
  obtain ⟨rule, found, effects⟩ := effects
  obtain rfl : none = rule := pure_eq_ok.1 found
  obtain ⟨policy, -, override⟩ : _ ∧ _ ∧ _ := by simpa [pure_eq_ok, Prod.ext_iff] using effects
  exact ⟨policy.symm, override.symm⟩

namespace Projects

variable {graph : Graph (Option Operation)} {i j : ℕ} {step : PlannedStep}

/-- The node of a kept step. -/
theorem kept_at (h : Projects facts deadlines rules steps graph) (at_ : (kept facts steps)[i]? = some step) :
    ∃ node ∈ graph.nodes, node.id = i ∧ NodeOf facts deadlines rules step node := by
  obtain ⟨length, nodeOf⟩ := List.forall₂_iff_get.1 h.nodes
  obtain ⟨bound, rfl⟩ := List.getElem?_eq_some_iff.1 at_
  have id : (graph.nodes.map Node.id)[i]? = some i := by
    rw [h.ids, List.getElem?_range (length ▸ bound)]
  rw [List.getElem?_map, List.getElem?_eq_getElem (length ▸ bound)] at id
  exact ⟨_, List.getElem_mem _, Option.some.inj id, nodeOf i bound (length ▸ bound)⟩

/-- The kept step of a node. -/
theorem kept_of (h : Projects facts deadlines rules steps graph)
    (mem : node ∈ graph.nodes) :
    ∃ step, (kept facts steps)[node.id]? = some step ∧ NodeOf facts deadlines rules step node := by
  have bound : node.id < graph.nodes.length := by
    rw [← List.mem_range, ← h.ids]
    exact List.mem_map_of_mem mem
  have length : (kept facts steps).length = graph.nodes.length := h.nodes.length_eq
  obtain ⟨node', mem', id, nodeOf⟩ := h.kept_at (List.getElem?_eq_getElem (length ▸ bound))
  obtain rfl := List.inj_on_of_nodup_map h.valid.ids mem' mem id
  exact ⟨_, List.getElem?_eq_getElem (length ▸ bound), nodeOf⟩

/-- Without operator rules a node is not overridden, and does not go on after a failure. -/
theorem policy (h : Projects facts deadlines [] steps graph)
    (mem : node ∈ graph.nodes) : node.override = none ∧ node.onFailure ≠ .continue := by
  obtain ⟨step, -, nodeOf⟩ := h.kept_of mem
  obtain ⟨policy, override⟩ := nodeOf.policy
  refine ⟨override, ?_⟩
  rw [policy]
  split_ifs <;> simp

/-- **Every moment of a run is a snapshot.** -/
theorem snapshot (h : Projects facts deadlines [] steps graph) {e : Execution (Option Operation)}
    (live : Execution.Live graph e) :
    ReadersWriters.Snapshot (fun n d => d ∈ graph.deps n) (fun n d => d ∈ graph.hard n) e.state.Resolved e.state.Failed
      e.state.Ran e.state.Running := by
  refine live.snapshot (fun node mem => (h.policy mem).1) fun n d hard => ?_
  have inside := (h.valid.inside n d (h.valid.hard_deps n d hard)).1
  obtain ⟨node, mem, id⟩ := List.mem_map.1 inside
  exact ⟨node, mem, id⟩

section

variable (h : Projects facts deadlines rules steps graph) (all : ∀ step ∈ steps, step.omitted facts = false)
include h all

/-- The node of a step, where none is omitted. -/
theorem node_at (at_ : steps[i]? = some step) :
    ∃ node ∈ graph.nodes, node.id = i ∧ NodeOf facts deadlines rules step node :=
  h.kept_at (by rwa [kept_eq all])

/-- The step of a node, where none is omitted. -/
theorem step_of (mem : node ∈ graph.nodes) :
    ∃ step, steps[node.id]? = some step ∧ NodeOf facts deadlines rules step node := by
  have found := h.kept_of mem
  rwa [kept_eq all] at found

end

private theorem named (kept : kept facts steps = steps) :
    ((Sensor.kept facts steps).map PlannedStep.name)[i]? = some n ↔ ∃ step, steps[i]? = some step ∧ step.name = n := by
  rw [kept, List.getElem?_map, Option.map_eq_some_iff]

section

variable (h : Projects facts deadlines rules steps graph) (all : ∀ step ∈ steps, step.omitted facts = false)
include h all

/-- Where nothing is omitted, the edges are the declared dependencies. -/
theorem deps_iff :
    j ∈ graph.deps i ↔ ∃ s l, steps[i]? = some s ∧ steps[j]? = some l ∧ ∃ dep ∈ s.deps, dep.on = l.name := by
  simp only [h.deps, named (kept_eq all), through_iff_of_none (not_hidden all)]
  constructor
  · rintro ⟨n, m, ⟨s, here, rfl⟩, ⟨l, there, rfl⟩, s', mem, name, dep, listed, on⟩
    obtain rfl := List.inj_on_of_nodup_map h.names mem (List.mem_of_getElem? here) name
    exact ⟨s', l, here, there, dep, listed, on⟩
  · rintro ⟨s, l, here, there, dep, listed, on⟩
    exact ⟨_, _, ⟨s, here, rfl⟩, ⟨l, there, rfl⟩, s, List.mem_of_getElem? here, rfl, dep, listed, on⟩

theorem hard_iff : j ∈ graph.hard i ↔ ∃ s l, steps[i]? = some s ∧ steps[j]? = some l ∧
      ∃ dep ∈ s.deps, dep.on = l.name ∧ dep.kind = .success := by
  simp only [h.hard, named (kept_eq all), through_iff_of_none (not_hidden all)]
  constructor
  · rintro ⟨n, m, ⟨s, here, rfl⟩, ⟨l, there, rfl⟩, s', mem, name, dep, listed, on⟩
    obtain rfl := List.inj_on_of_nodup_map h.names mem (List.mem_of_getElem? here) name
    exact ⟨s', l, here, there, dep, listed, on⟩
  · rintro ⟨s, l, here, there, dep, listed, on⟩
    exact ⟨_, _, ⟨s, here, rfl⟩, ⟨l, there, rfl⟩, s, List.mem_of_getElem? here, rfl, dep, listed, on⟩

end

end Projects

/-- The steps and their dependencies in another order. -/
def Reordered (steps steps' : List PlannedStep) : Prop :=
  ∃ mid, steps.Perm mid ∧ List.Forall₂ (fun step step' : PlannedStep =>
    step.deps.Perm step'.deps ∧ step' = { step with deps := step'.deps }) mid steps'

namespace Reordered

variable {steps' : List PlannedStep}

section

variable (h : Reordered steps steps')
include h

theorem left {step : PlannedStep} (mem : step ∈ steps) : ∃ deps, step.deps.Perm deps ∧ { step with deps } ∈ steps' := by
  obtain ⟨mid, perm, alike⟩ := h
  obtain ⟨step', mem', deps, eq⟩ := exists_right_of_forall₂ alike (perm.mem_iff.1 mem)
  exact ⟨step'.deps, deps, eq ▸ mem'⟩

theorem right {step' : PlannedStep} (mem : step' ∈ steps') :
    ∃ deps, step'.deps.Perm deps ∧ { step' with deps } ∈ steps := by
  obtain ⟨mid, perm, alike⟩ := h
  obtain ⟨step, mem', deps, eq⟩ := exists_left_of_forall₂ alike mem
  refine ⟨step.deps, deps.symm, perm.mem_iff.2 ?_⟩
  rw [eq]
  exact mem'

theorem declares : Declares steps = Declares steps' := by
  funext n m
  refine propext ⟨fun ⟨step, mem, name, dep, listed, on⟩ => ?_, fun ⟨step, mem, name, dep, listed, on⟩ => ?_⟩
  · obtain ⟨deps, perm, mem⟩ := h.left mem
    exact ⟨_, mem, name, dep, perm.mem_iff.1 listed, on⟩
  · obtain ⟨deps, perm, mem⟩ := h.right mem
    exact ⟨_, mem, name, dep, perm.mem_iff.1 listed, on⟩

theorem requires : Requires steps = Requires steps' := by
  funext n m
  refine propext ⟨fun ⟨step, mem, name, dep, listed, on⟩ => ?_, fun ⟨step, mem, name, dep, listed, on⟩ => ?_⟩
  · obtain ⟨deps, perm, mem⟩ := h.left mem
    exact ⟨_, mem, name, dep, perm.mem_iff.1 listed, on⟩
  · obtain ⟨deps, perm, mem⟩ := h.right mem
    exact ⟨_, mem, name, dep, perm.mem_iff.1 listed, on⟩

theorem hides : Hidden facts steps = Hidden facts steps' := by
  funext n
  refine propext ⟨fun ⟨step, mem, name, out⟩ => ?_, fun ⟨step, mem, name, out⟩ => ?_⟩
  · obtain ⟨deps, -, mem⟩ := h.left mem
    exact ⟨_, mem, name, out⟩
  · obtain ⟨deps, -, mem⟩ := h.right mem
    exact ⟨_, mem, name, out⟩

end

end Reordered

/-- The node of a kept step. -/
def NodeNamed (facts : BoundSensor) (steps : List PlannedStep) (n : String) (i : ℕ) : Prop :=
  ((kept facts steps).map PlannedStep.name)[i]? = some n

/-- The edges between the named nodes of two graphs are the same. -/
def SameEdges (facts : BoundSensor) (steps steps' : List PlannedStep) (graph graph' : Graph (Option Operation)) : Prop :=
  ∀ n m i j i' j', NodeNamed facts steps n i → NodeNamed facts steps m j → NodeNamed facts steps' n i' →
    NodeNamed facts steps' m j' → (j ∈ graph.deps i ↔ j' ∈ graph'.deps i') ∧ (j ∈ graph.hard i ↔ j' ∈ graph'.hard i')

theorem Projects.between {graph : Graph (Option Operation)} (h : Projects facts deadlines rules steps graph) {i j : ℕ}
    (here : NodeNamed facts steps n i) (there : NodeNamed facts steps m j) :
    (j ∈ graph.deps i ↔ Through (Declares steps) (Hidden facts steps) n m) ∧
      (j ∈ graph.hard i ↔ Through (Requires steps) (Hidden facts steps) n m) := by
  rw [h.deps, h.hard]
  unfold NodeNamed at here there
  constructor
  all_goals
    constructor
    · rintro ⟨n', m', eq, eq', chain⟩
      cases here.symm.trans eq
      cases there.symm.trans eq'
      exact chain
    · exact fun chain => ⟨n, m, here, there, chain⟩

theorem Projects.sameEdges {steps' : List PlannedStep} {graph graph' : Graph (Option Operation)}
    (h : Projects facts deadlines rules steps graph) (h' : Projects facts deadlines rules steps' graph')
    (reordered : Reordered steps steps') : SameEdges facts steps steps' graph graph' := by
  intro n m i j i' j' here there here' there'
  rw [(h.between here there).1, (h.between here there).2, (h'.between here' there').1, (h'.between here' there').2,
    reordered.declares, reordered.requires, reordered.hides]
  exact ⟨.rfl, .rfl⟩

/-- **Omission is projection.** In the graph that lowering builds of a list of steps, a kept step depends
on another one exactly if a chain of declared dependencies leads there through omitted steps, and the edge
is hard exactly if such a chain asks for success all along. So it is for each cleanup. The order in which
steps and dependencies are listed plays no part. -/
theorem lower_projects {name : String} {cleanup : List CleanupPlan} {workflow : ExecutableWorkflow}
    (h : lower name steps facts cleanup deadlines rules = .ok workflow) :
    Projects facts deadlines rules steps workflow.graph ∧
      List.Forall₂ (fun plan c => Projects facts deadlines rules plan.steps c.graph) cleanup workflow.cleanup ∧
      ∀ name' steps' cleanup' workflow', Reordered steps steps' →
        lower name' steps' facts cleanup' deadlines rules = .ok workflow' →
        SameEdges facts steps steps' workflow.graph workflow'.graph := by
  have projects {name : String} {steps : List PlannedStep} {cleanup : List CleanupPlan} {workflow : ExecutableWorkflow}
      (h : lower name steps facts cleanup deadlines rules = .ok workflow) :
      Projects facts deadlines rules steps workflow.graph ∧
        List.Forall₂ (fun plan c => Projects facts deadlines rules plan.steps c.graph) cleanup workflow.cleanup := by
    simp only [lower, bind_eq_ok, pure_eq_ok] at h
    obtain ⟨⟨graph, operations, omissions⟩, compiles, plans, tears, _, -, rfl⟩ := h
    refine ⟨compile_projects compiles, List.forall₂_map_right_iff.2 ((mapM_eq_ok.1 tears).imp fun plan torn h => ?_)⟩
    simp only [tearDown, bind_eq_ok, pure_eq_ok] at h
    obtain ⟨⟨graph, operations, omissions⟩, compiles, armedBy, -, rfl⟩ := h
    exact compile_projects compiles
  obtain ⟨main, cleanups⟩ := projects h
  exact ⟨main, cleanups, fun _ _ _ _ reordered h' => main.sameEdges (projects h').1 reordered⟩

/-- Lowering leaves out the steps that may be omitted only. -/
theorem omit_of_lower {name : String} {cleanup : List CleanupPlan} {workflow : ExecutableWorkflow}
    (h : lower name steps facts cleanup deadlines rules = .ok workflow) :
    ∀ step ∈ steps, step.omitted facts = true → step.unsupported = .omit := by
  simp only [lower, compile, bind_eq_ok] at h
  obtain ⟨_, ⟨byName, -, ⟨omitted, omissions⟩, fated, -⟩, -⟩ := h
  exact (fates_eq_ok fated).2

/-- A sensor without a structure, whose mount can be stopped only. -/
def stopOnly : BoundSensor where
  topology :=
    { placed_at := by simp
      own_instrument := by simp
      one_port := by simp
      selectors_on_chain := by simp
      own_chain := by simp }
  details := .ofList [("mount", { supportedCommands := ["Stop"] })]

/-- Tracking waits for a stop, and an exposure for the tracking, which the mount does not support. -/
def tracking : List PlannedStep :=
  [{ name := "expose", origin := ⟨"run", [.name "expose"], ""⟩, group := "run", deps := [⟨"track", .success⟩] },
    { name := "track", origin := ⟨"run", [.name "track"], ""⟩, group := "run", target := some ⟨"mount", []⟩,
      command := some ⟨⟨"Track", none⟩, []⟩, deps := [⟨"stop", .success⟩], unsupported := .omit },
    { name := "stop", origin := ⟨"run", [.name "stop"], ""⟩, group := "run", target := some ⟨"mount", []⟩,
      command := some ⟨⟨"Stop", none⟩, []⟩ }]

theorem lower_projects_example : ∃ workflow, lower "run" tracking stopOnly [] [] [] = .ok workflow ∧
    workflow.graph.hard 0 = [1] ∧ Projects stopOnly [] [] tracking workflow.graph := by
  have lowers : (lower "run" tracking stopOnly [] [] []).toOption.map (fun w => w.graph.hard 0) = some [1] := by
    decide +kernel
  obtain ⟨workflow, eq, hard⟩ := Option.map_eq_some_iff.1 lowers
  have h := toOption_eq_some.1 eq
  exact ⟨workflow, h, hard, (lower_projects h).1⟩

/-- **What is compiled can be run to its end**, whatever has happened: from every state of a run that is not cancelled some
continuation returns, and then each kept step has its result. -/
theorem compiled_ends {graph : Graph (Option Operation)} {operations : Dict String Operation} {omissions : List Omission}
    {e : Execution (Option Operation)} (h : compile steps facts deadlines rules = .ok (graph, operations, omissions))
    (run : Reaches Execution.step Execution.Uncancelled (.start graph) e) :
    ∃ f, Reaches Execution.step Execution.Uncancelled e f ∧ f.phase = .finished (.returned false) ∧
      ∀ i, (f.state.results i).isSome ↔ i < (kept facts steps).length := by
  have projects := compile_projects h
  obtain ⟨f, more, complete⟩ := Execution.exists_complete projects.valid (Execution.waits_of_reaches projects.valid run)
  refine ⟨f, more, complete.returned, fun i => ?_⟩
  rw [complete.resolved, projects.ids, List.mem_range, projects.nodes.length_eq]

theorem compiled_ends_tracking : ∃ (graph : Graph (Option Operation)) (f : Execution (Option Operation)),
    Reaches Execution.step Execution.Uncancelled (.start graph) f ∧ f.phase = .finished (.returned false) ∧
      ∀ i, (f.state.results i).isSome ↔ i < 2 := by
  have compiles : (compile tracking stopOnly [] []).toOption.isSome = true := by decide +kernel
  obtain ⟨⟨graph, _, _⟩, eq⟩ := Option.isSome_iff_exists.1 compiles
  exact ⟨graph, compiled_ends (toOption_eq_some.1 eq) (.refl _)⟩

end Compile

end SensorKit.Sensor
