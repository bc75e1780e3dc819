import SensorKit.Sensor.LifecycleTeardown

/-!
# The graph of a compiled table

The nodes are those of the blocks' kept steps. Along a block a kept step depends on the last kept one before
it, and on nothing else; the first kept one inherits what the block's first step depends on.
-/

namespace SensorKit.Sensor

open Lib Common

/-- The node is of a command of an entry at a placement. -/
def OperationOf (table : LifecycleWorkflow) (graph : Graph (Option Operation)) (phase : Phase) (position : ℕ)
    (entry : Entry) (target : Placement) (k n : ℕ) : Prop :=
  ∃ node ∈ graph.nodes, node.id = n ∧ ∃ op, node.payload = some op ∧ op.target = target ∧
    op.origin = { source := table.name, path := [.name phase.name, entry.part position, .number k] }

section Graph

variable {table : LifecycleWorkflow} {sensor : BoundSensor} {deadlines : List DeadlineRule} {rules : List OperatorRule}
  {graph : Graph (Option Operation)} {bs : List Block} {joined : String → List Dependency} {b b' : Block}
  {i j k n m : ℕ} {name : String}

/-! ## Steps of blocks -/

/-- A step is found under its name. -/
theorem eq_of_name {step : PlannedStep} (apart : Apart bs) (mem : b ∈ bs) {spec : OpSpec}
    (at_ : b.entry.ops[k]? = some spec) (listed : step ∈ blockSteps table joined bs) (same : step.name = b.name k) :
    step = b.step table joined (spec, k) := by
  obtain ⟨b', mem', k', spec', at', rfl⟩ := mem_blockSteps.1 listed
  have lt := (List.getElem?_eq_some_iff.1 at_).1
  have lt' := (List.getElem?_eq_some_iff.1 at').1
  obtain ⟨rfl, rfl⟩ := apart.name_inj mem' mem lt' lt same
  rw [Option.some.inj (at'.symm.trans at_)]

/-- The first step waits for what it inherits. -/
theorem declares_soft (mem : b ∈ bs) (inherits : name ∈ b.soft) :
    Declares (blockSteps table joined bs) (b.name 0) name := by
  obtain ⟨spec, rest, ops⟩ := List.exists_cons_of_ne_nil b.entry.declares_ops
  have at_ : b.entry.ops[0]? = some spec := by simp [ops]
  refine ⟨b.step table joined (spec, 0), mem_blockSteps.2 ⟨b, mem, 0, spec, at_, rfl⟩, rfl, ⟨name, .completion⟩, ?_, rfl⟩
  exact List.mem_append_left _ (List.mem_map.2 ⟨name, inherits, rfl⟩)

/-- Any other step depends on the step before it. -/
theorem declares_next (apart : Apart bs) (mem : b ∈ bs) (lt : k + 1 < b.entry.ops.length) :
    Declares (blockSteps table joined bs) (b.name (k + 1)) name ↔ name = b.name k := by
  have at_ := List.getElem?_eq_getElem lt
  constructor
  · rintro ⟨step, listed, same, dep, depends, rfl⟩
    obtain rfl := eq_of_name apart mem at_ listed same
    obtain rfl := List.mem_singleton.1 depends
    rfl
  · rintro rfl
    refine ⟨_, mem_blockSteps.2 ⟨b, mem, k + 1, _, at_, rfl⟩, rfl, _, List.mem_singleton.2 rfl, rfl⟩

theorem requires_next (mem : b ∈ bs) {spec : OpSpec} (at_ : b.entry.ops[k + 1]? = some spec)
    (success : spec.sequence = .success) : Requires (blockSteps table joined bs) (b.name (k + 1)) (b.name k) :=
  ⟨_, mem_blockSteps.2 ⟨b, mem, k + 1, spec, at_, rfl⟩, rfl, _, List.mem_singleton.2 rfl, rfl, success⟩

/-! ## Chains along a block -/

/-- A chain of dependencies leads from a step to another one through steps that are left out. -/
abbrev Leads (sensor : BoundSensor) (table : LifecycleWorkflow) (joined : String → List Dependency) (bs : List Block) :
    String → String → Prop :=
  Through (Declares (blockSteps table joined bs)) (Hidden sensor (blockSteps table joined bs))

/-- Such a chain asks for success all along. -/
abbrev Compels (sensor : BoundSensor) (table : LifecycleWorkflow) (joined : String → List Dependency)
    (bs : List Block) : String → String → Prop :=
  Through (Requires (blockSteps table joined bs)) (Hidden sensor (blockSteps table joined bs))

/-- The step of the name is left out. -/
abbrev Out (sensor : BoundSensor) (table : LifecycleWorkflow) (joined : String → List Dependency) (bs : List Block)
    (name : String) : Prop :=
  Hidden sensor (blockSteps table joined bs) name

section Chain

variable (apart : Apart bs) (mem : b ∈ bs)

include apart mem

/-- Where the steps between are left out, a step has what an earlier one leads to. -/
theorem leads_down (lt : j < b.entry.ops.length) (le : k ≤ j)
    (out : ∀ l, k ≤ l → l < j → Out sensor table joined bs (b.name l))
    (chain : Leads sensor table joined bs (b.name k) name) : Leads sensor table joined bs (b.name j) name := by
  induction j, le using Nat.le_induction with
  | base => exact chain
  | succ j le ih =>
    have before := ih (by omega) fun l le' lt' => out l le' (by omega)
    exact .hidden ((declares_next apart mem lt).2 rfl) (out j le (by omega)) before

section

variable (lt : j < b.entry.ops.length) (before : k < j)
  (out : ∀ l, k < l → l < j → Out sensor table joined bs (b.name l))
include lt before out

/-- It depends on the last one before it that is kept, -/
theorem leads_to : Leads sensor table joined bs (b.name j) (b.name k) := by
  apply leads_down apart mem lt before (fun l le => out l (by omega))
  exact .direct ((declares_next apart mem (by omega)).2 rfl)

/-- and on no other kept step; -/
theorem eq_of_leads (stays : ¬ Out sensor table joined bs (b.name k)) (kept : ¬ Out sensor table joined bs name)
    (chain : Leads sensor table joined bs (b.name j) name) : name = b.name k := by
  induction j, before using Nat.le_induction with
  | base =>
    rcases through_iff.1 chain with first | ⟨c, first, inner, -⟩
    · exact (declares_next apart mem lt).1 first
    · obtain rfl := (declares_next apart mem lt).1 first
      exact absurd inner stays
  | succ j le ih =>
    rcases through_iff.1 chain with first | ⟨c, first, -, rest⟩
    · obtain rfl := (declares_next apart mem lt).1 first
      exact absurd (out j (by omega) (by omega)) kept
    · obtain rfl := (declares_next apart mem lt).1 first
      exact ih (by omega) (fun l le' lt' => out l le' (by omega)) rest

end

omit apart in
/-- it requires it, if the commands in between ask for success all along. -/
theorem compels_to (lt : j < b.entry.ops.length) (before : k < j)
    (out : ∀ l, k < l → l < j → Out sensor table joined bs (b.name l))
    (success : ∀ l spec, k < l → l ≤ j → b.entry.ops[l]? = some spec → spec.sequence = .success) :
    Compels sensor table joined bs (b.name j) (b.name k) := by
  have requires {l : ℕ} (after : k < l + 1) (le : l + 1 ≤ j) :
      Requires (blockSteps table joined bs) (b.name (l + 1)) (b.name l) := by
    have at_ := List.getElem?_eq_getElem (show l + 1 < b.entry.ops.length by omega)
    exact requires_next mem at_ (success (l + 1) _ after le at_)
  induction j, before using Nat.le_induction with
  | base => exact .direct (requires (by omega) (by omega))
  | succ j le ih =>
    have rest := ih (by omega) (fun l le' lt' => out l le' (by omega)) (fun l spec after le' => success l spec after
      (by omega)) fun after le' => requires after (by omega)
    exact .hidden (requires (by omega) (by omega)) (out j (by omega) (by omega)) rest

end Chain

/-- A step is the first kept one, or there is a last kept one before it. -/
theorem first_or_last (gone : ℕ → Prop) (k : ℕ) : (∀ l < k, gone l) ∨
    ∃ l < k, ¬ gone l ∧ ∀ l', l < l' → l' < k → gone l' := by
  induction k with
  | zero => exact .inl fun l lt => absurd lt (Nat.not_lt_zero l)
  | succ k ih =>
    by_cases out : gone k
    · rcases ih with all | ⟨l, lt, stays, between⟩
      · refine .inl fun l lt => ?_
        rcases Nat.lt_succ_iff_lt_or_eq.1 lt with lt | rfl
        · exact all l lt
        · exact out
      · refine .inr ⟨l, by omega, stays, fun l' after before => ?_⟩
        rcases Nat.lt_succ_iff_lt_or_eq.1 before with before | rfl
        · exact between l' after before
        · exact out
    · exact .inr ⟨k, by omega, out, fun l' after before => by omega⟩

/-! ## Nodes of blocks -/

/-- The parts that name the entries of a phase are distinct. -/
theorem part_inj (plans : Plans table sensor bs joined) {phase : Phase} {position position' : ℕ} {entry entry' : Entry}
    (listed : phase ∈ table.phases) (here : phase.entries[position]? = some entry)
    (there : phase.entries[position']? = some entry') (same : entry.part position = entry'.part position') :
    position = position' := by
  have sublist : phase.entries.Sublist (table.phases.flatMap Phase.entries) := by
    rw [List.flatMap_def]
    exact List.sublist_flatten_of_mem (List.mem_map_of_mem listed)
  have ids := List.pairwise_filterMap.1 ((sublist.filterMap Entry.id).nodup plans.ids)
  have apart {p p' : ℕ} {e e' : Entry} {id : String} (here : phase.entries[p]? = some e)
      (there : phase.entries[p']? = some e') (has : e.id = some id) (has' : e'.id = some id) : ¬ p < p' := by
    intro lt
    obtain ⟨bound, rfl⟩ := List.getElem?_eq_some_iff.1 here
    obtain ⟨bound', rfl⟩ := List.getElem?_eq_some_iff.1 there
    exact List.pairwise_iff_getElem.1 ids p p' bound bound' lt id has id has' rfl
  have named {id : String} (has : entry.id = some id) (has' : entry'.id = some id) : position = position' := by
    have := apart here there has has'
    have := apart there here has' has
    omega
  unfold Entry.part at same
  cases has : entry.id with
  | none =>
    cases has' : entry'.id with
    | none => simpa [has, has'] using same
    | some id' =>
      by_cases empty : id' = ""
      · simpa [has, has', empty] using same
      · simp [has, has', empty] at same
  | some id =>
    cases has' : entry'.id with
    | none =>
      by_cases empty : id = ""
      · simpa [has, has', empty] using same
      · simp [has, has', empty] at same
    | some id' =>
      by_cases empty : id = ""
      · by_cases empty' : id' = ""
        · simpa [has, has', empty, empty'] using same
        · simp [has, has', empty, empty'] at same
      · by_cases empty' : id' = ""
        · simp [has, has', empty, empty'] at same
        · simp only [has, has', if_neg empty, if_neg empty', PathPart.name.injEq] at same
          exact named has (same ▸ has')

/-- Whether a step is left out depends on its command and its target. -/
theorem out_iff (apart : Apart bs) (mem : b ∈ bs) {spec : OpSpec} (at_ : b.entry.ops[k]? = some spec) :
    Out sensor table joined bs (b.name k) ↔ spec.command.modelTag ∉ sensor.supportedCommands b.target.device := by
  have omitted : (b.step table joined (spec, k)).omitted sensor = true ↔
      spec.command.modelTag ∉ sensor.supportedCommands b.target.device := by
    simp [PlannedStep.omitted, Block.step, Block.plain]
  rw [← omitted]
  constructor
  · rintro ⟨step, listed, same, out⟩
    rwa [eq_of_name apart mem at_ listed same] at out
  · intro out
    exact ⟨_, mem_blockSteps.2 ⟨b, mem, k, spec, at_, rfl⟩, rfl, out⟩

/-- A step that is not left out has a node. -/
theorem exists_node_of_mem (listed : ∃ step ∈ blockSteps table joined bs, step.name = name)
    (stays : ¬ Out sensor table joined bs name) : ∃ n, NodeNamed sensor (blockSteps table joined bs) name n := by
  obtain ⟨step, mem, rfl⟩ := listed
  have here : step ∈ kept sensor (blockSteps table joined bs) := by
    refine mem_kept.2 ⟨mem, ?_⟩
    by_contra out
    exact stays ⟨step, mem, rfl, by simpa using out⟩
  obtain ⟨n, lt, eq⟩ := List.getElem_of_mem (List.mem_map_of_mem (f := PlannedStep.name) here)
  exact ⟨n, List.getElem?_eq_some_iff.2 ⟨lt, eq⟩⟩

theorem exists_node (mem : b ∈ bs) (lt : k < b.entry.ops.length) (stays : ¬ Out sensor table joined bs (b.name k)) :
    ∃ n, NodeNamed sensor (blockSteps table joined bs) (b.name k) n := by
  apply exists_node_of_mem ?_ stays
  exact ⟨b.step table joined (b.entry.ops[k], k),
    mem_blockSteps.2 ⟨b, mem, k, _, List.getElem?_eq_getElem lt, rfl⟩, rfl⟩

variable (projects : Projects sensor deadlines rules (blockSteps table joined bs) graph)

include projects

/-- The steps' nodes. -/
theorem unhidden_of_node (named : NodeNamed sensor (blockSteps table joined bs) name n) :
    ¬ Out sensor table joined bs name :=
  not_hidden_of_kept projects.names (List.mem_of_getElem? named)

theorem node_unique (named : NodeNamed sensor (blockSteps table joined bs) name n)
    (named' : NodeNamed sensor (blockSteps table joined bs) name m) : n = m := by
  have bound := (List.getElem?_eq_some_iff.1 named).1
  apply (List.getElem?_inj bound (nodup_kept projects.names)).1
  unfold NodeNamed at named named'
  rw [named, named']

/-- The node of a step of a block is of the command of the entry. -/
theorem operationOf_of_node (apart : Apart bs) (mem : b ∈ bs) {phase : Phase} {position : ℕ} {entry : Entry}
    (at_ : b.At sensor phase position entry) (lt : k < b.entry.ops.length)
    (named : NodeNamed sensor (blockSteps table joined bs) (b.name k) n) :
    OperationOf table graph phase position entry b.target k n := by
  unfold NodeNamed at named
  rw [List.getElem?_map, Option.map_eq_some_iff] at named
  obtain ⟨step, found, same⟩ := named
  have listed := (mem_kept.1 (List.mem_of_getElem? found)).1
  obtain rfl := eq_of_name apart mem (List.getElem?_eq_getElem lt) listed same
  obtain ⟨node, mem', id, of⟩ := projects.kept_at found
  have payload := of.payload
  unfold planned at payload
  simp only [Block.step, Block.plain, bind_eq_ok, pure_eq_ok] at payload
  obtain ⟨timeoutS, -, payload⟩ := payload
  refine ⟨node, mem', id, _, payload.symm, rfl, ?_⟩
  dsimp only
  rw [at_.origin]
  rfl

/-- The node of an operation is that of a step of a block. -/
theorem node_of_operationOf (plans : Plans table sensor bs joined) {phase : Phase} {position : ℕ} {entry : Entry}
    {target : Placement} (phases : table.phases[i]? = some phase) (here : phase.entries[position]? = some entry)
    (h : OperationOf table graph phase position entry target k n) :
    ∃ b ∈ bs, b.At sensor phase position entry ∧ b.target = target ∧ k < b.entry.ops.length ∧
      NodeNamed sensor (blockSteps table joined bs) (b.name k) n := by
  obtain ⟨node, mem, rfl, op, payload, rfl, origin⟩ := h
  obtain ⟨step, found, of⟩ := projects.kept_of mem
  obtain ⟨b, mem', k', spec, at_, rfl⟩ := mem_blockSteps.1 (mem_kept.1 (List.mem_of_getElem? found)).1
  obtain ⟨i', phase', position', entry', phases', block, -⟩ := plans.blocks b mem'
  have planned := of.payload
  unfold Sensor.planned at planned
  simp only [Block.step, Block.plain, bind_eq_ok, pure_eq_ok] at planned
  obtain ⟨timeoutS, -, planned⟩ := planned
  cases planned.trans payload
  dsimp only at origin
  rw [block.origin] at origin
  simp only [Origin.mk.injEq, List.cons_append, List.nil_append, List.cons.injEq, PathPart.name.injEq,
    PathPart.number.injEq, Nat.cast_inj, and_true, true_and] at origin
  obtain ⟨name, part, rfl⟩ := origin
  obtain rfl := plans.ordered.index_inj phases' phases name
  cases phases'.symm.trans phases
  obtain rfl := part_inj plans (List.mem_of_getElem? phases) block.here here part
  cases block.here.symm.trans here
  refine ⟨b, mem', block, rfl, (List.getElem?_eq_some_iff.1 at_).1, ?_⟩
  unfold NodeNamed
  rw [List.getElem?_map, found]
  rfl

end Graph

end SensorKit.Sensor
