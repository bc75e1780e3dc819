import SensorKit.Common.DagDispatch
import SensorKit.Sensor.LifecycleGraph

/-!
# Inherited waits in a run

Waits are attached to the first step of an entry at a placement, and the later steps inherit them along the
sequence. A later step that only waits for completion does not, if the first one is skipped before its own
waits are over, since something that it required has failed. Where no first step is skipped so, each operation
of an entry is dispatched after all the operations for which the entry waits.
-/

namespace SensorKit.Sensor

open Lib Common

/-- The operations for which an entry waits have their results. -/
def WaitsOver (table : LifecycleWorkflow) (graph : Graph (Option Operation)) (i : ℕ) (entry : Entry)
    (s : RunState (Option Operation)) : Prop :=
  ∀ other, WaitsFor table i entry other → ∀ position' entry' target k m, other.entries[position']? = some entry' →
    OperationOf table graph other position' entry' target k m → s.Resolved m

/-- Every dispatched operation of an entry was dispatched after the operations for which the entry waits. -/
def WaitsKept (table : LifecycleWorkflow) (graph : Graph (Option Operation)) (e : Execution (Option Operation)) : Prop :=
  ∀ i phase position entry, table.phases[i]? = some phase → phase.entries[position]? = some entry →
    ∀ target k n, OperationOf table graph phase position entry target k n → n ∈ e.dispatched →
      WaitsOver table graph i entry e.state

/-- The first operation of the entry at the placement was skipped, and a later one follows that only waits for
completion somewhere between them. -/
def HeadSkipped (table : LifecycleWorkflow) (graph : Graph (Option Operation)) (phase : Phase) (position : ℕ)
    (entry : Entry) (s : RunState (Option Operation)) : Prop :=
  ∃ target k n, OperationOf table graph phase position entry target k n ∧
    (∀ k' < k, ∀ n', ¬ OperationOf table graph phase position entry target k' n') ∧ s.Resolved n ∧ ¬ s.Ran n ∧
    ∃ j n', OperationOf table graph phase position entry target j n' ∧
      ∃ l spec, k < l ∧ l ≤ j ∧ entry.ops[l]? = some spec ∧ spec.sequence = .completion

/-- While the run has not been stopped, no first operation is skipped before the waits of its entry are over. -/
def HeadsWait (table : LifecycleWorkflow) (graph : Graph (Option Operation)) (e : Execution (Option Operation)) : Prop :=
  e.state.stop = false → ∀ i phase position entry, table.phases[i]? = some phase →
    phase.entries[position]? = some entry → HeadSkipped table graph phase position entry e.state →
      WaitsOver table graph i entry e.state

section Waits

variable {table : LifecycleWorkflow} {sensor : BoundSensor} {deadlines : List DeadlineRule}
  {graph : Graph (Option Operation)} {bs : List Block} {joined : String → List Dependency} {b : Block}
  {e : Execution (Option Operation)} {i j k n : ℕ}

/-- The nodes of what the block inherits have their results. -/
def SoftOver (sensor : BoundSensor) (table : LifecycleWorkflow) (joined : String → List Dependency) (bs : List Block)
    (b : Block) (s : RunState (Option Operation)) : Prop :=
  ∀ name ∈ b.soft, ∀ m, NodeNamed sensor (blockSteps table joined bs) name m → s.Resolved m

/-- What a step of a block leads to, its node depends on. -/
theorem mem_deps {rules : List OperatorRule} (projects : Projects sensor deadlines rules (blockSteps table joined bs) graph)
    {name : String} (here : NodeNamed sensor (blockSteps table joined bs) (b.name k) n) {m : ℕ}
    (there : NodeNamed sensor (blockSteps table joined bs) name m)
    (chain : Leads sensor table joined bs (b.name k) name) : m ∈ graph.deps n :=
  (projects.between here there).1.2 chain

variable (plans : Plans table sensor bs joined)
  (projects : Projects sensor deadlines [] (blockSteps table joined bs) graph) (mem : b ∈ bs)

include plans projects mem

/-- **What a resolved step tells.** The inherited waits are over, or the first kept step of the block was given up. -/
theorem softOver_of_resolved (live : Execution.Live graph e) : ∀ k n, k < b.entry.ops.length →
    NodeNamed sensor (blockSteps table joined bs) (b.name k) n → e.state.Resolved n →
    SoftOver sensor table joined bs b e.state ∨ ∃ h ≤ k, (∀ l < h, Out sensor table joined bs (b.name l)) ∧
      ∃ n', NodeNamed sensor (blockSteps table joined bs) (b.name h) n' ∧ e.state.Resolved n' ∧ ¬ e.state.Ran n' := by
  have snapshot := projects.snapshot live
  intro k
  induction k using Nat.strong_induction_on with
  | h k ih =>
    intro n lt named resolved
    rcases first_or_last (fun l => Out sensor table joined bs (b.name l)) k
      with first | ⟨l, before, stays, between⟩
    · by_cases ran : e.state.Ran n
      · left
        intro name inherits m there
        apply snapshot.waited (.inl ran)
        apply mem_deps projects named there
        apply leads_down plans.apart mem lt (Nat.zero_le k) fun l _ before => first l before
        exact .direct (declares_soft mem inherits)
      · exact .inr ⟨k, Nat.le_refl k, first, n, named, resolved, ran⟩
    · obtain ⟨n', named'⟩ := exists_node mem (by omega) stays
      have resolved' : e.state.Resolved n' := by
        rcases snapshot.given_up resolved with ran | ⟨d, required, failed⟩
        · exact snapshot.waited (.inl ran)
            (mem_deps projects named named' (leads_to plans.apart mem lt before between))
        · -- A step that was given up required the last kept one before it, and nothing else.
          have dep := projects.valid.hard_deps n d required
          obtain ⟨_, name, here, there, chain⟩ := (projects.deps n d).1 dep
          cases here.symm.trans named
          have same := eq_of_leads plans.apart mem lt before between stays
            (unhidden_of_node projects there) chain
          rw [same] at there
          rw [node_unique projects named' there]
          exact snapshot.failed_resolved failed
      rcases ih l before n' (by omega) named' resolved' with waited | ⟨h, le, first, rest⟩
      · exact .inl waited
      · exact .inr ⟨h, by omega, first, rest⟩

omit plans in
/-- A step that is going on, after commands that ask for success all along, finds that the earlier one has run. -/
theorem ran_of_success (live : Execution.Live graph e) (plain : e.state.Plain) {h n' : ℕ}
    (named' : NodeNamed sensor (blockSteps table joined bs) (b.name h) n') : ∀ j n, h < j → j < b.entry.ops.length →
    NodeNamed sensor (blockSteps table joined bs) (b.name j) n → e.state.Ran n ∨ e.state.Running n →
    (∀ l spec, h < l → l ≤ j → b.entry.ops[l]? = some spec → spec.sequence = .success) → e.state.Ran n' := by
  have snapshot := projects.snapshot live
  intro j
  induction j using Nat.strong_induction_on with
  | h j ih =>
    intro n before lt named going success
    have stays := unhidden_of_node projects named'
    rcases first_or_last (fun l => Out sensor table joined bs (b.name l)) j
      with first | ⟨l, before', stays', between⟩
    · exact absurd (first h before) stays
    · have le : h ≤ l := by
        by_contra less
        exact stays (between h (by omega) before)
      obtain ⟨m, there⟩ := exists_node mem (show l < b.entry.ops.length by omega) stays'
      have required : m ∈ graph.hard n := by
        apply (projects.between named there).2.2
        exact compels_to mem lt before' between fun l' spec after le' => success l' spec (by omega) le'
      obtain ⟨resolved, unfailed⟩ := snapshot.required going required
      have ran : e.state.Ran m := by
        by_contra not_ran
        apply unfailed
        exact plain.failed (fun nd mem => (projects.policy (live.graph ▸ mem)).2) resolved not_ran
      rcases le.eq_or_lt with rfl | after
      · rwa [node_unique projects named' there]
      · exact ih l before' m after (by omega) there (.inl ran) fun l' spec after' le' => success l' spec after' (by omega)

/-- **What a started step tells.** The inherited waits are over, or the first kept step of the block was given up and
the step follows it with a wait for completion only. -/
theorem softOver_of_going (live : Execution.Live graph e) (plain : e.state.Plain) (lt : j < b.entry.ops.length)
    (named : NodeNamed sensor (blockSteps table joined bs) (b.name j) n) (going : e.state.Ran n ∨ e.state.Running n) :
    SoftOver sensor table joined bs b e.state ∨ ∃ h < j, (∀ l < h, Out sensor table joined bs (b.name l)) ∧
      (∃ n', NodeNamed sensor (blockSteps table joined bs) (b.name h) n' ∧ e.state.Resolved n' ∧ ¬ e.state.Ran n') ∧
      ∃ l spec, h < l ∧ l ≤ j ∧ b.entry.ops[l]? = some spec ∧ spec.sequence = .completion := by
  have snapshot := projects.snapshot live
  rcases first_or_last (fun l => Out sensor table joined bs (b.name l)) j
    with first | ⟨k, before, stays, between⟩
  · left
    intro name inherits m there
    apply snapshot.waited going
    apply mem_deps projects named there
    apply leads_down plans.apart mem lt (Nat.zero_le j) fun l _ before => first l before
    exact .direct (declares_soft mem inherits)
  · obtain ⟨m, there⟩ := exists_node mem (show k < b.entry.ops.length by omega) stays
    have resolved : e.state.Resolved m :=
      snapshot.waited going (mem_deps projects named there (leads_to plans.apart mem lt before between))
    rcases softOver_of_resolved plans projects mem live k m (by omega) there resolved
      with waited | ⟨h, le, first, n', named', resolved', not_ran⟩
    · exact .inl waited
    · refine .inr ⟨h, by omega, first, ⟨n', named', resolved', not_ran⟩, ?_⟩
      by_contra all
      apply not_ran
      apply ran_of_success projects mem live plain named' j n (by omega) lt named going
      intro l spec after le' at_
      cases kind : spec.sequence with
      | success => rfl
      | completion => exact absurd ⟨l, spec, after, le', at_, kind⟩ all

omit mem

/-- Where the first steps wait, a task that has been started finds the waits of its entry over. -/
theorem grants_of_headsWait : Execution.Grants graph (HeadsWait table graph) fun n m =>
    ∃ i phase position entry target k, table.phases[i]? = some phase ∧ phase.entries[position]? = some entry ∧
      OperationOf table graph phase position entry target k n ∧
      ∃ other, WaitsFor table i entry other ∧ ∃ position' entry' target' k', other.entries[position']? = some entry' ∧
        OperationOf table graph other position' entry' target' k' m := by
  rintro e live plain stop waits n created m ⟨i, phase, position, entry, target, k, phases, entries, operation, other,
    waiting, position', entry', target', k', entries', operation'⟩
  obtain ⟨b, mem, block, rfl, lt, named⟩ := node_of_operationOf projects plans phases entries operation
  obtain ⟨i', phase', position₂, entry₂, phases₂, block₂, inherits⟩ := plans.blocks b mem
  rcases softOver_of_going plans projects mem live plain lt named (.inr ⟨_, created⟩)
    with waited | ⟨h, before, first, ⟨n', named', resolved, not_ran⟩, l, spec, after, le, at_, completion⟩
  · have same : i' = i := by
      apply plans.ordered.index_inj phases₂ phases
      rw [← block₂.group, block.group]
    subst same
    cases phases₂.symm.trans phases
    have entry_eq : entry₂ = entry := by rw [← block₂.runs, block.runs]
    subst entry_eq
    have bound := (List.getElem?_eq_some_iff.1 phases).1
    obtain ⟨j, -, phases'⟩ := waiting.index plans.ordered bound
    obtain ⟨b', mem', block', -, lt', named'⟩ := node_of_operationOf projects plans phases' entries' operation'
    apply waited (b'.name k') _ m named'
    exact inherits other waiting b' mem' block'.group _ (Block.mem_names.2 ⟨k', lt', rfl⟩)
  · have head := operationOf_of_node projects plans.apart mem block (show h < b.entry.ops.length by omega) named'
    have skipped : HeadSkipped table graph phase position entry e.state := by
      refine ⟨b.target, h, n', head, fun k' less n₂ earlier => ?_, resolved, not_ran, k, n, operation, l, spec, after, le,
        by rwa [← block.runs], completion⟩
      obtain ⟨b₂, mem₂, block₂, target, lt₂, named₂⟩ := node_of_operationOf projects plans phases entries earlier
      have spec₂ := List.getElem?_eq_getElem lt₂
      have out := (out_iff plans.apart mem (by rwa [block.runs, ← block₂.runs])).1 (first k' less)
      apply unhidden_of_node projects named₂
      rw [out_iff plans.apart mem₂ spec₂, target]
      exact out
    exact waits stop i phase position entry phases entries skipped other waiting position' entry' target' k' m entries'
      operation'

omit plans projects

/-- **Inherited waits hold** in every run in which, while it is not stopped, no first operation of an entry is skipped
before the entry's waits are over and a later one waits for completion only. No phase may follow the one before it by
default where that one's name is empty. -/
theorem waitsKept_of_headsWait {table : LifecycleWorkflow} {sensor : BoundSensor} {deadlines : List DeadlineRule}
    {workflow : ExecutableWorkflow} {e : Execution (Option Operation)} (named : table.Named)
    (compiles : compileLifecycle table sensor deadlines [] = .ok workflow)
    (run : Reaches Execution.step (fun e _ => HeadsWait table workflow.graph e) (Execution.start workflow.graph) e) :
    WaitsKept table workflow.graph e := by
  obtain ⟨bs, joined, cleanup, plans, lowers⟩ := compileLifecycle_eq_ok named compiles
  have projects := (lower_projects lowers).1
  have dispatched := Execution.dispatched_of_grants projects.valid (fun nd mem => (projects.policy mem).1)
    (grants_of_headsWait plans projects) run
  intro i phase position entry phases entries target k n operation mem other waiting position' entry' target' k' m
    entries' operation'
  exact dispatched n mem m ⟨i, phase, position, entry, target, k, phases, entries, operation, other, waiting,
    position', entry', target', k', entries', operation'⟩

end Waits

/-! ## A table whose waits are not inherited -/

/-- A command with its default arguments. -/
def commandSpec (tag : String) (sequence : DependencyKind := .success) : OpSpec :=
  { command := ⟨⟨tag, none⟩, []⟩, sequence }

def domePhase : Phase :=
  { name := "dome", entries := [{ select := .device "dome", ops := [commandSpec "Init"] }] }

/-- The mount is connected after the success of its power, and homed in any case. -/
def homing : Entry where
  select := .device "mount"
  ops := [commandSpec "Connect", commandSpec "Home" .completion]
  require := [{ name := "power" }]

/-- The mount waits for the dome, and for its power. -/
def startup : LifecycleWorkflow where
  name := "startup"
  failFast := false
  phases := [domePhase,
    { name := "power", after := some [], entries := [{ select := .device "power", ops := [commandSpec "Connect"] }] },
    { name := "mount", after := some ["dome", "power"], entries := [homing] }]

/-- The tables' devices, without a structure. -/
def startupSite : List Component :=
  [.device { device := "dome" }, .device { device := "power" }, .device { device := "mount" }]

def startupDetails : Dict String DeviceDetails :=
  .ofList [("dome", { supportedCommands := ["Init"] }), ("power", { supportedCommands := ["Connect"] }),
    ("mount", { supportedCommands := ["Connect", "Home"] })]

/-- The mount is homed when its power has failed, while the dome is being initialized. -/
theorem startup_not_waitsKept : ∃ topology workflow e, Topology.build startupSite = .ok topology ∧
    compileLifecycle startup ⟨topology, startupDetails, none⟩ [] [] = .ok workflow ∧
    exec Execution.step (Execution.start workflow.graph)
      [.dispatch 0, .dispatch 1, .ends 1 (.failed "off"), .wake, .dispatch 3] = some e ∧
    ¬ WaitsKept startup workflow.graph e := by
  have runs : ((Topology.build startupSite).toOption.bind fun topology =>
      (compileLifecycle startup ⟨topology, startupDetails, none⟩ [] []).toOption.bind fun workflow =>
        (exec Execution.step (Execution.start workflow.graph)
          [.dispatch 0, .dispatch 1, .ends 1 (.failed "off"), .wake, .dispatch 3]).map fun e =>
            (decide (3 ∈ e.dispatched), (e.state.results 0).isSome,
              workflow.graph.nodes.map fun node => (node.id, node.payload.map Operation.origin))) =
      some (true, false, [(0, some ⟨"startup", [.name "dome", .number 0, .number 0], ""⟩),
        (1, some ⟨"startup", [.name "power", .number 0, .number 0], ""⟩),
        (2, some ⟨"startup", [.name "mount", .number 0, .number 0], ""⟩),
        (3, some ⟨"startup", [.name "mount", .number 0, .number 1], ""⟩)]) := by
    decide +kernel
  obtain ⟨topology, builds, runs⟩ := Option.bind_eq_some_iff.1 runs
  obtain ⟨workflow, compiles, runs⟩ := Option.bind_eq_some_iff.1 runs
  obtain ⟨e, run, facts⟩ := Option.map_eq_some_iff.1 runs
  obtain ⟨dispatched, open_, nodes⟩ : _ ∧ _ ∧ _ := by simpa only [Prod.mk.injEq] using facts
  refine ⟨topology, workflow, e, toOption_eq_some.1 builds, toOption_eq_some.1 compiles, run, fun kept => ?_⟩
  have node (n : ℕ) (origin : Origin)
      (mem : (n, some origin) ∈ workflow.graph.nodes.map fun node => (node.id, node.payload.map Operation.origin)) :
      ∃ node ∈ workflow.graph.nodes, node.id = n ∧ ∃ op, node.payload = some op ∧ op.origin = origin := by
    obtain ⟨node, mem, eq⟩ := List.mem_map.1 mem
    obtain ⟨id, payload⟩ := Prod.mk.inj eq
    obtain ⟨op, some_, origin⟩ := Option.map_eq_some_iff.1 payload
    exact ⟨node, mem, id, op, some_, origin⟩
  rw [nodes] at node
  obtain ⟨home, home_mem, home_id, op, payload, origin⟩ := node 3
    ⟨"startup", [.name "mount", .number 0, .number 1], ""⟩ (by simp)
  obtain ⟨init, init_mem, init_id, op', payload', origin'⟩ := node 0
    ⟨"startup", [.name "dome", .number 0, .number 0], ""⟩ (by simp)
  have homes : OperationOf startup workflow.graph { name := "mount", after := some ["dome", "power"], entries := [homing] }
      0 homing op.target 1 3 := ⟨home, home_mem, home_id, op, payload, rfl, origin⟩
  have inits : OperationOf startup workflow.graph domePhase 0 { select := .device "dome", ops := [commandSpec "Init"] }
      op'.target 0 0 := ⟨init, init_mem, init_id, op', payload', rfl, origin'⟩
  have waits : WaitsFor startup 2 homing domePhase := by
    have inhabited : domePhase.entries ≠ [] := by simp [domePhase]
    refine ⟨"dome", by simp [startup, LifecycleWorkflow.follows], ?_, .itself (List.mem_cons_self ..) inhabited⟩
    rintro ⟨clause, listed, named⟩
    obtain rfl := List.mem_singleton.1 listed
    simp [startup, domePhase, homing] at named
  have resolved := kept 2 _ 0 homing rfl rfl _ 1 3 homes (of_decide_eq_true dispatched) domePhase waits 0 _ _ 0 0 rfl inits
  obtain ⟨r, result⟩ := resolved
  simp [result] at open_

/-- The mount is connected when the dome has been initialized. -/
def bringUp : LifecycleWorkflow where
  name := "bring-up"
  failFast := false
  phases := [domePhase,
    { name := "mount", entries := [{ select := .device "mount", ops := [commandSpec "Connect"] }] }]

theorem waitsKept_of_headsWait_example : ∃ topology workflow e, Topology.build startupSite = .ok topology ∧
    compileLifecycle bringUp ⟨topology, startupDetails, none⟩ [] [] = .ok workflow ∧
    exec Execution.step (Execution.start workflow.graph) [.dispatch 0, .ends 0 .ok, .wake, .dispatch 1] = some e ∧
    WaitsKept bringUp workflow.graph e := by
  have runs : ((Topology.build startupSite).toOption.bind fun topology =>
      (compileLifecycle bringUp ⟨topology, startupDetails, none⟩ [] []).toOption.bind fun workflow =>
        (exec Execution.step (Execution.start workflow.graph) [.dispatch 0, .ends 0 .ok, .wake, .dispatch 1]).map
          Execution.dispatched) = some [0, 1] := by
    decide +kernel
  obtain ⟨topology, builds, runs⟩ := Option.bind_eq_some_iff.1 runs
  obtain ⟨workflow, compiles, runs⟩ := Option.bind_eq_some_iff.1 runs
  obtain ⟨e, run, -⟩ := Option.map_eq_some_iff.1 runs
  have compiles := toOption_eq_some.1 compiles
  have named : bringUp.Named := by
    rintro (_ | i) previous phase before _ _
    · cases before
      simp [domePhase]
    · rename_i after _
      simp [bringUp] at after
  -- No entry has more than one command.
  have heads (e : Execution (Option Operation)) : HeadsWait bringUp workflow.graph e := by
    rintro - i phase position entry phases entries ⟨target, k, n, -, -, -, -, j, n', -, l, spec, after, -, at_, -⟩
    have single : ∀ phase ∈ bringUp.phases, ∀ entry ∈ phase.entries, entry.ops.length = 1 := by
      simp [bringUp, domePhase]
    have bound := (List.getElem?_eq_some_iff.1 at_).1
    rw [single phase (List.mem_of_getElem? phases) entry (List.mem_of_getElem? entries)] at bound
    omega
  have reaches : Reaches Execution.step (fun e _ => HeadsWait bringUp workflow.graph e) _ e :=
    reaches_of_exec run (okAlong_of_forall fun _ _ e => heads e)
  exact ⟨topology, workflow, e, toOption_eq_some.1 builds, compiles, run,
    waitsKept_of_headsWait named compiles reaches⟩

end SensorKit.Sensor
