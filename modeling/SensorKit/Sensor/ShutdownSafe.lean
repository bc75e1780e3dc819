import SensorKit.Sensor.LifecycleOrder
import SensorKit.Sensor.Policies

/-!
# The shutdown table

Whatever the policies are and whatever equipment a sensor has, the generated shutdown closes the dome after the
mirror covers have been closed, and after the mount, unless the policies let these overlap. Where the dome is
always to be deinitialized, every supported command of it is attempted.
-/

namespace SensorKit.Sensor

open Lib Common

/-- The node runs the command in the phase at the placement. -/
def Runs (graph : Graph (Option Operation)) (n : ℕ) (group tag : String) (target : Placement) : Prop :=
  ∃ node ∈ graph.nodes, node.id = n ∧ node.group = group ∧ ∃ op, node.payload = some op ∧
    op.command.modelTag = tag ∧ op.target = target

/-- A dispatched command that closes or deinitializes the dome found every mirror cover's closing at its end, and
every mount's deinitialization, unless they may overlap. -/
def ShutdownOrdered (policies : SensorPolicies) (graph : Graph (Option Operation))
    (e : Execution (Option Operation)) : Prop :=
  ∀ n ∈ e.dispatched, ∀ group tag target, Runs graph n group tag target →
    tag = "CloseEnclosure" ∨ tag = "Deinit" ∧ group ≠ "mount" →
    (∀ m group' target', Runs graph m group' "CloseMirrorCover" target' → e.state.Resolved m) ∧
    (policies.concurrentDomeAndMountDeinit = false →
      ∀ m target', Runs graph m "mount" "Deinit" target' → e.state.Resolved m)

/-- Every supported command of the shutdown has been dispatched. -/
structure ShutdownAttempted (sensor : BoundSensor) (graph : Graph (Option Operation))
    (e : Execution (Option Operation)) : Prop where
  covers : ∀ p ∈ sensor.topology.placements, "CloseMirrorCover" ∈ sensor.supportedCommands p.device →
    ∃ n ∈ e.dispatched, Runs graph n "optics" "CloseMirrorCover" p
  mounts : ∀ p ∈ sensor.topology.placements, "FollowTarget" ∈ sensor.supportedCommands p.device →
    "Deinit" ∈ sensor.supportedCommands p.device → ∃ n ∈ e.dispatched, Runs graph n "mount" "Deinit" p
  stops : ∀ p ∈ sensor.topology.placements, "CloseEnclosure" ∈ sensor.supportedCommands p.device →
    "Stop" ∈ sensor.supportedCommands p.device → ∃ n ∈ e.dispatched, Runs graph n "halt" "Stop" p
  closes : ∀ p ∈ sensor.topology.placements, "CloseEnclosure" ∈ sensor.supportedCommands p.device →
    ∃ n ∈ e.dispatched, ∃ group, Runs graph n group "CloseEnclosure" p
  deinits : ∀ p ∈ sensor.topology.placements, "CloseEnclosure" ∈ sensor.supportedCommands p.device →
    "Deinit" ∈ sensor.supportedCommands p.device → ∃ n ∈ e.dispatched, ∃ group ≠ "mount", Runs graph n group "Deinit" p

section Shutdown

variable {policies : SensorPolicies} {sensor : BoundSensor} {table generated : LifecycleWorkflow}
  {tables : List LifecycleWorkflow} {i j k n : ℕ} {phase : Phase} {spec : OpSpec}

/-! ## The pruned table -/

/-- A pruned table has the phases of the generated one, with the entries that select something. -/
structure Prunes (sensor : BoundSensor) (generated table : LifecycleWorkflow) : Prop where
  name : table.name = generated.name
  failFast : table.failFast = generated.failFast
  cleanup : generated.cleanup = [] → table.cleanup = []
  phases : List.Forall₂ (fun phase phase' : Phase => phase' = { phase with entries := phase'.entries } ∧
    selecting sensor phase.entries = .ok phase'.entries) generated.phases table.phases

theorem pruned_eq_ok (h : pruned sensor generated = .ok table) : Prunes sensor generated table := by
  unfold pruned at h
  simp only [bind_eq_ok, pure_eq_ok] at h
  obtain ⟨phases, pruned, cleanup, torn, rfl⟩ := h
  refine ⟨rfl, rfl, fun none => ?_, (mapM_eq_ok.1 pruned).imp fun phase phase' turn => ?_⟩
  · rw [none] at torn
    obtain rfl := pure_eq_ok.1 torn
    rfl
  · simp only [bind_eq_ok, pure_eq_ok] at turn
    obtain ⟨entries, selects, rfl⟩ := turn
    exact ⟨rfl, selects⟩

/-- The shutdown table is among the composed ones. -/
theorem prunes_of_compose (composes : composeTables [] policies.tables sensor = .ok tables) (mem : table ∈ tables)
    (name : table.name = "shutdown") : Prunes sensor policies.shutdownTable table := by
  unfold composeTables at composes
  simp only [bind_eq_ok, pure_eq_ok] at composes
  obtain ⟨tables, prunes, rfl⟩ := composes
  obtain ⟨generated, listed, prunes⟩ := exists_of_mem_mapM prunes (by simpa using mem)
  have prunes := pruned_eq_ok prunes
  have same : generated.name = "shutdown" := prunes.name.symm.trans name
  have among := (List.mem_filter.1 listed).1
  simp only [SensorPolicies.tables, List.mem_cons, List.not_mem_nil, or_false] at among
  rcases among with rfl | rfl | rfl | rfl
  · simp [SensorPolicies.initTable] at same
  · simp at same
  · exact prunes
  · simp at same

namespace Prunes

variable (h : Prunes sensor generated table)

include h

/-- The phases differ in their entries only. -/
theorem bare (i : ℕ) : (table.phases[i]?).map (fun phase : Phase => { phase with entries := [] }) =
    (generated.phases[i]?).map (fun phase : Phase => { phase with entries := [] }) := by
  have all {phases phases' : List Phase} (alike : List.Forall₂ (fun phase phase' : Phase =>
      phase' = { phase with entries := phase'.entries } ∧ selecting sensor phase.entries = .ok phase'.entries)
      phases phases') : phases'.map (fun phase : Phase => { phase with entries := [] }) =
        phases.map (fun phase : Phase => { phase with entries := [] }) := by
    induction alike with
    | nil => rfl
    | cons first _ ih =>
      rw [List.map_cons, List.map_cons, ih, first.1]
  rw [← List.getElem?_map, ← List.getElem?_map, all h.phases]

theorem follows : table.follows i = generated.follows i := by
  have after (t : LifecycleWorkflow) (i : ℕ) : (t.phases[i]?).bind Phase.after =
      ((t.phases[i]?).map (fun phase : Phase => { phase with entries := [] })).bind Phase.after := by
    cases t.phases[i]? <;> rfl
  have name (t : LifecycleWorkflow) (i : ℕ) : (t.phases[i]?).map Phase.name =
      ((t.phases[i]?).map (fun phase : Phase => { phase with entries := [] })).map Phase.name := by
    cases t.phases[i]? <;> rfl
  unfold LifecycleWorkflow.follows
  rw [after table, after generated, name table, name generated, h.bare, h.bare]

/-- The phase that is pruned to a phase. -/
theorem phase_of {phase' : Phase} (here : table.phases[i]? = some phase') :
    ∃ phase, generated.phases[i]? = some phase ∧ phase' = { phase with entries := phase'.entries } ∧
      selecting sensor phase.entries = .ok phase'.entries := by
  obtain ⟨length, all⟩ := List.forall₂_iff_get.1 h.phases
  obtain ⟨bound, rfl⟩ := List.getElem?_eq_some_iff.1 here
  have turn := all i (length ▸ bound) bound
  exact ⟨_, List.getElem?_eq_getElem (length ▸ bound), turn⟩

/-- The phase that a phase is pruned to. -/
theorem phase_at (here : generated.phases[i]? = some phase) :
    ∃ phase', table.phases[i]? = some phase' ∧ phase' = { phase with entries := phase'.entries } ∧
      selecting sensor phase.entries = .ok phase'.entries := by
  obtain ⟨length, all⟩ := List.forall₂_iff_get.1 h.phases
  obtain ⟨bound, rfl⟩ := List.getElem?_eq_some_iff.1 here
  have turn := all i bound (length ▸ bound)
  exact ⟨_, List.getElem?_eq_getElem (length ▸ bound), turn⟩

theorem follows_iff : table.Follows i j ↔ generated.Follows i j := by
  unfold LifecycleWorkflow.Follows
  rw [h.follows]
  constructor
  · rintro ⟨phase', here, named⟩
    obtain ⟨phase, there, eq, -⟩ := h.phase_of here
    exact ⟨phase, there, by rw [eq] at named; exact named⟩
  · rintro ⟨phase, here, named⟩
    obtain ⟨phase', there, eq, -⟩ := h.phase_at here
    exact ⟨phase', there, by rw [eq]; exact named⟩

theorem named (names : generated.Named) : table.Named := by
  intro i previous phase here there after
  obtain ⟨previous', here', eq, -⟩ := h.phase_of here
  obtain ⟨phase', there', eq', -⟩ := h.phase_of there
  rw [eq'] at after
  rw [eq]
  exact names i previous' phase' here' there' after

/-- An entry that is kept selects something. -/
theorem entry_of {phase' : Phase} {entry : Entry} (here : table.phases[i]? = some phase') (mem : entry ∈ phase'.entries) :
    ∃ phase, generated.phases[i]? = some phase ∧ phase.name = phase'.name ∧ phase.failFast = phase'.failFast ∧
      entry ∈ phase.entries ∧ ∃ targets, entry.targets sensor = .ok targets ∧ targets ≠ [] := by
  obtain ⟨phase, there, eq, selects⟩ := h.phase_of here
  obtain ⟨listed, selected⟩ := mem_of_keepM selects mem
  simp only [bind_eq_ok, pure_eq_ok] at selected
  obtain ⟨targets, found, some_⟩ := selected
  exact ⟨phase, there, by rw [eq], by rw [eq], listed, targets, found, by simpa using some_⟩

/-- An entry that selects something is kept. -/
theorem keeps_entry {entry : Entry} {targets : List Placement} {p : Placement}
    (here : generated.phases[i]? = some phase) (mem : entry ∈ phase.entries) (found : entry.targets sensor = .ok targets)
    (target : p ∈ targets) : ∃ phase', table.phases[i]? = some phase' ∧ phase'.name = phase.name ∧ entry ∈ phase'.entries := by
  obtain ⟨phase', there, eq, selects⟩ := h.phase_at here
  refine ⟨phase', there, by rw [eq], (mem_keepM selects).1.2 ⟨mem, ?_⟩⟩
  simp only [bind_eq_ok, pure_eq_ok]
  exact ⟨targets, found, by simpa using List.ne_nil_of_mem target⟩

end Prunes

/-! ## The generated table -/

theorem shutdown_named (policies : SensorPolicies) : policies.shutdownTable.Named := by
  intro i previous phase here there after
  rcases i with _ | _ | _ | _ | _ | i
  all_goals
    cases closes : policies.concurrentDomeDeinitClose <;>
      simp [SensorPolicies.shutdownTable, SensorPolicies.closing, closes] at here there <;> simp [← here]

theorem shutdown_unrequired (policies : SensorPolicies) : ∀ phase ∈ policies.shutdownTable.phases, phase.Unrequired := by
  intro phase mem entry listed
  cases closes : policies.concurrentDomeDeinitClose
  all_goals
    simp only [SensorPolicies.shutdownTable, SensorPolicies.closing, closes, if_true, if_false, List.cons_append,
      List.nil_append, List.mem_cons, List.not_mem_nil, or_false, Bool.false_eq_true] at mem
    rcases mem with rfl | rfl | rfl | rfl | rfl
    all_goals
      obtain rfl := List.mem_singleton.1 listed
      rfl

/-- What the commands of the shutdown are, and where they stand. -/
structure ShutdownCommand (policies : SensorPolicies) (i : ℕ) (phase : Phase) (k : ℕ) (spec : OpSpec) : Prop where
  cover : spec.command.modelTag = "CloseMirrorCover" → i = 0
  mount : phase.name = "mount" → i = 1
  dome : spec.command.modelTag = "CloseEnclosure" ∨ spec.command.modelTag = "Deinit" ∧ phase.name ≠ "mount" →
    3 ≤ i ∧ k ≤ 1
  always : policies.alwaysDeinitDome = true → (k ≠ 0 → spec.sequence = .completion) ∧
    spec.effectiveFailFast phase.failFast policies.shutdownTable.failFast = false

theorem shutdownCommand {policies : SensorPolicies} {i k : ℕ} {entry : Entry}
    (here : policies.shutdownTable.phases[i]? = some phase) (mem : entry ∈ phase.entries)
    (at_ : entry.ops[k]? = some spec) : ShutdownCommand policies i phase k spec := by
  rcases i with _ | _ | _ | _ | _ | i
  all_goals
    cases closes : policies.concurrentDomeDeinitClose
    all_goals
      simp only [SensorPolicies.shutdownTable, SensorPolicies.closing, closes, if_true, if_false, List.cons_append,
        List.nil_append, List.getElem?_cons_zero, List.getElem?_cons_succ, List.getElem?_nil, Option.some.injEq,
        Bool.false_eq_true, reduceCtorEq] at here
    all_goals
      subst here
      obtain rfl := List.mem_singleton.1 mem
      rcases k with _ | _ | k
      all_goals
        simp only [supporting, List.getElem?_cons_zero, List.getElem?_cons_succ, List.getElem?_nil, Option.some.injEq,
          reduceCtorEq] at at_
      all_goals
        subst at_
        constructor <;> simp +contextual [op, DeviceCommand.modelTag, OpSpec.effectiveFailFast, SensorPolicies.shutdownTable]

/-- A closing phase comes behind the mirror covers, and behind the mount unless these may overlap. -/
theorem shutdown_follows (policies : SensorPolicies) (bound : i < policies.shutdownTable.phases.length) (dome : 3 ≤ i) :
    Relation.TransGen policies.shutdownTable.Follows i 0 ∧ (policies.concurrentDomeAndMountDeinit = false →
      Relation.TransGen policies.shutdownTable.Follows i 1) := by
  have halt : policies.shutdownTable.Follows i 2 := by
    refine ⟨_, rfl, ?_⟩
    cases closes : policies.concurrentDomeDeinitClose
    all_goals
      simp only [SensorPolicies.shutdownTable, SensorPolicies.closing, closes, if_true, if_false, List.length_append,
        List.length_cons, List.length_nil, Bool.false_eq_true] at bound
      obtain rfl | rfl : i = 3 ∨ i = 4 := by omega
      all_goals
        simp [SensorPolicies.shutdownTable, SensorPolicies.closing, LifecycleWorkflow.follows, closes] at bound ⊢
  have mount : policies.shutdownTable.Follows 1 0 :=
    ⟨_, rfl, by simp [SensorPolicies.shutdownTable, LifecycleWorkflow.follows]⟩
  cases overlaps : policies.concurrentDomeAndMountDeinit with
  | false =>
    have before : policies.shutdownTable.Follows 2 1 :=
      ⟨_, rfl, by simp [SensorPolicies.shutdownTable, LifecycleWorkflow.follows, overlaps]⟩
    have path := (Relation.TransGen.single halt).tail before
    exact ⟨path.tail mount, fun _ => path⟩
  | true =>
    have before : policies.shutdownTable.Follows 2 0 :=
      ⟨_, rfl, by simp [SensorPolicies.shutdownTable, LifecycleWorkflow.follows, overlaps]⟩
    exact ⟨(Relation.TransGen.single halt).tail before, by simp⟩

/-! ## Nodes -/

variable {deadlines : List DeadlineRule} {rules : List OperatorRule} {graph : Graph (Option Operation)} {bs : List Block}
  {joined : String → List Dependency} {group tag : String} {target : Placement}

/-- The node of a command is that of a block's step. -/
theorem block_of_runs (projects : Projects sensor deadlines rules (blockSteps table joined bs) graph)
    (runs : Runs graph n group tag target) : ∃ b ∈ bs, ∃ k spec, b.entry.ops[k]? = some spec ∧
      NodeNamed sensor (blockSteps table joined bs) (b.name k) n ∧ b.group = group ∧ spec.command.modelTag = tag := by
  obtain ⟨node, mem, rfl, in_group, op, payload, is_tag, -⟩ := runs
  obtain ⟨step, found, of⟩ := projects.kept_of mem
  obtain ⟨b, mem', k, spec, at_, rfl⟩ := mem_blockSteps.1 (mem_kept.1 (List.mem_of_getElem? found)).1
  have planned := of.payload
  unfold Sensor.planned at planned
  simp only [Block.step, Block.plain, bind_eq_ok, pure_eq_ok] at planned
  obtain ⟨timeoutS, -, planned⟩ := planned
  cases planned.trans payload
  refine ⟨b, mem', k, spec, at_, ?_, of.group.symm.trans in_group, is_tag⟩
  unfold NodeNamed
  rw [List.getElem?_map, found]
  rfl

/-- A step of a block that is not left out runs its command. -/
theorem runs_of_supported (plans : Plans table sensor bs joined)
    (projects : Projects sensor deadlines rules (blockSteps table joined bs) graph) {b : Block} (mem : b ∈ bs)
    (at_ : b.entry.ops[k]? = some spec)
    (supported : spec.command.modelTag ∈ sensor.supportedCommands b.target.device) :
    ∃ n ∈ graph.nodes.map Node.id, Runs graph n b.group spec.command.modelTag b.target := by
  have stays : ¬ Out sensor table joined bs (b.name k) := by
    rw [out_iff plans.apart mem at_]
    exact not_not_intro supported
  obtain ⟨n, named⟩ := exists_node mem (List.getElem?_eq_some_iff.1 at_).1 stays
  unfold NodeNamed at named
  rw [List.getElem?_map, Option.map_eq_some_iff] at named
  obtain ⟨step, found, same⟩ := named
  obtain rfl := eq_of_name plans.apart mem at_ (mem_kept.1 (List.mem_of_getElem? found)).1 same
  obtain ⟨node, mem', rfl, of⟩ := projects.kept_at found
  have payload := of.payload
  unfold planned at payload
  simp only [Block.step, Block.plain, bind_eq_ok, pure_eq_ok] at payload
  obtain ⟨timeoutS, -, payload⟩ := payload
  exact ⟨node.id, List.mem_map_of_mem mem', node, mem', rfl, of.group, _, payload.symm, rfl, rfl⟩

section Compiled

variable (prunes : Prunes sensor policies.shutdownTable table)

include prunes

theorem unrequired_of_prunes : ∀ phase ∈ table.phases, phase.Unrequired := by
  intro phase mem entry listed
  obtain ⟨i, bound, rfl⟩ := List.getElem_of_mem mem
  obtain ⟨phase, there, -, -, mem', -⟩ := prunes.entry_of (List.getElem?_eq_getElem bound) listed
  exact shutdown_unrequired policies phase (List.mem_of_getElem? there) entry mem'

variable (plans : Plans table sensor bs joined)

include plans

/-- A phase that has entries left has blocks. -/
theorem inhabited_of_prunes : ∀ phase ∈ table.phases, phase.entries ≠ [] → ∃ b ∈ bs, b.group = phase.name := by
  intro phase mem some_
  obtain ⟨i, bound, rfl⟩ := List.getElem_of_mem mem
  obtain ⟨entry, rest, entries⟩ := List.exists_cons_of_ne_nil some_
  have listed : entry ∈ table.phases[i].entries := by simp [entries]
  obtain ⟨-, -, -, -, -, targets, selects, nonempty⟩ := prunes.entry_of (List.getElem?_eq_getElem bound) listed
  obtain ⟨t, target⟩ := List.exists_mem_of_ne_nil _ nonempty
  obtain ⟨b, mem', -, group, -⟩ := plans.exists_block mem listed selects target
  exact ⟨b, mem', group⟩

/-- Where a command of a block stands. -/
theorem command_of_block {b : Block} (mem : b ∈ bs) (at_ : b.entry.ops[k]? = some spec) :
    ∃ i phase, table.phases[i]? = some phase ∧ b.group = phase.name ∧ b.stated = phase.failFast ∧
      ShutdownCommand policies i phase k spec := by
  obtain ⟨i, phase, position, entry, here, block, -⟩ := plans.blocks b mem
  obtain ⟨phase', there, name, failFast, listed, -⟩ := prunes.entry_of here (List.mem_of_getElem? block.here)
  rw [block.runs] at at_
  have command := shutdownCommand there listed at_
  refine ⟨i, phase, here, block.group, block.stated, ?_⟩
  exact ⟨command.cover, fun mount => command.mount (name.trans mount), fun dome => command.dome (by rwa [name]),
    fun always => by rw [← failFast]; exact command.always always⟩

variable (projects : Projects sensor deadlines [] (blockSteps table joined bs) graph)

include projects

/-- **A closing command finds what is behind it at its end.** -/
theorem resolved_behind {e : Execution (Option Operation)} (live : Execution.Live graph e) {b b' : Block} {m l : ℕ}
    {other : Phase} (going : e.state.Running n) (here : table.phases[i]? = some phase) (mem : b ∈ bs)
    (group : b.group = phase.name) (le : k ≤ 1) (lt : k < b.entry.ops.length)
    (named : NodeNamed sensor (blockSteps table joined bs) (b.name k) n)
    (path : Relation.TransGen policies.shutdownTable.Follows i j) (last : table.phases[j]? = some other) (mem' : b' ∈ bs)
    (group' : b'.group = other.name) (lt' : l < b'.entry.ops.length)
    (named' : NodeNamed sensor (blockSteps table joined bs) (b'.name l) m) : e.state.Resolved m := by
  have unrequired := unrequired_of_prunes prunes
  have passed := passed_of_going projects live named (.inr going)
  have first : Passed sensor table joined bs e.state (b.name 0) := by
    obtain rfl | rfl : k = 0 ∨ k = 1 := by omega
    · exact passed
    · exact passed.next projects live
        ⟨(declares_next plans.apart mem lt).2 rfl, free_first plans.apart mem (plans.alone unrequired mem)⟩
  have path : Relation.TransGen table.Follows i j := Relation.TransGen.mono (fun _ _ => prunes.follows_iff.2) i j path
  obtain ⟨z, chain, declares⟩ := passes_back plans unrequired (inhabited_of_prunes prunes plans) last
    mem' group' (Block.mem_names.2 ⟨l, lt', rfl⟩) i phase b here mem group path
  exact first.chain projects live chain _ m named' (.direct declares)

/-- What a closing command waits for. -/
theorem grants_of_prunes : Execution.Grants graph (fun _ => True) fun n m => ∃ group tag target group' tag' target',
    Runs graph n group tag target ∧ (tag = "CloseEnclosure" ∨ tag = "Deinit" ∧ group ≠ "mount") ∧
    Runs graph m group' tag' target' ∧
    (tag' = "CloseMirrorCover" ∨ policies.concurrentDomeAndMountDeinit = false ∧ group' = "mount") := by
  rintro e live - - - n created m ⟨group, tag, target, group', tag', target', runs, dome, runs', behind⟩
  obtain ⟨b, mem, k, spec, at_, named, rfl, rfl⟩ := block_of_runs projects runs
  obtain ⟨b', mem', l, spec', at', named', rfl, rfl⟩ := block_of_runs projects runs'
  obtain ⟨i, phase, here, group, -, command⟩ := command_of_block prunes plans mem at_
  obtain ⟨j, other, there, group', -, command'⟩ := command_of_block prunes plans mem' at'
  obtain ⟨closing, le⟩ := command.dome (by rwa [← group])
  obtain ⟨phase', here', -⟩ := prunes.phase_of here
  have bound := (List.getElem?_eq_some_iff.1 here').1
  obtain ⟨covers, mounts⟩ := shutdown_follows policies bound closing
  have path : Relation.TransGen policies.shutdownTable.Follows i j := by
    rcases behind with cover | ⟨apart, mount⟩
    · rw [command'.cover cover]
      exact covers
    · rw [command'.mount (group'.symm.trans mount)]
      exact mounts apart
  exact resolved_behind prunes plans projects live ⟨_, created⟩ here mem group le (List.getElem?_eq_some_iff.1 at_).1
    named path there mem' group' (List.getElem?_eq_some_iff.1 at').1 named'

/-- If the dome is always to be deinitialized, nothing keeps a command from running, and no failure stops the run. -/
theorem steady_of_always (always : policies.alwaysDeinitDome = true) :
    (∀ n, graph.hard n = []) ∧ ∀ node ∈ graph.nodes, node.onFailure ≠ .stop := by
  have free (name other : String) : ¬ Requires (blockSteps table joined bs) name other := by
    rintro ⟨step, listed, rfl, dep, depends, -, success⟩
    obtain ⟨b, mem, k, spec, at_, rfl⟩ := mem_blockSteps.1 listed
    cases k with
    | zero =>
      have alone := plans.alone (unrequired_of_prunes prunes) mem
      exact free_first plans.apart mem alone _ ⟨_, listed, rfl, dep, depends, rfl, success⟩
    | succ k =>
      obtain ⟨i, phase, -, -, -, command⟩ := command_of_block prunes plans mem at_
      obtain rfl := List.mem_singleton.1 depends
      have completion := (command.always always).1 (by omega)
      rw [completion] at success
      simp at success
  constructor
  · intro n
    apply List.eq_nil_iff_forall_not_mem.2
    intro d hard
    obtain ⟨_, _, -, -, chain⟩ := (projects.hard n d).1 hard
    rcases through_iff.1 chain with first | ⟨_, first, -⟩
    · exact free _ _ first
    · exact free _ _ first
  · intro node mem
    obtain ⟨step, found, of⟩ := projects.kept_of mem
    obtain ⟨b, mem', k, spec, at_, rfl⟩ := mem_blockSteps.1 (mem_kept.1 (List.mem_of_getElem? found)).1
    obtain ⟨i, phase, -, -, stated, command⟩ := command_of_block prunes plans mem' at_
    have failFast := (command.always always).2
    rw [← stated, ← prunes.failFast] at failFast
    rw [of.policy.1]
    simp [Block.step, Block.plain, failFast]

omit prunes plans projects in
/-- An entry for a command selects the placements whose device supports it. -/
theorem targets_supporting {tag : String} (ops : List OpSpec) (declares : ops ≠ []) {p : Placement}
    (placed : p ∈ sensor.topology.placements) (selected : tag ∈ sensor.supportedCommands p.device) :
    ∃ targets, (supporting tag ops none declares).targets sensor = .ok targets ∧ p ∈ targets := by
  have answers (q : Placement) : (Selection.supports tag).matches q (some sensor) =
      .ok (decide (tag ∈ sensor.supportedCommands q.device)) := rfl
  refine ⟨sensor.topology.placements.filter fun q => decide (tag ∈ sensor.supportedCommands q.device), ?_,
    List.mem_filter.2 ⟨placed, decide_eq_true selected⟩⟩
  unfold Entry.targets
  simp only [supporting, bind_eq_ok, pure_eq_ok]
  exact ⟨_, keepM_eq_filter fun q _ => answers q, rfl⟩

/-- A supported command of the shutdown has a node. -/
theorem runs_of_command {tag : String} {ops : List OpSpec} {declares : ops ≠ []}
    {p : Placement} (here : policies.shutdownTable.phases[i]? = some phase)
    (mem : supporting tag ops none declares ∈ phase.entries) (at_ : ops[k]? = some spec)
    (placed : p ∈ sensor.topology.placements) (selected : tag ∈ sensor.supportedCommands p.device)
    (supported : spec.command.modelTag ∈ sensor.supportedCommands p.device) :
    ∃ n ∈ graph.nodes.map Node.id, Runs graph n phase.name spec.command.modelTag p := by
  obtain ⟨targets, found, target⟩ := targets_supporting ops declares placed selected
  obtain ⟨phase', there, name, kept⟩ := prunes.keeps_entry here mem found target
  obtain ⟨b, mem', own, group, rfl⟩ := plans.exists_block (List.mem_of_getElem? there) kept found target
  have command : b.entry.ops[k]? = some spec := by
    rw [own]
    exact at_
  obtain ⟨n, node, runs⟩ := runs_of_supported plans projects mem' command supported
  rw [group, name] at runs
  exact ⟨n, node, runs⟩

end Compiled

/-- **Shutdown safety.** In every run of a composed shutdown table the dome is closed after the mirror covers, and after
the mount unless these may overlap; and if the dome is always to be deinitialized, every supported command has been
dispatched where a run that was not cancelled has ended. -/
theorem shutdownSafe {workflow : ExecutableWorkflow} (composes : composeTables [] policies.tables sensor = .ok tables)
    (mem : table ∈ tables) (name : table.name = "shutdown")
    (compiles : compileLifecycle table sensor deadlines [] = .ok workflow) :
    (∀ e, Reaches Execution.step always (Execution.start workflow.graph) e → ShutdownOrdered policies workflow.graph e) ∧
    (policies.alwaysDeinitDome = true → ∀ e ending,
      Reaches Execution.step Execution.Uncancelled (Execution.start workflow.graph) e → e.phase = .finished ending →
      ShutdownAttempted sensor workflow.graph e) := by
  have prunes := prunes_of_compose composes mem name
  obtain ⟨bs, joined, cleanup, plans, lowers⟩ := compileLifecycle_eq_ok (prunes.named (shutdown_named policies)) compiles
  have projects : Projects sensor deadlines [] (blockSteps table joined bs) workflow.graph := (lower_projects lowers).1
  have plain : ∀ nd ∈ workflow.graph.nodes, nd.override = none := fun nd mem => (projects.policy mem).1
  constructor
  · intro e run n dispatched group tag target runs dome
    have waited := Execution.dispatched_of_grants projects.valid plain (grants_of_prunes prunes plans projects)
      (run.mono fun _ _ _ => trivial) n dispatched
    refine ⟨fun m group' target' runs' => ?_, fun apart m target' runs' => ?_⟩
    · exact waited m ⟨group, tag, target, group', _, target', runs, dome, runs', .inl rfl⟩
    · exact waited m ⟨group, tag, target, _, _, target', runs, dome, runs', .inr ⟨apart, rfl⟩⟩
  · intro always e ending run finished
    obtain ⟨soft, steady⟩ := steady_of_always prunes plans projects always
    have all := Execution.dispatched_of_complete projects.valid plain soft steady run finished
    have attempted (i k : ℕ) (spec : OpSpec) {phase : Phase} {tag : String} {ops : List OpSpec} {declares : ops ≠ []}
        {p : Placement} (here : policies.shutdownTable.phases[i]? = some phase)
        (mem : supporting tag ops none declares ∈ phase.entries) (at_ : ops[k]? = some spec)
        (placed : p ∈ sensor.topology.placements) (selected : tag ∈ sensor.supportedCommands p.device)
        (supported : spec.command.modelTag ∈ sensor.supportedCommands p.device) :
        ∃ n ∈ e.dispatched, Runs workflow.graph n phase.name spec.command.modelTag p := by
      obtain ⟨n, node, runs⟩ := runs_of_command prunes plans projects here mem at_ placed selected supported
      exact ⟨n, all n node, runs⟩
    refine ⟨fun p placed selected => ?_, fun p placed selected supported => ?_, fun p placed selected supported => ?_,
      fun p placed selected => ?_, fun p placed selected supported => ?_⟩
    · exact attempted 0 0 (op "CloseMirrorCover") rfl (List.mem_singleton.2 rfl) rfl placed selected selected
    · exact attempted 1 0 (op "Deinit") rfl (List.mem_singleton.2 rfl) rfl placed selected supported
    · exact attempted 2 0 (op "Stop" .success true (some false)) rfl (List.mem_singleton.2 rfl) rfl placed selected supported
    · cases closes : policies.concurrentDomeDeinitClose
      · obtain ⟨n, dispatched, runs⟩ := attempted 3 0 (op "CloseEnclosure")
          (by simp [SensorPolicies.shutdownTable, SensorPolicies.closing, closes]; rfl) (List.mem_singleton.2 rfl) rfl
          placed selected selected
        exact ⟨n, dispatched, _, runs⟩
      · obtain ⟨n, dispatched, runs⟩ := attempted 3 0 (op "CloseEnclosure")
          (by simp [SensorPolicies.shutdownTable, SensorPolicies.closing, closes]; rfl) (List.mem_singleton.2 rfl) rfl
          placed selected selected
        exact ⟨n, dispatched, _, runs⟩
    · cases closes : policies.concurrentDomeDeinitClose
      · obtain ⟨n, dispatched, runs⟩ := attempted 3 1 (op "Deinit" (if policies.alwaysDeinitDome then .completion else .success))
          (by simp [SensorPolicies.shutdownTable, SensorPolicies.closing, closes]; rfl) (List.mem_singleton.2 rfl) rfl
          placed selected supported
        exact ⟨n, dispatched, _, by simp, runs⟩
      · obtain ⟨n, dispatched, runs⟩ := attempted 4 0 (op "Deinit")
          (by simp [SensorPolicies.shutdownTable, SensorPolicies.closing, closes]; rfl) (List.mem_singleton.2 rfl) rfl
          placed selected supported
        exact ⟨n, dispatched, _, by simp, runs⟩

end Shutdown

/-- A telescope with a cover in a dome, without a structure. -/
def telescopeSite : List Component :=
  [.device { device := "dome" }, .device { device := "mount" }, .device { device := "cover" }]

def telescopeDetails : Dict String DeviceDetails :=
  .ofList [("dome", { supportedCommands := ["OpenEnclosure", "CloseEnclosure", "Deinit"] }),
    ("mount", { supportedCommands := ["FollowTarget", "Deinit"] }),
    ("cover", { supportedCommands := ["CloseMirrorCover"] })]

/-- The dome is always to be deinitialized. -/
def alwaysPolicies : SensorPolicies := { alwaysDeinitDome := true }

theorem shutdownSafe_example : ∃ topology tables table workflow, Topology.build telescopeSite = .ok topology ∧
    composeTables [] alwaysPolicies.tables ⟨topology, telescopeDetails, none⟩ = .ok tables ∧ table ∈ tables ∧
    compileLifecycle table ⟨topology, telescopeDetails, none⟩ [] [] = .ok workflow ∧
    workflow.graph.nodes.map Node.group = ["optics", "mount", "enclosure", "enclosure"] ∧
    ∀ e ending, Reaches Execution.step Execution.Uncancelled (Execution.start workflow.graph) e →
      e.phase = .finished ending → ShutdownAttempted ⟨topology, telescopeDetails, none⟩ workflow.graph e := by
  have runs : ((Topology.build telescopeSite).toOption.bind fun topology =>
      (composeTables [] alwaysPolicies.tables ⟨topology, telescopeDetails, none⟩).toOption.bind fun tables =>
        (tables.find? (·.name = "shutdown")).bind fun table =>
          (compileLifecycle table ⟨topology, telescopeDetails, none⟩ [] []).toOption.map fun workflow =>
            workflow.graph.nodes.map Node.group) = some ["optics", "mount", "enclosure", "enclosure"] := by
    decide +kernel
  obtain ⟨topology, builds, runs⟩ := Option.bind_eq_some_iff.1 runs
  obtain ⟨tables, composes, runs⟩ := Option.bind_eq_some_iff.1 runs
  obtain ⟨table, found, runs⟩ := Option.bind_eq_some_iff.1 runs
  obtain ⟨workflow, compiles, groups⟩ := Option.map_eq_some_iff.1 runs
  have composes := toOption_eq_some.1 composes
  have compiles := toOption_eq_some.1 compiles
  have mem := List.mem_of_find?_eq_some found
  have name : table.name = "shutdown" := by simpa using List.find?_some found
  refine ⟨topology, tables, table, workflow, toOption_eq_some.1 builds, composes, mem, compiles, groups, ?_⟩
  have safe := shutdownSafe composes mem name compiles
  exact safe.2 rfl

end SensorKit.Sensor
