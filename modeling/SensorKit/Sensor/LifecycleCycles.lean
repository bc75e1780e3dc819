import SensorKit.Sensor.LifecycleWaits
import SensorKit.Sensor.LoweringCycles

/-!
# The check and the compiler

The compiler finds a cycle just where entries at placements need themselves in a circle, in a phase or in a cleanup.
The symbolic check sees each such circle, unless it goes through an entry whose row another one has taken.
-/

namespace SensorKit.Sensor

open Lib Common

variable {table : LifecycleWorkflow} {sensor : BoundSensor} {sites : List Site} {bs more : List Block}
  {joined joined' : String → List Dependency} {spec : CleanupSpec} {plan : CleanupPlan} {c c' : TableCompiler}
  {b b' : Block}

/-! ## Circles of entries -/

/-- **Circles of blocks are circles of their entries** at placements. -/
theorem Housed.cyclic_iff {A : Block → Block → Prop} {called : Site → String → Prop} (housed : Housed sensor sites bs)
    (asks : ∀ s s' b b', b.Of sensor s → b'.Of sensor s' →
      (A b b' ↔ ∃ clause ∈ s.entry.require, called s' clause.name ∧ clause.Relates b.target b'.target)) :
    Cyclic (fun b b' => b ∈ bs ∧ b' ∈ bs ∧ A b b') ↔ Cyclic (Needs sensor sites called) := by
  constructor
  · intro cyclic
    have inhabited : Nonempty Site := by
      obtain ⟨b, cycle⟩ := cyclic
      obtain ⟨_, mem, -⟩ := Relation.TransGen.head'_iff.1 cycle
      obtain ⟨s, -⟩ := housed.blocks b mem.1
      exact ⟨s⟩
    choose! site mem of using housed.blocks
    refine cyclic.map (fun b => (site b, b.target)) fun b b' ⟨here, here', edge⟩ => .single ?_
    exact ⟨mem b here, mem b' here', (of b here).selects, (of b' here').selects,
      (asks _ _ b b' (of b here) (of b' here')).1 edge⟩
  · intro cyclic
    have inhabited : Nonempty Block := by
      obtain ⟨x, cycle⟩ := cyclic
      obtain ⟨_, needs, -⟩ := Relation.TransGen.head'_iff.1 cycle
      obtain ⟨b, -⟩ := housed.covers x.1 needs.left x.2 needs.selects
      exact ⟨b⟩
    choose! block mem of target using housed.covers
    refine cyclic.map (fun x => block x.1 x.2) fun x y needs => .single ?_
    obtain ⟨left, right, selects, selects', clause, asked, calls, related⟩ := needs
    refine ⟨mem _ left _ selects, mem _ right _ selects', ?_⟩
    refine (asks x.1 y.1 _ _ (of _ left _ selects) (of _ right _ selects')).2 ⟨clause, asked, calls, ?_⟩
    rw [target _ left _ selects, target _ right _ selects']
    exact related

/-- A step is of one block. -/
theorem Apart.eq_of_mem_names (apart : Apart bs) (mem : b ∈ bs) (mem' : b' ∈ bs) {n : String} (named : n ∈ b.names)
    (named' : n ∈ b'.names) : b = b' := by
  obtain ⟨k, lt, rfl⟩ := Block.mem_names.1 named
  obtain ⟨k', lt', same⟩ := Block.mem_names.1 named'
  exact (apart.name_inj mem mem' lt lt' same).1

section

variable (laid : Laid table sensor table.phases table.sites c bs joined) (founded : Founded table bs joined')
include laid founded

theorem Laid.closed : Closed bs joined' := by
  intro b mem n depends
  rcases depends with soft | ⟨dep, listed, rfl⟩
  · obtain ⟨b', here, named, -⟩ := laid.soft b mem n soft
    exact ⟨b', here, named⟩
  · obtain ⟨b', here, named, -⟩ := founded b mem dep listed
    exact ⟨b', here, named⟩

/-- **A circle of blocks stays in a phase**, where clauses lead around it. -/
theorem Laid.cyclic_asks (cyclic : Cyclic (Awaits bs joined')) : Cyclic fun b b' => b ∈ bs ∧ b' ∈ bs ∧ b.Asks b' := by
  refine cyclic.of_rank (fun b => table.rank b.group) fun b b' ⟨here, here', n, named, depends⟩ => ?_
  rcases depends with soft | ⟨dep, listed, rfl⟩
  · obtain ⟨b₁, there, named', less⟩ := laid.soft b here n soft
    obtain rfl := laid.emits.apart.eq_of_mem_names there here' named' named
    exact .inl less
  · obtain ⟨b₁, there, named', way⟩ := founded b here dep listed
    obtain rfl := laid.emits.apart.eq_of_mem_names there here' named' named
    exact way.imp_right fun ⟨le, asks⟩ => ⟨le, here, there, asks⟩

theorem Laid.cyclic_iff (answered : Answered bs joined') :
    Cyclic (Declares (blockSteps table joined' bs)) ↔ Cyclic (Needs sensor table.sites Site.Called) := by
  have circle : Cyclic (fun b b' => b ∈ bs ∧ b' ∈ bs ∧ b.Asks b') ↔ Cyclic (Needs sensor table.sites Site.Called) := by
    refine laid.housed.cyclic_iff fun s s' b b' of of' => ?_
    unfold Block.Asks Site.Called Site.Identified
    rw [of.runs, of'.runs, of'.group]
  rw [cyclic_declares_iff laid.emits.apart (laid.closed founded), ← circle]
  refine ⟨laid.cyclic_asks founded, fun cyclic => cyclic.map id fun b b' ⟨here, here', asks⟩ => .single ?_⟩
  obtain ⟨dep, listed, named⟩ := answered b here b' here' asks
  exact ⟨here, here', dep.on, named, .inr ⟨dep, listed, rfl⟩⟩

end

theorem TearsDown.closed (torn : TearsDown table sensor bs spec plan more joined) : Closed more joined := by
  intro b mem n depends
  rcases depends with soft | asked
  · rw [torn.soft b mem] at soft
    exact absurd soft List.not_mem_nil
  · obtain ⟨_, -, b', here, -, -, named⟩ := (torn.joins b mem n).1 asked
    exact ⟨b', here, named⟩

theorem TearsDown.cyclic_iff (torn : TearsDown table sensor bs spec plan more joined) :
    Cyclic (Declares plan.steps) ↔ Cyclic (Needs sensor spec.sites Site.Identified) := by
  have circle : Cyclic (fun b b' => b ∈ more ∧ b' ∈ more ∧ ∃ clause ∈ b.entry.require,
      b'.entry.id = some clause.name ∧ clause.Relates b.target b'.target) ↔
      Cyclic (Needs sensor spec.sites Site.Identified) := by
    refine torn.housed.cyclic_iff fun s s' b b' of of' => ?_
    unfold Site.Identified
    rw [of.runs, of'.runs]
  rw [torn.steps, cyclic_declares_iff torn.apart torn.closed, ← circle]
  constructor
  · refine fun cyclic => cyclic.map id fun b b' ⟨here, here', n, named, depends⟩ => .single ⟨here, here', ?_⟩
    rcases depends with soft | asked
    · rw [torn.soft b here] at soft
      exact absurd soft List.not_mem_nil
    · obtain ⟨clause, asks, b₁, there, id, related, named'⟩ := (torn.joins b here n).1 asked
      obtain rfl := torn.apart.eq_of_mem_names there here' named' named
      exact ⟨clause, asks, id, related⟩
  · refine fun cyclic => cyclic.map id fun b b' ⟨here, here', clause, asks, id, related⟩ => .single ?_
    refine ⟨here, here', b'.name 0, Block.first_mem_names, .inr ?_⟩
    exact (torn.joins b here _).2 ⟨clause, asks, b', here', id, related, Block.first_mem_names⟩

/-! ## Lowered blocks -/

/-- Every command of a table may be left out where it is not supported. -/
def LifecycleWorkflow.Omits (table : LifecycleWorkflow) : Prop :=
  (∀ s ∈ table.sites, ∀ op ∈ s.entry.ops, op.unsupported = .omit) ∧
    ∀ spec ∈ table.cleanup, ∀ s ∈ spec.sites, ∀ op ∈ s.entry.ops, op.unsupported = .omit

/-- Places are told apart. -/
theorem nodup_zipIdx_map {α : Type} {l : List α} {f : ℕ → String}
    (inj : ∀ k < l.length, ∀ k' < l.length, f k = f k' → k = k') : (l.zipIdx.map fun x => f x.2).Nodup := by
  have places : (l.zipIdx.map fun x => f x.2) = (List.range' 0 l.length).map f := by
    rw [← List.zipIdx_map_snd, List.map_map]
    rfl
  rw [places]
  refine List.Nodup.map_on (fun k mem k' mem' same => ?_) List.nodup_range'
  simp only [List.mem_range'_1] at mem mem'
  exact inj k (by omega) k' (by omega) same

theorem Apart.names_nodup (apart : Apart bs) : ((blockSteps table joined bs).map PlannedStep.name).Nodup := by
  have names : (blockSteps table joined bs).map PlannedStep.name = bs.flatMap Block.names := by
    unfold blockSteps
    rw [List.map_flatMap]
    refine List.flatMap_congr fun b _ => ?_
    unfold Block.steps Block.names
    rw [List.map_map]
    rfl
  rw [names, List.nodup_flatMap]
  refine ⟨fun b _ => ?_, apart.imp fun before n named named' => ?_⟩
  · refine nodup_zipIdx_map fun k _ k' _ same => ?_
    have numbers := numbered_inj same
    omega
  · obtain ⟨k, lt, rfl⟩ := Block.mem_names.1 named
    obtain ⟨k', lt', same⟩ := Block.mem_names.1 named'
    have numbers := numbered_inj same
    unfold Block.last at before
    omega

/-- Blocks whose commands may be left out are refused for cycles only, where there are no deadlines and no rules. -/
theorem lowerable_of_blocks (apart : Apart bs) (closed : Closed bs joined)
    (omits : ∀ b ∈ bs, ∀ op ∈ b.entry.ops, op.unsupported = .omit) :
    Lowerable sensor [] [] (blockSteps table joined bs) where
  names := apart.names_nodup
  paired := by
    intro step mem
    obtain ⟨b, here, k, op, at_, rfl⟩ := mem_blockSteps.1 mem
    rfl
  closed := by
    intro n m declares
    obtain ⟨b, here, named⟩ := mem_names_of_declares closed declares
    obtain ⟨k, lt, rfl⟩ := Block.mem_names.1 named
    refine List.mem_map.2 ⟨b.step table joined (b.entry.ops[k], k), ?_, rfl⟩
    exact mem_blockSteps.2 ⟨b, here, k, _, List.getElem?_eq_getElem lt, rfl⟩
  omits := by
    intro step mem _
    obtain ⟨b, here, k, op, at_, rfl⟩ := mem_blockSteps.1 mem
    exact omits b here op (List.mem_of_getElem? at_)
  resolves := by
    intro step mem
    obtain ⟨b, here, k, op, at_, rfl⟩ := mem_blockSteps.1 (mem_kept.1 mem).1
    cases timeout : op.timeoutS with
    | none => exact ⟨_, by simp [planned, Block.step, Block.plain, resolveDeadline, firstAddressing, addressing, timeout]; rfl⟩
    | some seconds => exact ⟨_, by simp [planned, Block.step, Block.plain, resolveDeadline, timeout]; rfl⟩
  ruled := by
    intro step _
    exact ⟨_, rfl⟩

/-! ## The check against the compiler -/

/-- No entry whose row in the check is overwritten needs itself in a circle, in its phase or cleanup. -/
def LifecycleWorkflow.Unhidden (table : LifecycleWorkflow) (sensor : BoundSensor) : Prop :=
  Sensor.Unhidden sensor table.sites Site.Called ∧
    ∀ spec ∈ table.cleanup, Sensor.Unhidden sensor spec.sites Site.Identified

/-- The steps of the main graph, and of each cleanup graph, depend on each other without a cycle. -/
def Uncircled (c : TableCompiler) (plans : List CleanupPlan) : Prop :=
  ¬ Cyclic (Declares (c.settled c.steps)) ∧ ∀ plan ∈ plans, ¬ Cyclic (Declares plan.steps)

section Compiler

variable {plans : List CleanupPlan}

/-- Where an entry needs itself in no circle, no hidden one does. -/
theorem unhidden_of_not_cyclic {called : Site → String → Prop} (acyclic : ¬ Cyclic (Needs sensor sites called)) :
    Unhidden sensor sites called :=
  fun x _ cycle => acyclic ⟨x, cycle⟩

/-- **The check finds each circle that it can see**: the steps have no cycle just if no entry needs itself in a circle
through one whose row is overwritten. -/
theorem uncircled_iff (checked : Checked table) (phases : TableCompiler.compilePhases { table, sensor } = .ok c)
    (cleanups : c.compileCleanups = .ok (c', plans)) : Uncircled c' plans ↔ table.Unhidden sensor := by
  obtain ⟨bs, joined, joined', laid, founded, answered, -, -, -, settled, torn⟩ := compiled_spec phases cleanups
  have main := laid.cyclic_iff founded (answered checked)
  rw [← settled] at main
  constructor
  · rintro ⟨acyclic, cleanup⟩
    refine ⟨unhidden_of_not_cyclic fun cyclic => acyclic (main.2 cyclic), fun spec mem => ?_⟩
    obtain ⟨plan, mem', more, joined, tears⟩ := exists_right_of_forall₂ torn mem
    exact unhidden_of_not_cyclic fun cyclic => cleanup plan mem' (tears.cyclic_iff.2 cyclic)
  · rintro ⟨unhidden, cleanup⟩
    refine ⟨fun cyclic => checked.rows sensor unhidden (main.1 cyclic), fun plan mem cyclic => ?_⟩
    obtain ⟨spec, mem', more, joined, tears⟩ := exists_left_of_forall₂ torn mem
    exact checked.cleanup spec mem' sensor (cleanup spec mem') (tears.cyclic_iff.1 cyclic)

/-- Past the expansion, `compile_lifecycle` lowers the steps. -/
theorem compileLifecycle_eq_lower (phases : TableCompiler.compilePhases { table, sensor } = .ok c)
    (cleanups : c.compileCleanups = .ok (c', plans)) (deadlines : List DeadlineRule) (rules : List OperatorRule) :
    compileLifecycle table sensor deadlines rules =
      lower table.name (c'.settled c'.steps) sensor plans deadlines rules := by
  unfold compileLifecycle
  simp only [phases, cleanups, bind, Except.bind]

/-- A circle of steps is found, where all commands may be left out. -/
theorem exists_cycle_error (omits : table.Omits) (phases : TableCompiler.compilePhases { table, sensor } = .ok c)
    (cleanups : c.compileCleanups = .ok (c', plans)) (circled : ¬ Uncircled c' plans) :
    ∃ e, compileLifecycle table sensor [] [] = .error e ∧ e.IsCycle := by
  obtain ⟨bs, joined, joined', laid, founded, -, -, -, -, settled, torn⟩ := compiled_spec phases cleanups
  rw [compileLifecycle_eq_lower phases cleanups, settled]
  have kind {bs : List Block} {sites : List Site} (housed : Housed sensor sites bs)
      (all : ∀ s ∈ sites, ∀ op ∈ s.entry.ops, op.unsupported = .omit) :
      ∀ b ∈ bs, ∀ op ∈ b.entry.ops, op.unsupported = .omit := by
    intro b mem op listed
    obtain ⟨s, mem', of⟩ := housed.blocks b mem
    rw [of.runs] at listed
    exact all s mem' op listed
  refine lower_of_cyclic (lowerable_of_blocks laid.emits.apart (laid.closed founded) (kind laid.housed omits.1))
    (fun plan mem => ?_) (fun plan mem operations => ?_) ?_
  · obtain ⟨spec, mem', more, joined, tears⟩ := exists_left_of_forall₂ torn mem
    rw [tears.steps]
    refine lowerable_of_blocks tears.apart ?_ (kind tears.housed (omits.2 spec mem'))
    exact tears.closed
  · obtain ⟨spec, mem', more, joined, tears⟩ := exists_left_of_forall₂ torn mem
    unfold arming
    rw [tears.armed]
    cases spec.armedBy with
    | none => exact ⟨_, rfl⟩
    | some ids =>
      refine ⟨_, if_pos ?_⟩
      rw [sorted_eq_nil, List.dedup_eq_nil, List.filter_eq_nil_iff]
      intro n named
      obtain ⟨id, -, named⟩ := List.mem_flatMap.1 named
      obtain ⟨b, here, -, named⟩ := mem_namesWhere.1 named
      obtain ⟨k, lt, rfl⟩ := Block.mem_names.1 named
      simp only [decide_eq_true_eq, not_not]
      refine List.mem_map.2 ⟨b.step table joined' (b.entry.ops[k], k), ?_, rfl⟩
      exact mem_blockSteps.2 ⟨b, here, k, _, List.getElem?_eq_getElem lt, rfl⟩
  · rw [← settled]
    unfold Uncircled at circled
    rw [not_and_or] at circled
    rcases circled with main | cleanup
    · exact .inl (not_not.1 main)
    · push Not at cleanup
      exact .inr cleanup

/-- **The symbolic check is sound for ordering**, but for overwritten rows. Where a table passes the check and its
references, selections and joins resolve, the steps have no cycle just if no entry whose row is overwritten needs
itself in a circle. Then compilation never fails for a cycle; else it does, if no command is refused first. -/
theorem check_sound (checked : table.check = .ok ())
    (phases : TableCompiler.compilePhases { table, sensor } = .ok c)
    (cleanups : c.compileCleanups = .ok (c', plans)) :
    (Uncircled c' plans ↔ table.Unhidden sensor) ∧
    (table.Unhidden sensor → ∀ deadlines rules e, compileLifecycle table sensor deadlines rules = .error e → ¬ e.IsCycle) ∧
    (table.Omits → (∀ e, compileLifecycle table sensor [] [] = .error e → ¬ e.IsCycle) → table.Unhidden sensor) := by
  have exact := uncircled_iff (check_eq_ok checked) phases cleanups
  refine ⟨exact, fun unhidden deadlines rules e fails cycle => ?_, fun omits never => ?_⟩
  · obtain ⟨main, cleanup⟩ := exact.2 unhidden
    rw [compileLifecycle_eq_lower phases cleanups] at fails
    rcases lower_isCycle fails cycle with circle | ⟨plan, mem, circle⟩
    · exact main circle
    · exact cleanup plan mem circle
  · by_contra hidden
    obtain ⟨e, fails, cycle⟩ := exists_cycle_error omits phases cleanups fun uncircled => hidden (exact.1 uncircled)
    exact never e fails cycle

theorem check_sound_bringUp : ∃ topology c c' plans, Topology.build startupSite = .ok topology ∧
    TableCompiler.compilePhases { table := bringUp, sensor := ⟨topology, startupDetails, none⟩ } = .ok c ∧
    c.compileCleanups = .ok (c', plans) ∧ ∀ deadlines rules e,
      compileLifecycle bringUp ⟨topology, startupDetails, none⟩ deadlines rules = .error e → ¬ e.IsCycle := by
  have runs : ((Topology.build startupSite).toOption.bind fun topology =>
      (TableCompiler.compilePhases { table := bringUp, sensor := ⟨topology, startupDetails, none⟩ }).toOption.bind
        fun c => c.compileCleanups.toOption.map fun out => out.2.length) = some 0 := by
    decide +kernel
  obtain ⟨topology, builds, runs⟩ := Option.bind_eq_some_iff.1 runs
  obtain ⟨c, phases, runs⟩ := Option.bind_eq_some_iff.1 runs
  obtain ⟨⟨c', plans⟩, cleanups, -⟩ := Option.map_eq_some_iff.1 runs
  have phases := toOption_eq_some.1 phases
  have cleanups := toOption_eq_some.1 cleanups
  refine ⟨topology, c, c', plans, toOption_eq_some.1 builds, phases, cleanups, ?_⟩
  refine (check_sound (by decide +kernel) phases cleanups).2.1 ⟨fun x hidden => ?_, by simp [bringUp]⟩
  -- The two entries have rows of their own.
  obtain ⟨later, sublist, same⟩ := hidden
  have both : [x.1, later] = bringUp.sites := sublist.eq_of_length rfl
  have rows : [x.1.row, later.row] = ["dome[0]", "mount[0]"] := by
    rw [show [x.1.row, later.row] = [x.1, later].map Site.row from rfl, both]
    decide
  simp only [List.cons.injEq, and_true] at rows
  rw [rows.1, rows.2] at same
  exact absurd same (by decide)

/-- The dome waits for its own phase, and the mount has taken the name of its row. -/
def tangle : LifecycleWorkflow where
  name := "tangle"
  failFast := false
  phases := [{ name := "start", entries := [
    { select := .device "dome", ops := [commandSpec "Init"], require := [{ name := "start" }],
      declares_ops := List.cons_ne_nil _ _ },
    { select := .device "mount", ops := [commandSpec "Connect"], id := some "start[0]",
      declares_ops := List.cons_ne_nil _ _ }] }]

/-- The check passes, but the compiler fails for a cycle. -/
theorem tangle_cycle : tangle.check = .ok () ∧ ∃ topology c c' plans, Topology.build startupSite = .ok topology ∧
    TableCompiler.compilePhases { table := tangle, sensor := ⟨topology, startupDetails, none⟩ } = .ok c ∧
    c.compileCleanups = .ok (c', plans) ∧
    ∃ e, compileLifecycle tangle ⟨topology, startupDetails, none⟩ [] [] = .error e ∧ e.IsCycle := by
  refine ⟨by decide +kernel, ?_⟩
  have runs : ((Topology.build startupSite).toOption.bind fun topology =>
      (TableCompiler.compilePhases { table := tangle, sensor := ⟨topology, startupDetails, none⟩ }).toOption.bind
        fun c => c.compileCleanups.toOption.bind fun _ =>
          match compileLifecycle tangle ⟨topology, startupDetails, none⟩ [] [] with
          | .error e => some e
          | .ok _ => none) =
      some (.value ("dependency cycle in graph: " ++
        "Init               dome @ <root> -> Init               dome @ <root>")) := by
    decide +kernel
  obtain ⟨topology, builds, runs⟩ := Option.bind_eq_some_iff.1 runs
  obtain ⟨c, phases, runs⟩ := Option.bind_eq_some_iff.1 runs
  obtain ⟨⟨c', plans⟩, cleanups, runs⟩ := Option.bind_eq_some_iff.1 runs
  refine ⟨topology, c, c', plans, toOption_eq_some.1 builds, toOption_eq_some.1 phases, toOption_eq_some.1 cleanups, ?_⟩
  split at runs
  · rename_i e fails
    exact ⟨e, fails, .inr ⟨_, Option.some.inj runs⟩⟩
  · cases runs

end Compiler

end SensorKit.Sensor
