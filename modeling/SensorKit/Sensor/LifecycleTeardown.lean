import SensorKit.Sensor.LifecycleLayout

/-!
# The dependencies of compiled cleanups

The entries of a cleanup are expanded as those of a phase, but inherit no waits; clauses name entries of the same
cleanup. The steps of the phases stay as they are.
-/

namespace SensorKit.Sensor

open Lib Common

variable {table : LifecycleWorkflow} {sensor : BoundSensor} {sites : List Site} {spec : CleanupSpec}
  {c c' : TableCompiler} {bs more : List Block} {joined joined' : String → List Dependency} {b b' : Block}

/-- What the first loop over the entries of a cleanup has emitted, beside the blocks of the phases. -/
structure Tears (sensor : BoundSensor) (spec : CleanupSpec) (c : TableCompiler) (bs : List Block)
    (joined : String → List Dependency) (sites : List Site) (state : TableCompiler × TableCompiler.CleanupEmitted)
    (more : List Block) (joined' : String → List Dependency) : Prop where
  frame : Frame c state.1
  emits : Emits state.1 (c.steps ++ state.2.steps) (bs ++ more) joined'
  places : Places state.1 (bs ++ more)
  unjoined : Unjoined bs more joined joined'
  steps : state.2.steps = more.flatMap fun b => b.entry.ops.zipIdx.map (b.plain c.table)
  heads : state.2.heads = more.map Block.head
  housed : Housed sensor sites more
  soft : ∀ b ∈ more, b.soft = []
  declared : ∀ id, (state.2.declared.get? id).getD [] = namesWhere more (·.entry.id = some id)

theorem Tears.cleanupEntry {state : TableCompiler × TableCompiler.CleanupEmitted} {entry : Entry}
    {targets : List Placement} {position : ℕ} (h : Tears sensor spec c bs joined sites state more joined')
    (selects : entry.targets sensor = .ok targets) : ∃ more joined', Tears sensor spec c bs joined
      (sites ++ [{ lead := [.name "cleanup"], owner := spec.name, entry, position }])
      (TableCompiler.cleanupEntry spec state ((entry, targets), position)) more joined' := by
  obtain ⟨c₁, tearing⟩ := state
  obtain ⟨frame, emits, places, unjoined, steps, heads, housed, soft, declared⟩ := h
  dsimp only at frame emits places steps heads declared
  unfold TableCompiler.cleanupEntry
  dsimp only
  have emission := emits.emitEntry entry targets [] spec.name
    [.name "cleanup", .name spec.name, entry.part position] none
  generalize c₁.emitEntry entry targets [] spec.name [.name "cleanup", .name spec.name, entry.part position] none = out
    at emission
  obtain ⟨c₂, emitted⟩ := out
  obtain ⟨new, joined₂, unjoined', frame', of, places', steps', firsts, emits'⟩ := emission
  have table : c₁.table = c.table := by rw [frame]
  refine ⟨more ++ new, joined₂, frame.trans frame', ?_, ?_, unjoined.trans unjoined', ?_, ?_, housed.snoc selects of,
    fun b mem => ?_, fun id => ?_⟩
  · dsimp only
    rw [← List.append_assoc, ← List.append_assoc]
    exact emits'
  · dsimp only
    rw [← List.append_assoc]
    exact places' places
  · dsimp only
    rw [steps, steps', List.flatMap_append, table]
  · dsimp only
    rw [firsts, heads, List.map_append, List.map_map]
    congr 1
    refine List.map_congr_left fun b mem => ?_
    unfold Block.head
    rw [of.entry b mem]
    rfl
  · exact (List.mem_append.1 mem).elim (soft b) (of.soft b)
  · dsimp only
    have names := names_of_blocks steps'
    have absent (other : entry.id ≠ some id) : namesWhere (more ++ new) (·.entry.id = some id) =
        namesWhere more (·.entry.id = some id) :=
      namesWhere_append_of_none fun b mem => by simp [of.entry b mem, other]
    cases has : entry.id with
    | none =>
      rw [absent (by simp [has])]
      exact declared id
    | some own =>
      dsimp only
      by_cases same : id = own
      · subst same
        rw [Dict.get?_insert_self, Option.getD_some, declared id, names,
          namesWhere_append fun b mem => by simp [of.entry b mem, has]]
      · rw [Dict.get?_insert_of_ne same, declared id, absent (by simp [has, Ne.symm same])]

/-- No step is declared for an entry of a cleanup yet. -/
theorem declareCleanup_eq_ok {«where» : String} {declared : Dict String (List String)}
    (h : TableCompiler.declareCleanup spec «where» = .ok declared) (id : String) : (declared.get? id).getD [] = [] := by
  unfold TableCompiler.declareCleanup at h
  simp only [bind_eq_ok] at h
  obtain ⟨d, loop, h⟩ := h
  split_ifs at h
  obtain rfl := pure_eq_ok.1 h
  refine foldlM_invariant (fun d : Dict String (List String) => (d.get? id).getD [] = []) loop (by simp) ?_
  intro d d' entry _ empty turn
  split at turn
  · cases turn
    exact empty
  · split_ifs at turn
    cases turn
    rw [Dict.get?_insert]
    split_ifs
    · rfl
    · exact empty

/-- What a cleanup is compiled to. -/
structure TearsDown (table : LifecycleWorkflow) (sensor : BoundSensor) (main : List Block) (spec : CleanupSpec)
    (plan : CleanupPlan) (more : List Block) (joined : String → List Dependency) : Prop where
  steps : plan.steps = blockSteps table joined more
  apart : Apart more
  housed : Housed sensor spec.sites more
  soft : ∀ b ∈ more, b.soft = []
  joins : ∀ b ∈ more, ∀ n, (∃ dep ∈ joined (b.name 0), dep.on = n) ↔ ∃ clause ∈ b.entry.require, ∃ b' ∈ more,
    b'.entry.id = some clause.name ∧ clause.Relates b.target b'.target ∧ n ∈ b'.names
  armed : plan.armedBy = spec.armedBy.map fun ids => ids.flatMap fun id => namesWhere main (·.entry.id = some id)
  timeout : plan.timeoutS = spec.timeoutS

/-- What is left as it was by cleanups. -/
structure Leaves (c : TableCompiler) (bs : List Block) (joined : String → List Dependency) (c' : TableCompiler)
    (joined' : String → List Dependency) : Prop where
  frame : Frame c c'
  emits : Emits c' c'.steps bs joined'
  places : Places c' bs
  joins : ∀ b ∈ bs, ∀ dep, dep ∈ joined' (b.name 0) ↔ dep ∈ joined (b.name 0)

/-- The first loop over the entries of a cleanup. -/
theorem Leaves.tears {c₀ : TableCompiler} {joined₀ : String → List Dependency} {declared : Dict String (List String)}
    {chosen : List (List Placement)} {here there : String} (h : Leaves c₀ bs joined₀ c joined)
    (declares : TableCompiler.declareCleanup spec here = .ok declared)
    (selects : TableCompiler.selected sensor spec.entries there = .ok chosen) : ∃ more joined',
      Tears sensor spec c bs joined spec.sites
        ((spec.entries.zip chosen).zipIdx.foldl (TableCompiler.cleanupEntry spec) (c, { declared })) more joined' := by
  have all (turns : List ((Entry × List Placement) × ℕ))
      (selects : ∀ turn ∈ turns, turn.1.1.targets sensor = .ok turn.1.2) : ∃ more joined', Tears sensor spec c bs joined
      (turns.map fun turn => { lead := [.name "cleanup"], owner := spec.name, entry := turn.1.1, position := turn.2 })
      (turns.foldl (TableCompiler.cleanupEntry spec) (c, { declared })) more joined' := by
    induction turns using List.reverseRecOn with
    | nil =>
      refine ⟨[], joined, .refl c, by simpa using h.emits, by simpa using h.places, ⟨fun _ => id, fun _ _ => rfl, by simp⟩,
        rfl, rfl, .nil, by simp, declareCleanup_eq_ok declares⟩
    | append_singleton turns turn ih =>
      obtain ⟨more, joined', tears⟩ := ih fun turn mem => selects turn (List.mem_append_left _ mem)
      rw [List.foldl_append, List.foldl_cons, List.foldl_nil, List.map_append]
      exact tears.cleanupEntry (selects turn (by simp))
  have torn := all (spec.entries.zip chosen).zipIdx fun turn mem => by
    obtain ⟨⟨entry, targets⟩, position⟩ := turn
    obtain ⟨here, there⟩ := List.getElem?_zip_eq_some.1 (List.mk_mem_zipIdx_iff_getElem?.1 mem)
    exact targets_of_selected selects here there
  rw [sites_zip (length_of_selected selects) [.name "cleanup"]] at torn
  exact torn

/-- **Compilation of a cleanup.** -/
theorem Leaves.cleanup {c₀ : TableCompiler} {joined₀ : String → List Dependency} {plan : CleanupPlan}
    (laid : Laid table sensor table.phases table.sites c₀ bs joined₀) (h : Leaves c₀ bs joined₀ c joined)
    (compiles : c.cleanup spec = .ok (c', plan)) : ∃ joined' more joined'', Leaves c₀ bs joined₀ c' joined' ∧
      TearsDown table sensor bs spec plan more joined'' := by
  unfold TableCompiler.cleanup at compiles
  simp only [bind_eq_ok, pure_eq_ok] at compiles
  obtain ⟨declared, declares, chosen, selects, c₂, joins, armedBy, arms, eq⟩ := compiles
  obtain ⟨rfl, rfl⟩ := Prod.mk.inj eq
  have whole : c.table = table := by rw [h.frame]; exact laid.whole
  have bound : c.sensor = sensor := by rw [h.frame]; exact laid.bound
  rw [bound] at selects
  have torn := h.tears declares selects
  generalize (spec.entries.zip chosen).zipIdx.foldl (TableCompiler.cleanupEntry spec) (c, { declared }) = out
    at torn joins
  obtain ⟨c₁, emitted⟩ := out
  obtain ⟨more, joined', frame, emits, places, unjoined, steps, heads, housed, soft, declared'⟩ := torn
  dsimp only at frame emits places steps heads declared' joins
  rw [heads] at joins
  obtain ⟨relinks, joined'', emits', linked⟩ := emits.joins (fun b => List.mem_append_right _) (fun _ _ _ => rfl) joins
  have frame' := frame.trans relinks.frame
  have same : c₂.steps = c.steps := by rw [frame']
  have places' : Places c₂ (bs ++ more) := by
    unfold Relinks at relinks
    rw [relinks]
    exact places
  have tables : c₂.table = c.table := by rw [frame']
  have old (b : Block) (mem : b ∈ bs) (dep : Dependency) : dep ∈ joined'' (b.name 0) ↔ dep ∈ joined (b.name 0) := by
    rw [linked b (List.mem_append_left _ mem), unjoined.old b mem]
    simp [emits.apart.notMem mem]
  refine ⟨joined'', more, joined'', ⟨h.frame.trans frame', ?_, fun b mem => places' b (List.mem_append_left _ mem),
    fun b mem dep => (old b mem dep).trans (h.joins b mem dep)⟩, ?_⟩
  · refine emits'.left ?_
    rw [same, tables]
    exact h.emits.steps
  · refine ⟨?_, (List.pairwise_append.1 emits'.apart).2.1, housed, soft, fun b mem n => ?_, ?_, rfl⟩
    · have right : Emits c₂ emitted.steps more joined'' :=
        ⟨by rw [steps, tables], fun b mem => emits'.deps b (List.mem_append_right _ mem),
          (List.pairwise_append.1 emits'.apart).2.1, fun b mem => emits'.bounded b (List.mem_append_right _ mem)⟩
      dsimp only
      rw [right.settled, tables, whole]
      rfl
    · have inside := List.mem_append_right bs mem
      constructor
      · rintro ⟨dep, listed, rfl⟩
        rw [linked b inside, unjoined.new b mem] at listed
        obtain ⟨-, clause, asks, linked'⟩ := listed.resolve_left List.not_mem_nil
        obtain ⟨n, narrowed, rfl⟩ := List.mem_map.1 linked'
        have named : n ∈ (emitted.declared.get? clause.name).getD [] := narrowed_subset narrowed
        rw [declared'] at named
        obtain ⟨b', here, id, named⟩ := mem_namesWhere.1 named
        obtain ⟨k, lt, rfl⟩ := Block.mem_names.1 named
        exact ⟨clause, asks, b', here, by simpa using id,
          ((mem_narrowed places (List.mem_append_right _ here) lt).1 narrowed).2, named⟩
      · rintro ⟨clause, asks, b', here, id, related, named⟩
        obtain ⟨k, lt, rfl⟩ := Block.mem_names.1 named
        refine ⟨{ on := b'.name k, kind := clause.on }, (linked b inside _).2 (.inr ⟨mem, clause, asks, ?_⟩), rfl⟩
        refine List.mem_map.2 ⟨b'.name k, (mem_narrowed places (List.mem_append_right _ here) lt).2 ⟨?_, related⟩, rfl⟩
        dsimp only
        rw [declared']
        exact mem_namesWhere.2 ⟨b', here, by simpa using id, named⟩
    · have entries : c₂.entrySteps = c₀.entrySteps := by
        rw [frame', h.frame]
      unfold TableCompiler.arming at arms
      split at arms
      · rename_i none
        cases arms
        rw [none]
        rfl
      · rename_i ids has
        dsimp only at arms
        split_ifs at arms
        cases arms
        rw [has, Option.map_some, entries]
        refine congrArg Option.some (List.flatMap_congr fun id _ => ?_)
        exact laid.entrySteps id

/-- **Compilation of all cleanups.** -/
theorem Laid.compileCleanups {plans : List CleanupPlan} (laid : Laid table sensor table.phases table.sites c bs joined)
    (compiles : c.compileCleanups = .ok (c', plans)) : ∃ joined', Leaves c bs joined c' joined' ∧
      List.Forall₂ (fun spec plan => ∃ more joined, TearsDown table sensor bs spec plan more joined) table.cleanup plans := by
  unfold TableCompiler.compileCleanups at compiles
  rw [laid.whole] at compiles
  refine foldlM_invariant_prefix (fun done (state : TableCompiler × List CleanupPlan) => ∃ joined',
    Leaves c bs joined state.1 joined' ∧
      List.Forall₂ (fun spec plan => ∃ more joined, TearsDown table sensor bs spec plan more joined) done state.2) compiles
    ⟨joined, ⟨.refl c, laid.emits, laid.places, fun _ _ _ => Iff.rfl⟩, .nil⟩ ?_
  rintro done spec rest ⟨c₁, plans₁⟩ ⟨c₂, plans₂⟩ _ ⟨joined₁, leaves, torn⟩ turn
  simp only [bind_eq_ok, pure_eq_ok] at turn
  obtain ⟨⟨c₃, plan⟩, compiles, eq⟩ := turn
  cases eq
  obtain ⟨joined₂, more, joined₃, leaves', tears⟩ := leaves.cleanup laid compiles
  exact ⟨joined₂, leaves', List.rel_append torn (.cons ⟨more, joined₃, tears⟩ .nil)⟩

/-! ## Compiled tables -/

/-- What first steps require, as a set. -/
def SameJoins (bs : List Block) (joined joined' : String → List Dependency) : Prop :=
  ∀ b ∈ bs, ∀ dep, dep ∈ joined' (b.name 0) ↔ dep ∈ joined (b.name 0)

theorem Founded.same (h : Founded table bs joined) (same : SameJoins bs joined joined') : Founded table bs joined' :=
  fun b mem dep listed => h b mem dep ((same b mem dep).1 listed)

theorem Answered.same (h : Answered bs joined) (same : SameJoins bs joined joined') : Answered bs joined' := by
  intro b mem b' mem' asks
  obtain ⟨dep, listed, named⟩ := h b mem b' mem' asks
  exact ⟨dep, (same b mem dep).2 listed, named⟩

theorem Unasked.same (h : Unasked bs joined) (same : SameJoins bs joined joined') : Unasked bs joined' := by
  intro b mem none
  apply List.eq_nil_iff_forall_not_mem.2
  intro dep listed
  rw [same b mem, h b mem none] at listed
  exact List.not_mem_nil listed

/-- **What the compiler has before it builds graphs.** -/
theorem compiled_spec {plans : List CleanupPlan} (phases : TableCompiler.compilePhases { table, sensor } = .ok c)
    (cleanups : c.compileCleanups = .ok (c', plans)) : ∃ bs joined joined',
      Laid table sensor table.phases table.sites c bs joined ∧ Founded table bs joined' ∧
      (Checked table → Answered bs joined') ∧ Spread bs ∧ Unasked bs joined' ∧ (table.Named → Compiled table sensor c bs) ∧
      c'.settled c'.steps = blockSteps table joined' bs ∧
      List.Forall₂ (fun spec plan => ∃ more joined, TearsDown table sensor bs spec plan more joined) table.cleanup plans := by
  obtain ⟨bs, joined, laid, founded, answered, spread, unasked, compiled⟩ := laid_of_compilePhases phases
  obtain ⟨joined', leaves, torn⟩ := laid.compileCleanups cleanups
  refine ⟨bs, joined, joined', laid, founded.same leaves.joins, fun checked => (answered checked).same leaves.joins, spread,
    unasked.same leaves.joins, compiled, ?_, torn⟩
  have whole : c'.table = table := by
    rw [leaves.frame]
    exact laid.whole
  rw [leaves.emits.settled, whole]
  rfl

/-- A table is compiled to the steps of the blocks. -/
structure Plans (table : LifecycleWorkflow) (sensor : BoundSensor) (bs : List Block)
    (joined : String → List Dependency) : Prop where
  ordered : table.Ordered
  ids : ((table.phases.flatMap Phase.entries).filterMap Entry.id).Nodup
  apart : Apart bs
  blocks : ∀ b ∈ bs, ∃ i phase position entry, table.phases[i]? = some phase ∧ b.At sensor phase position entry ∧
    ∀ other, WaitsFor table i entry other → ∀ b' ∈ bs, b'.group = other.name → ∀ n ∈ b'.names, n ∈ b.soft
  housed : Housed sensor table.sites bs
  unasked : Unasked bs joined

/-- No entry of the phase requires anything. -/
def Phase.Unrequired (phase : Phase) : Prop :=
  ∀ entry ∈ phase.entries, entry.require = []

theorem Plans.alone (plans : Plans table sensor bs joined) (free : ∀ phase ∈ table.phases, phase.Unrequired)
    (mem : b ∈ bs) : joined (b.name 0) = [] := by
  obtain ⟨i, phase, position, entry, here, block, -⟩ := plans.blocks b mem
  apply plans.unasked b mem
  rw [block.runs]
  exact free phase (List.mem_of_getElem? here) entry (List.mem_of_getElem? block.here)

/-- There is a block for each target of each entry. -/
theorem Plans.exists_block {phase : Phase} {entry : Entry} {targets : List Placement} {p : Placement}
    (plans : Plans table sensor bs joined) (mem : phase ∈ table.phases) (listed : entry ∈ phase.entries)
    (selects : entry.targets sensor = .ok targets) (target : p ∈ targets) :
    ∃ b ∈ bs, b.entry = entry ∧ b.group = phase.name ∧ b.target = p := by
  obtain ⟨position, here⟩ := List.mem_iff_getElem?.1 listed
  obtain ⟨b, mem', of, at_⟩ := plans.housed.covers { owner := phase.name, entry, position }
    (List.mem_flatMap.2 ⟨phase, mem, List.mem_map.2 ⟨(entry, position), List.mk_mem_zipIdx_iff_getElem?.2 here, rfl⟩⟩)
    p ⟨targets, selects, target⟩
  exact ⟨b, mem', of.runs, of.group, at_⟩

/-- **What a table is compiled to.** -/
theorem compileLifecycle_eq_ok {deadlines : List DeadlineRule} {rules : List OperatorRule}
    {workflow : ExecutableWorkflow} (named : table.Named)
    (compiles : compileLifecycle table sensor deadlines rules = .ok workflow) :
    ∃ bs joined plans, Plans table sensor bs joined ∧
      lower table.name (blockSteps table joined bs) sensor plans deadlines rules = .ok workflow := by
  unfold compileLifecycle at compiles
  simp only [bind_eq_ok] at compiles
  obtain ⟨c₁, phases, ⟨c₂, plans⟩, cleanups, lowers⟩ := compiles
  obtain ⟨bs, joined, joined', laid, -, -, -, unasked, compiled, settled, -⟩ := compiled_spec phases cleanups
  obtain ⟨ordered, -, -, ids, blocks⟩ := compiled named
  rw [settled] at lowers
  exact ⟨bs, joined', plans, ⟨ordered, ids, laid.emits.apart, blocks, laid.housed, unasked⟩, lowers⟩

end SensorKit.Sensor
