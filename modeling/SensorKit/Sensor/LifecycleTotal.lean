import SensorKit.Sensor.LifecycleCycles

/-!
# Tables that are never refused

A table without requirements, whose phases follow earlier ones and whose entries select placements that do not
overlap, compiles on every sensor where all its commands may be left out: its steps have no cycle, its operations
are told apart by their ids, and its cleanups are armed by operations of the main graph.
-/

namespace SensorKit.Sensor

open Lib Common

/-! ## Lowering -/

section Lowering

variable {facts : BoundSensor} {deadlines : List DeadlineRule} {rules : List OperatorRule} {steps : List PlannedStep}
  {graph : Graph (Option Operation)} {operations : Dict String Operation} {omissions : List Omission}

/-- Steps without a cycle are compiled. -/
theorem Lowerable.compiles (h : Lowerable facts deadlines rules steps) (acyclic : ¬ Cyclic (Declares steps)) :
    ∃ graph operations omissions, compile steps facts deadlines rules = .ok (graph, operations, omissions) := by
  rcases h.compile_cases with ⟨_, -, -, cyclic⟩ | ⟨⟨graph, operations, omissions⟩, compiles, -⟩
  · exact absurd cyclic acyclic
  · exact ⟨graph, operations, omissions, compiles⟩

/-- The index of operations that `_compile` returns. -/
theorem operations_of_compile (h : compile steps facts deadlines rules = .ok (graph, operations, omissions)) (n : String)
    (op : Operation) : operations.get? n = some op ↔
      ∃ step ∈ kept facts steps, step.name = n ∧ planned step facts deadlines = .ok (some op) := by
  simp only [compile, bind_eq_ok, pure_eq_ok, Prod.mk.injEq] at h
  obtain ⟨byName, checks, ⟨omitted, _⟩, fated, resolved, -, c, adds, _, -, -, rfl, -⟩ := h
  have names := (checked_eq_ok checks).1.nodup
  exact (building_of_foldlM names (fun n => mem_omitted fated) adds).operations n op

/-- The operations of the graph are those of the kept steps, in their order. -/
theorem Projects.operationsOf_eq (h : Projects facts deadlines rules steps graph) :
    operationsOf graph = (kept facts steps).filterMap fun step => (planned step facts deadlines).toOption.join := by
  unfold operationsOf
  have all {steps : List PlannedStep} {nodes : List (Node (Option Operation))}
      (related : List.Forall₂ (NodeOf facts deadlines rules) steps nodes) :
      nodes.filterMap Node.payload = steps.filterMap fun step => (planned step facts deadlines).toOption.join := by
    induction related with
    | nil => rfl
    | cons first _ ih =>
      rw [List.filterMap_cons, List.filterMap_cons, ih, first.payload]
      rfl
  exact all h.nodes

/-- Each operation may take any time, or some. -/
def Usable (operations : List Operation) : Prop :=
  ∀ op ∈ operations, ∀ timeout, op.timeoutS = some timeout → 0 < timeout

theorem deadlinesWithin_eq_ok {operations : List Operation} (usable : Usable operations) (graph : String) :
    deadlinesWithin operations graph = .ok () := by
  refine forM_eq_ok.2 fun op mem => ?_
  cases timeout : op.timeoutS with
  | none => rfl
  | some seconds => exact if_pos (usable op mem seconds timeout)

/-- What passes the checks of a workflow. -/
theorem validated_eq_ok {workflow : ExecutableWorkflow} (ids : ((operationsOf workflow.graph).map Operation.id).Nodup)
    (main : Usable (operationsOf workflow.graph))
    (cleanup : ∀ plan ∈ workflow.cleanup, 0 < plan.timeoutS ∧ Usable (operationsOf plan.graph) ∧
      ∀ op ∈ plan.armedBy.getD [], op ∈ operationsOf workflow.graph) : validated workflow = .ok () := by
  have single : ((operationsOf workflow.graph).map Operation.id).filter
      (fun i => 1 < ((operationsOf workflow.graph).map Operation.id).count i) = [] := by
    refine List.filter_eq_nil_iff.2 fun i mem => ?_
    have once := List.count_eq_one_of_mem ids mem
    simp [once]
  unfold validated
  dsimp only
  rw [single, List.dedup_nil, List.insertionSort_nil, if_pos rfl]
  refine bind_eq_ok.2 ⟨(), deadlinesWithin_eq_ok main _, forM_eq_ok.2 fun plan mem => ?_⟩
  obtain ⟨positive, usable, armed⟩ := cleanup plan mem
  refine bind_eq_ok.2 ⟨(), ?_, ?_⟩
  · unfold bounded
    dsimp only
    rw [if_pos positive]
    exact deadlinesWithin_eq_ok usable _
  · have inside : (plan.armedBy.getD []).filter (· ∉ operationsOf workflow.graph) = [] :=
      List.filter_eq_nil_iff.2 fun op mem => by simpa using armed op mem
    unfold armedWithin
    dsimp only
    rw [inside]
    rfl

end Lowering

/-! ## Expansion -/

/-- A group of entries has no requirements, tells its entries apart by their ids, and selects placements. -/
structure PlainEntries (sensor : BoundSensor) (entries : List Entry) : Prop where
  unrequired : ∀ entry ∈ entries, entry.require = []
  ids : (entries.filterMap Entry.id).Nodup
  selects : ∀ «where», ∃ chosen, TableCompiler.selected sensor entries «where» = .ok chosen
  /-- Commands may be left out, and take any time. -/
  ops : ∀ entry ∈ entries, ∀ op ∈ entry.ops, op.unsupported = .omit ∧ op.timeoutS = none

/-- A table that is never refused on a sensor. -/
structure Plain (table : LifecycleWorkflow) (sensor : BoundSensor) : Prop where
  phases : (table.phases.map Phase.name).Nodup
  follows : ∀ done phase rest, table.phases = done ++ phase :: rest →
    ∀ name ∈ TableCompiler.following phase ((done.getLast?).map Phase.name), name ∈ done.map Phase.name
  ids : ((table.phases.flatMap Phase.entries).filterMap Entry.id).Nodup
  entries : ∀ phase ∈ table.phases, PlainEntries sensor phase.entries
  cleanup : ∀ spec ∈ table.cleanup, PlainEntries sensor spec.entries ∧ 0 < spec.timeoutS ∧
    ∀ ids, spec.armedBy = some ids → ∀ id ∈ ids, id ∈ (table.phases.flatMap Phase.entries).filterMap Entry.id

section Expansion

variable {table : LifecycleWorkflow} {sensor : BoundSensor} {c c' : TableCompiler} {bs : List Block}
  {joined : String → List Dependency} {done rest : List Phase} {phase : Phase} {sites : List Site}

/-- Ids that are new, and told apart, are declared. -/
theorem exists_declareEntries {entries : List Entry} (name : String) (ids : (entries.filterMap Entry.id).Nodup)
    (fresh : ∀ id ∈ entries.filterMap Entry.id, id ∉ c.entryPhase.keys) :
    ∃ c', entries.foldlM (TableCompiler.declareEntry name) c = .ok c' := by
  refine (exists_foldlM (fun pre c' => pre.foldlM (TableCompiler.declareEntry name) c = .ok c') rfl
    fun pre entry post c₁ eq before => ?_).imp fun _ done => done.1
  have declared := declareEntries_eq_ok before
  have step : ∃ c₂, TableCompiler.declareEntry name c₁ entry = .ok c₂ := by
    unfold TableCompiler.declareEntry
    cases has : entry.id with
    | none => exact ⟨_, rfl⟩
    | some id =>
      have mem : id ∈ entries.filterMap Entry.id := List.mem_filterMap.2 ⟨entry, by simp [eq], has⟩
      refine ⟨_, if_neg fun taken => ?_⟩
      rcases (declared.keys id).1 taken with old | earlier
      · exact fresh id mem old
      · rw [eq, List.filterMap_append, List.filterMap_cons_some has] at ids
        exact (List.nodup_append.1 ids).2.2 _ earlier _ List.mem_cons_self rfl
  obtain ⟨c₂, turn⟩ := step
  refine ⟨c₂, turn, ?_⟩
  rw [List.foldlM_append, bind_eq_ok]
  exact ⟨c₁, before, by simpa using turn⟩

theorem exists_softLinks {entry : Entry} (after : List String) («where» : String) (none : entry.require = []) :
    ∃ soft, c.softLinks entry after «where» = .ok soft := by
  unfold TableCompiler.softLinks
  rw [none]
  exact ⟨_, rfl⟩

/-- Where nothing is required, nothing is attached. -/
theorem joins_of_none {heads : TableCompiler.Heads} («where» : String) (named : TableCompiler → Join → List String)
    (unrequired : ∀ head ∈ heads, head.1.require = []) : heads.foldlM (fun c (entry, placement, head) =>
      entry.require.foldlM (fun (c : TableCompiler) clause => c.join clause (named c clause) placement head «where») c) c =
        .ok c := by
  induction heads with
  | nil => rfl
  | cons head heads ih =>
    rw [List.foldlM_cons]
    refine bind_eq_ok.2 ⟨c, ?_, ih fun head mem => unrequired head (List.mem_cons_of_mem _ mem)⟩
    dsimp only
    rw [unrequired head List.mem_cons_self]
    rfl

/-- **A phase is expanded.** -/
theorem Laid.exists_compilePhase {previous : Option String} (h : Laid table sensor done sites c bs joined)
    (split : table.phases = done ++ phase :: rest) (plain : Plain table sensor)
    (last : previous = (done.getLast?).map Phase.name) : ∃ c', c.compilePhase phase previous = .ok c' := by
  have inside : phase ∈ table.phases := by simp [split]
  have entries := plain.entries phase inside
  have names := plain.phases
  rw [split, List.map_append, List.map_cons] at names
  have fresh : phase.name ∉ c.phaseSteps.keys := by
    rw [h.keys]
    exact fun mem => (List.nodup_append.1 names).2.2 _ mem _ List.mem_cons_self rfl
  have known : (TableCompiler.following phase previous).filter (· ∉ c.phaseSteps.keys) = [] := by
    refine List.filter_eq_nil_iff.2 fun name follows => ?_
    rw [last] at follows
    rw [h.keys]
    simpa using plain.follows done phase rest split name follows
  have ids := plain.ids
  rw [split, List.flatMap_append, List.flatMap_cons, List.filterMap_append, List.filterMap_append] at ids
  have declares : ∃ c₁ after, c.declarePhase phase previous = .ok (c₁, after) := by
    have declared : ∃ c₁, phase.entries.foldlM (TableCompiler.declareEntry phase.name)
        { c with
          phaseAfter := c.phaseAfter.insert phase.name (TableCompiler.following phase previous)
          phaseSteps := c.phaseSteps.insert phase.name [] } = .ok c₁ := by
      refine exists_declareEntries phase.name entries.ids fun id mem taken => ?_
      exact (List.nodup_append.1 ids).2.2 _ ((h.owned id).1 taken) _ (List.mem_append_left _ mem) rfl
    obtain ⟨c₁, declared⟩ := declared
    refine ⟨c₁, TableCompiler.following phase previous, ?_⟩
    unfold TableCompiler.declarePhase
    dsimp only
    rw [if_neg fresh, if_neg (not_not.2 known)]
    exact bind_eq_ok.2 ⟨c₁, declared, rfl⟩
  obtain ⟨c₁, after, declares⟩ := declares
  obtain ⟨laid, -, -⟩ := h.declarePhase split declares
  obtain ⟨chosen, selects⟩ := entries.selects ("phase '" ++ phase.name ++ "'")
  have loop : ∃ state : TableCompiler × TableCompiler.Heads, (phase.entries.zip chosen).zipIdx.foldlM
      (TableCompiler.compileEntry phase after ("phase '" ++ phase.name ++ "'")) (c₁, []) = .ok state ∧
        ∀ head ∈ state.2, head.1.require = [] := by
    refine exists_foldlM (fun _ (state : TableCompiler × TableCompiler.Heads) => ∀ head ∈ state.2, head.1.require = [])
      (by simp) ?_
    intro pre turn post state eq unrequired
    obtain ⟨⟨entry, targets⟩, position⟩ := turn
    have listed : ((entry, targets), position) ∈ (phase.entries.zip chosen).zipIdx := by simp [eq]
    obtain ⟨here, -⟩ := List.getElem?_zip_eq_some.1 (List.mk_mem_zipIdx_iff_getElem?.1 listed)
    have none := entries.unrequired entry (List.mem_of_getElem? here)
    obtain ⟨soft, links⟩ := exists_softLinks (c := state.1) after ("phase '" ++ phase.name ++ "'") none
    refine ⟨_, bind_eq_ok.2 ⟨soft, links, rfl⟩, fun head mem => ?_⟩
    rcases List.mem_append.1 mem with old | new
    · exact unrequired head old
    · obtain ⟨_, -, rfl⟩ := List.mem_map.1 new
      exact none
  obtain ⟨⟨c₂, heads⟩, expands, unrequired⟩ := loop
  have resolves := joins_of_none (c := c₂) ("phase '" ++ phase.name ++ "'") TableCompiler.named unrequired
  refine ⟨c₂, bind_eq_ok.2 ⟨_, declares, bind_eq_ok.2 ⟨chosen, ?_, bind_eq_ok.2 ⟨_, expands, resolves⟩⟩⟩⟩
  rw [laid.bound]
  exact selects

/-- **The phases are expanded.** -/
theorem Plain.exists_compilePhases (plain : Plain table sensor) :
    ∃ c, TableCompiler.compilePhases { table, sensor } = .ok c := by
  unfold TableCompiler.compilePhases
  refine exists_foldlM_bind (fun done (state : TableCompiler × Option String) => ∃ bs joined,
    Laid table sensor done (done.flatMap Phase.sites) state.1 bs joined ∧ state.2 = (done.getLast?).map Phase.name) ?_ ?_
    fun state _ => ⟨state.1, rfl⟩
  · exact ⟨[], fun _ => [], .start, rfl⟩
  · rintro done phase rest ⟨c, previous⟩ split ⟨bs, joined, laid, last⟩
    dsimp only at split laid last
    obtain ⟨c', compiles⟩ := laid.exists_compilePhase split plain last
    obtain ⟨new, joined', laid', -⟩ := laid.compilePhase split compiles
    refine ⟨(c', some phase.name), bind_eq_ok.2 ⟨c', compiles, rfl⟩, bs ++ new, joined', ?_, by simp⟩
    rw [List.flatMap_append, List.flatMap_cons, List.flatMap_nil, List.append_nil]
    exact laid'

/-- Ids that are told apart are declared in a cleanup. -/
theorem exists_declareCleanup {spec : CleanupSpec} («where» : String) (entries : PlainEntries sensor spec.entries) :
    ∃ declared, TableCompiler.declareCleanup spec «where» = .ok declared := by
  have inside : spec.entries.flatMap Entry.require = [] := List.flatMap_eq_nil_iff.2 entries.unrequired
  unfold TableCompiler.declareCleanup
  refine exists_foldlM_bind (fun pre (declared : Dict String (List String)) =>
    ∀ id, id ∈ declared.keys ↔ id ∈ pre.filterMap Entry.id) (by simp [Dict.keys, Dict.empty]) ?_ ?_
  · intro pre entry post declared eq known
    cases has : entry.id with
    | none => exact ⟨declared, rfl, by simpa [has] using known⟩
    | some id =>
      have fresh : id ∉ declared.keys := by
        have ids := entries.ids
        rw [eq, List.filterMap_append, List.filterMap_cons_some has] at ids
        rw [known]
        exact fun earlier => (List.nodup_append.1 ids).2.2 _ earlier _ List.mem_cons_self rfl
      refine ⟨declared.insert id [], if_neg fresh, fun other => ?_⟩
      rw [Dict.mem_keys_insert, known, List.filterMap_append, List.mem_append, List.filterMap_cons_some has]
      simp [or_comm]
  · intro declared _
    rw [inside]
    exact ⟨declared, rfl⟩

/-- **A cleanup is expanded.** -/
theorem Leaves.exists_cleanup {c₀ : TableCompiler} {joined₀ : String → List Dependency} {spec : CleanupSpec}
    (laid : Laid table sensor table.phases table.sites c₀ bs joined₀) (h : Leaves c₀ bs joined₀ c joined)
    (entries : PlainEntries sensor spec.entries) (armed : ∀ ids, spec.armedBy = some ids → ∀ id ∈ ids,
      id ∈ (table.phases.flatMap Phase.entries).filterMap Entry.id) : ∃ out, c.cleanup spec = .ok out := by
  have bound : c.sensor = sensor := by
    rw [h.frame]
    exact laid.bound
  obtain ⟨declared, declares⟩ := exists_declareCleanup ("cleanup '" ++ spec.name ++ "'") entries
  obtain ⟨chosen, selects⟩ := entries.selects ("cleanup '" ++ spec.name ++ "'")
  obtain ⟨more, joined', tears⟩ := h.tears declares selects
  have unrequired : ∀ head ∈ ((spec.entries.zip chosen).zipIdx.foldl (TableCompiler.cleanupEntry spec)
      (c, { declared })).2.heads, head.1.require = [] := by
    intro head mem
    rw [tears.heads] at mem
    obtain ⟨b, here, rfl⟩ := List.mem_map.1 mem
    obtain ⟨s, listed, of⟩ := tears.housed.blocks b here
    obtain ⟨⟨entry, position⟩, there, rfl⟩ := List.mem_map.1 listed
    refine entries.unrequired _ ?_
    unfold Block.head
    dsimp only
    rw [of.runs]
    exact List.fst_mem_of_mem_zipIdx there
  have frame := tears.frame
  generalize expands : (spec.entries.zip chosen).zipIdx.foldl (TableCompiler.cleanupEntry spec) (c, { declared }) = out
    at frame unrequired
  obtain ⟨c₁, emitted⟩ := out
  dsimp only at frame unrequired
  have joins := joins_of_none (c := c₁) ("cleanup '" ++ spec.name ++ "'")
    (fun _ clause => (emitted.declared.get? clause.name).getD []) unrequired
  have arms : ∃ armedBy, c₁.arming spec ("cleanup '" ++ spec.name ++ "'") = .ok armedBy := by
    unfold TableCompiler.arming
    cases has : spec.armedBy with
    | none => exact ⟨_, rfl⟩
    | some ids =>
      have known : ids.filter (· ∉ c₁.entryPhase.keys) = [] := by
        refine List.filter_eq_nil_iff.2 fun id mem => ?_
        rw [frame, h.frame]
        simpa using (laid.owned id).2 (armed ids has id mem)
      dsimp only
      rw [known, List.dedup_nil, List.insertionSort_nil]
      exact ⟨_, if_neg (not_not.2 rfl)⟩
  obtain ⟨armedBy, arms⟩ := arms
  unfold TableCompiler.cleanup
  dsimp only
  rw [bound, declares, selects]
  simp only [bind, Except.bind, expands, joins, arms]
  exact ⟨_, rfl⟩

/-- **The cleanups are expanded.** -/
theorem Plain.exists_compileCleanups (plain : Plain table sensor)
    (laid : Laid table sensor table.phases table.sites c bs joined) : ∃ c' plans, c.compileCleanups = .ok (c', plans) := by
  have loop : ∃ state : TableCompiler × List CleanupPlan, c.compileCleanups = .ok state ∧
      ∃ joined', Leaves c bs joined state.1 joined' := by
    unfold TableCompiler.compileCleanups
    rw [laid.whole]
    refine exists_foldlM (fun _ (state : TableCompiler × List CleanupPlan) => ∃ joined', Leaves c bs joined state.1 joined')
      ⟨joined, ⟨.refl c, laid.emits, laid.places, fun _ _ _ => Iff.rfl⟩⟩ ?_
    rintro pre spec post ⟨c₁, plans⟩ eq ⟨joined₁, leaves⟩
    obtain ⟨entries, -, armed⟩ := plain.cleanup spec (by simp [eq])
    obtain ⟨⟨c₂, plan⟩, compiles⟩ := leaves.exists_cleanup laid entries armed
    obtain ⟨joined₂, -, -, leaves', -⟩ := leaves.cleanup laid compiles
    exact ⟨(c₂, plans ++ [plan]), bind_eq_ok.2 ⟨_, compiles, rfl⟩, joined₂, leaves'⟩
  obtain ⟨⟨c', plans⟩, compiles, -⟩ := loop
  exact ⟨c', plans, compiles⟩

end Expansion

/-! ## Operations -/

/-- The path of a command in the origin of its operations. -/
def Site.commandPath (s : Site) (k : ℕ) : List PathPart :=
  s.path ++ [.number k]

/-- The operation of an entry's command at a placement. -/
def Site.operation (table : LifecycleWorkflow) (s : Site) (p : Placement) (op : OpSpec × ℕ) : Operation where
  target := p
  command := op.1.command
  origin := { source := table.name, path := s.commandPath op.2 }

/-- The operation is of the entry, at a placement that it selects and that supports the command. -/
def Site.Dispatches (table : LifecycleWorkflow) (sensor : BoundSensor) (s : Site) (operation : Operation) : Prop :=
  ∃ p, s.Selects sensor p ∧ ∃ op ∈ s.entry.ops.zipIdx,
    op.1.command.modelTag ∈ sensor.supportedCommands p.device ∧ operation = s.operation table p op

/-- The commands of entries are told apart by the paths of their operations, up to the placement. -/
def Labelled (table : LifecycleWorkflow) : Prop :=
  ∀ s ∈ table.sites, ∀ k < s.entry.ops.length,
    '@' ∉ (Origin.shown { source := table.name, path := s.commandPath k }).toList ∧
    ∀ s' ∈ table.sites, ∀ k' < s'.entry.ops.length,
      Origin.shown { source := table.name, path := s.commandPath k } =
        Origin.shown { source := table.name, path := s'.commandPath k' } → s.owner = s'.owner ∧ k = k'

section Operations

variable {table : LifecycleWorkflow} {sensor : BoundSensor} {bs : List Block} {joined : String → List Dependency}
  {sites : List Site} {s : Site} {b : Block} {graph : Graph (Option Operation)}

/-- A step without a deadline has the operation of its command. -/
theorem planned_of_block (of : b.Of sensor s) {op : OpSpec × ℕ} (untimed : op.1.timeoutS = none) :
    planned (b.step table joined op) sensor [] = .ok (some (s.operation table b.target op)) := by
  unfold planned
  dsimp only [Block.step, Block.plain]
  rw [untimed, of.origin]
  rfl

theorem omitted_block {op : OpSpec × ℕ} : (b.step table joined op).omitted sensor = false ↔
    op.1.command.modelTag ∈ sensor.supportedCommands b.target.device := by
  simp [PlannedStep.omitted, Block.step, Block.plain]

/-- **The operations of a graph** are those of its entries. -/
theorem mem_operationsOf (projects : Projects sensor [] [] (blockSteps table joined bs) graph)
    (housed : Housed sensor sites bs) (untimed : ∀ s ∈ sites, ∀ op ∈ s.entry.ops, op.timeoutS = none)
    (operation : Operation) :
    operation ∈ operationsOf graph ↔ ∃ s ∈ sites, s.Dispatches table sensor operation := by
  rw [projects.operationsOf_eq, List.mem_filterMap]
  constructor
  · rintro ⟨step, mem, is⟩
    obtain ⟨listed, stays⟩ := mem_kept.1 mem
    obtain ⟨b, here, k, spec, at_, rfl⟩ := mem_blockSteps.1 listed
    obtain ⟨s, inside, of⟩ := housed.blocks b here
    rw [of.runs] at at_
    rw [planned_of_block of (untimed s inside spec (List.mem_of_getElem? at_))] at is
    exact ⟨s, inside, b.target, of.selects, (spec, k), List.mk_mem_zipIdx_iff_getElem?.2 at_, omitted_block.1 stays,
      (Option.some.inj is).symm⟩
  · rintro ⟨s, inside, p, selects, ⟨spec, k⟩, listed, supported, rfl⟩
    obtain ⟨b, here, of, rfl⟩ := housed.covers s inside p selects
    have at_ := List.mk_mem_zipIdx_iff_getElem?.1 listed
    refine ⟨b.step table joined (spec, k), mem_kept.2 ⟨mem_blockSteps.2 ⟨b, here, k, spec, ?_, rfl⟩, omitted_block.2 supported⟩, ?_⟩
    · rw [of.runs]
      exact at_
    · rw [planned_of_block of (untimed s inside spec (List.mem_of_getElem? at_))]
      rfl

/-- The id of a step's operation. -/
def PlannedStep.operationId (step : PlannedStep) : String :=
  step.origin.shown ++ "@" ++ (step.target.map Placement.device).getD ""

theorem operationId_of_block (of : b.Of sensor s) (op : OpSpec × ℕ) : (b.step table joined op).operationId =
    Origin.shown { source := table.name, path := s.commandPath op.2 } ++ "@" ++ b.target.device := by
  unfold PlannedStep.operationId
  dsimp only [Block.step, Block.plain]
  rw [of.origin]
  rfl

/-- An id says the label and the device. -/
theorem id_inj {label label' device device' : String} (fresh : '@' ∉ label.toList) (fresh' : '@' ∉ label'.toList)
    (same : label ++ "@" ++ device = label' ++ "@" ++ device') : label = label' ∧ device = device' := by
  have lists := congrArg String.toList same
  have at_ : "@".toList = ['@'] := rfl
  simp only [String.toList_append, at_, List.append_assoc, List.singleton_append] at lists
  obtain ⟨labels, devices⟩ := eq_of_append_cons lists fresh fresh'
  exact ⟨String.toList_injective labels, String.toList_injective devices⟩

/-- **Operations are told apart** by their ids. -/
theorem operations_nodup (projects : Projects sensor [] [] (blockSteps table joined bs) graph)
    (housed : Housed sensor table.sites bs) (spread : Spread bs) (labelled : Labelled table)
    (untimed : ∀ s ∈ table.sites, ∀ op ∈ s.entry.ops, op.timeoutS = none)
    (apart : ∀ p ∈ sensor.topology.placements, ∀ q ∈ sensor.topology.placements, p.device = q.device → p = q) :
    ((operationsOf graph).map Operation.id).Nodup := by
  have ids : (operationsOf graph).map Operation.id =
      (kept sensor (blockSteps table joined bs)).map PlannedStep.operationId := by
    rw [projects.operationsOf_eq, List.map_filterMap, ← List.filterMap_eq_map]
    refine List.filterMap_congr fun step mem => ?_
    obtain ⟨b, here, k, spec, at_, rfl⟩ := mem_blockSteps.1 (mem_kept.1 mem).1
    obtain ⟨s, inside, of⟩ := housed.blocks b here
    rw [of.runs] at at_
    rw [planned_of_block of (untimed s inside spec (List.mem_of_getElem? at_)), Function.comp_apply,
      operationId_of_block of]
    rfl
  have all : ((blockSteps table joined bs).map PlannedStep.operationId).Nodup := by
    unfold blockSteps
    rw [List.map_flatMap, List.nodup_flatMap]
    refine ⟨fun b here => ?_, spread.imp_of_mem fun {b b'} here here' other id mem mem' => ?_⟩
    · obtain ⟨s, inside, of⟩ := housed.blocks b here
      have steps : (b.steps table joined).map PlannedStep.operationId = s.entry.ops.zipIdx.map fun op =>
          Origin.shown { source := table.name, path := s.commandPath op.2 } ++ "@" ++ b.target.device := by
        unfold Block.steps
        rw [List.map_map, of.runs]
        exact List.map_congr_left fun op _ => operationId_of_block of op
      rw [steps]
      refine nodup_zipIdx_map (f := fun k => Origin.shown { source := table.name, path := s.commandPath k } ++ "@" ++ b.target.device)
        fun k lt k' lt' same => ?_
      obtain ⟨fresh, told⟩ := labelled s inside k lt
      obtain ⟨label, -⟩ := id_inj fresh (labelled s inside k' lt').1 same
      exact (told s inside k' lt' label).2
    · have label {b : Block} (here : b ∈ bs) (mem : id ∈ (b.steps table joined).map PlannedStep.operationId) :
          ∃ s ∈ table.sites, b.Of sensor s ∧ ∃ k < s.entry.ops.length,
            id = Origin.shown { source := table.name, path := s.commandPath k } ++ "@" ++ b.target.device := by
        obtain ⟨s, inside, of⟩ := housed.blocks b here
        obtain ⟨step, listed, rfl⟩ := List.mem_map.1 mem
        obtain ⟨op, at_, rfl⟩ := List.mem_map.1 listed
        exact ⟨s, inside, of, op.2, of.runs ▸ b.lt_of_mem at_, operationId_of_block of op⟩
      obtain ⟨s, inside, of, k, lt, rfl⟩ := label here mem
      obtain ⟨s', inside', of', k', lt', same⟩ := label here' mem'
      obtain ⟨fresh, told⟩ := labelled s inside k lt
      obtain ⟨labels, device⟩ := id_inj fresh (labelled s' inside' k' lt').1 same
      have group : b.group = b'.group := by
        rw [of.group, of'.group]
        exact (told s' inside' k' lt' labels).1
      exact other group (apart _ (placed_of_selects of.selects) _ (placed_of_selects of'.selects) device)
  rw [ids]
  exact (List.filter_sublist.map PlannedStep.operationId).nodup all

end Operations

/-! ## Compilation -/

/-- A cleanup is armed by the operations of the entries of the main graph that have its ids, or else always. -/
def ArmedBy (table : LifecycleWorkflow) (sensor : BoundSensor) (ids : Option (List String))
    (armed : Option (List Operation)) : Prop :=
  match ids, armed with
  | none, none => True
  | some ids, some operations => ∀ operation, operation ∈ operations ↔
      ∃ s ∈ table.sites, (∃ id ∈ ids, s.entry.id = some id) ∧ s.Dispatches table sensor operation
  | _, _ => False

section Compilation

variable {table : LifecycleWorkflow} {sensor : BoundSensor} {bs : List Block} {joined : String → List Dependency}
  {sites : List Site} {s : Site} {graph : Graph (Option Operation)} {operations : Dict String Operation}
  {omissions : List Omission} {spec : CleanupSpec} {plan : CleanupPlan}

theorem Plain.site (plain : Plain table sensor) (mem : s ∈ table.sites) :
    s.entry.require = [] ∧ ∀ op ∈ s.entry.ops, op.unsupported = .omit ∧ op.timeoutS = none := by
  obtain ⟨phase, listed, here⟩ := List.mem_flatMap.1 mem
  obtain ⟨⟨entry, position⟩, there, rfl⟩ := List.mem_map.1 here
  have entries := plain.entries phase listed
  have inside := List.fst_mem_of_mem_zipIdx there
  exact ⟨entries.unrequired entry inside, entries.ops entry inside⟩

theorem Plain.cleanupSite (plain : Plain table sensor) (listed : spec ∈ table.cleanup) (mem : s ∈ spec.sites) :
    s.entry.require = [] ∧ ∀ op ∈ s.entry.ops, op.unsupported = .omit ∧ op.timeoutS = none := by
  obtain ⟨⟨entry, position⟩, there, rfl⟩ := List.mem_map.1 mem
  obtain ⟨entries, -, -⟩ := plain.cleanup spec listed
  have inside := List.fst_mem_of_mem_zipIdx there
  exact ⟨entries.unrequired entry inside, entries.ops entry inside⟩

/-- Where nothing is required, no entry needs itself in a circle. -/
theorem not_cyclic_of_unrequired {called : Site → String → Prop} (unrequired : ∀ s ∈ sites, s.entry.require = []) :
    ¬ Cyclic (Needs sensor sites called) := by
  rintro ⟨x, cycle⟩
  obtain ⟨_, needs, -⟩ := Relation.TransGen.head'_iff.1 cycle
  obtain ⟨clause, asked, -⟩ := needs.asks
  rw [unrequired _ needs.left] at asked
  exact List.not_mem_nil asked

/-- **Arming resolves** to the operations of the named entries. -/
theorem exists_arming (compiled : compile (blockSteps table joined bs) sensor [] [] = .ok (graph, operations, omissions))
    (housed : Housed sensor table.sites bs) (apart : Apart bs)
    (untimed : ∀ s ∈ table.sites, ∀ op ∈ s.entry.ops, op.timeoutS = none)
    (armed : plan.armedBy = spec.armedBy.map fun ids => ids.flatMap fun id => namesWhere bs (·.entry.id = some id)) :
    ∃ armedBy, arming plan (blockSteps table joined bs) operations = .ok armedBy ∧
      ArmedBy table sensor spec.armedBy armedBy := by
  unfold arming
  rw [armed]
  cases spec.armedBy with
  | none => exact ⟨none, rfl, trivial⟩
  | some ids =>
    refine ⟨_, if_pos ?_, fun operation => ?_⟩
    · rw [sorted_eq_nil, List.dedup_eq_nil, List.filter_eq_nil_iff]
      intro n named
      obtain ⟨id, -, named⟩ := List.mem_flatMap.1 named
      obtain ⟨b, here, -, named⟩ := mem_namesWhere.1 named
      obtain ⟨k, lt, rfl⟩ := Block.mem_names.1 named
      have listed : b.name k ∈ (blockSteps table joined bs).map PlannedStep.name :=
        List.mem_map.2 ⟨b.step table joined (b.entry.ops[k], k),
          mem_blockSteps.2 ⟨b, here, k, _, List.getElem?_eq_getElem lt, rfl⟩, rfl⟩
      simpa using listed
    · rw [List.mem_filterMap]
      constructor
      · rintro ⟨n, named, found⟩
        obtain ⟨id, asked, named⟩ := List.mem_flatMap.1 named
        obtain ⟨b, here, has, named⟩ := mem_namesWhere.1 named
        obtain ⟨k, lt, rfl⟩ := Block.mem_names.1 named
        obtain ⟨step, mem, name, is⟩ := (operations_of_compile compiled _ _).1 found
        obtain ⟨listed, stays⟩ := mem_kept.1 mem
        obtain ⟨op, at_⟩ : ∃ op, b.entry.ops[k]? = some op := ⟨_, List.getElem?_eq_getElem lt⟩
        obtain rfl := eq_of_name apart here at_ listed name
        obtain ⟨s, inside, of⟩ := housed.blocks b here
        rw [of.runs] at at_
        rw [planned_of_block of (untimed s inside _ (List.mem_of_getElem? at_))] at is
        refine ⟨s, inside, ⟨id, asked, ?_⟩, b.target, of.selects, _, List.mk_mem_zipIdx_iff_getElem?.2 at_,
          omitted_block.1 stays, (Option.some.inj (Except.ok.inj is)).symm⟩
        rw [← of.runs]
        simpa using has
      · rintro ⟨s, inside, ⟨id, asked, has⟩, p, selects, ⟨op, k⟩, listed, supported, rfl⟩
        obtain ⟨b, here, of, rfl⟩ := housed.covers s inside p selects
        have at_ := List.mk_mem_zipIdx_iff_getElem?.1 listed
        have untimed := untimed s inside op (List.mem_of_getElem? at_)
        rw [← of.runs] at at_
        refine ⟨b.name k, List.mem_flatMap.2 ⟨id, asked, mem_namesWhere.2 ⟨b, here, ?_, ?_⟩⟩,
          (operations_of_compile compiled _ _).2 ⟨b.step table joined (op, k), mem_kept.2 ⟨?_, omitted_block.2 supported⟩,
            rfl, planned_of_block of untimed⟩⟩
        · rw [of.runs]
          simpa using has
        · exact Block.mem_names.2 ⟨k, (List.getElem?_eq_some_iff.1 at_).1, rfl⟩
        · exact mem_blockSteps.2 ⟨b, here, k, op, at_, rfl⟩

/-- The operations of entries without deadlines may take any time. -/
theorem usable_of_dispatches {operations : List Operation}
    (dispatches : ∀ operation ∈ operations, ∃ s ∈ sites, s.Dispatches table sensor operation) : Usable operations := by
  intro operation mem timeout stated
  obtain ⟨s, -, p, -, op, -, -, rfl⟩ := dispatches operation mem
  cases stated

/-- What an entry with one of the ids dispatches is of the main graph. -/
theorem ArmedBy.dispatches {ids : Option (List String)} {armed : Option (List Operation)}
    (h : ArmedBy table sensor ids armed) {operation : Operation} (mem : operation ∈ armed.getD []) :
    ∃ s ∈ table.sites, s.Dispatches table sensor operation := by
  unfold ArmedBy at h
  split at h
  · exact absurd mem List.not_mem_nil
  · obtain ⟨s, inside, -, dispatches⟩ := (h operation).1 mem
    exact ⟨s, inside, dispatches⟩
  · exact h.elim

/-- **A plain table compiles**, with its cleanups, where devices and commands are told apart. -/
theorem Plain.compiles (plain : Plain table sensor) (labelled : Labelled table)
    (devices : ∀ p ∈ sensor.topology.placements, ∀ q ∈ sensor.topology.placements, p.device = q.device → p = q) :
    ∃ workflow, compileLifecycle table sensor [] [] = .ok workflow ∧
      (∀ operation, operation ∈ operationsOf workflow.graph ↔ ∃ s ∈ table.sites, s.Dispatches table sensor operation) ∧
      List.Forall₂ (fun spec cleanup => ArmedBy table sensor spec.armedBy cleanup.armedBy) table.cleanup workflow.cleanup := by
  obtain ⟨c, phases⟩ := plain.exists_compilePhases
  obtain ⟨_, _, laid, -⟩ := laid_of_compilePhases phases
  obtain ⟨c', plans, cleanups⟩ := plain.exists_compileCleanups laid
  obtain ⟨bs, joined, joined', laid, founded, -, spread, -, -, settled, torn⟩ := compiled_spec phases cleanups
  have untimed : ∀ s ∈ table.sites, ∀ op ∈ s.entry.ops, op.timeoutS = none :=
    fun s mem op listed => ((plain.site mem).2 op listed).2
  have lowerable : Lowerable sensor [] [] (blockSteps table joined' bs) := by
    refine lowerable_of_blocks laid.emits.apart (laid.closed founded) fun b here op listed => ?_
    obtain ⟨s, mem, of⟩ := laid.housed.blocks b here
    rw [of.runs] at listed
    exact ((plain.site mem).2 op listed).1
  have acyclic : ¬ Cyclic (Declares (blockSteps table joined' bs)) := by
    rw [cyclic_declares_iff laid.emits.apart (laid.closed founded)]
    intro cyclic
    obtain ⟨b, cycle⟩ := laid.cyclic_asks founded cyclic
    obtain ⟨_, ⟨here, -, clause, asked, -⟩, -⟩ := Relation.TransGen.head'_iff.1 cycle
    obtain ⟨s, mem, of⟩ := laid.housed.blocks b here
    rw [of.runs, (plain.site mem).1] at asked
    exact List.not_mem_nil asked
  obtain ⟨graph, operations, omissions, compiled⟩ := lowerable.compiles acyclic
  have projects := compile_projects compiled
  have main := mem_operationsOf projects laid.housed untimed
  have tears : ∀ plan ∈ plans, ∃ out, tearDown plan (blockSteps table joined' bs) operations sensor [] [] = .ok out := by
    intro plan mem
    obtain ⟨spec, listed, more, joined, tears⟩ := exists_left_of_forall₂ torn mem
    obtain ⟨armedBy, arms, -⟩ := exists_arming compiled laid.housed laid.emits.apart untimed tears.armed
    have lowerable : Lowerable sensor [] [] plan.steps := by
      rw [tears.steps]
      refine lowerable_of_blocks tears.apart tears.closed fun b here op listed' => ?_
      obtain ⟨s, mem, of⟩ := tears.housed.blocks b here
      rw [of.runs] at listed'
      exact ((plain.cleanupSite listed mem).2 op listed').1
    have acyclic : ¬ Cyclic (Declares plan.steps) := by
      rw [tears.cyclic_iff]
      exact not_cyclic_of_unrequired fun s mem => (plain.cleanupSite listed mem).1
    obtain ⟨graph', operations', unbuilt, compiled'⟩ := lowerable.compiles acyclic
    exact ⟨_, bind_eq_ok.2 ⟨_, compiled', bind_eq_ok.2 ⟨armedBy, arms, rfl⟩⟩⟩
  obtain ⟨outs, tornDown⟩ := exists_mapM tears
  have built : List.Forall₂ (fun spec (out : Cleanup × List Omission) => 0 < out.1.timeoutS ∧
      Usable (operationsOf out.1.graph) ∧ ArmedBy table sensor spec.armedBy out.1.armedBy) table.cleanup outs := by
    obtain ⟨length, torn⟩ := List.forall₂_iff_get.1 torn
    obtain ⟨length', downs⟩ := List.forall₂_iff_get.1 (mapM_eq_ok.1 tornDown)
    refine List.forall₂_iff_get.2 ⟨length.trans length', fun i bound bound' => ?_⟩
    have listed := List.get_mem table.cleanup ⟨i, bound⟩
    obtain ⟨more, joined, tears⟩ := torn i bound (by omega)
    have down := downs i (by omega) bound'
    unfold tearDown at down
    simp only [bind_eq_ok, pure_eq_ok] at down
    obtain ⟨⟨graph', operations', unbuilt⟩, compiled', armedBy, arms, is⟩ := down
    obtain ⟨armedBy', arms', armed⟩ := exists_arming compiled laid.housed laid.emits.apart untimed tears.armed
    cases arms.symm.trans arms'
    rw [← is]
    refine ⟨?_, ?_, armed⟩
    · dsimp only
      rw [tears.timeout]
      exact (plain.cleanup _ listed).2.1
    · rw [tears.steps] at compiled'
      have inside := mem_operationsOf (compile_projects compiled') tears.housed fun s mem op listed' =>
        ((plain.cleanupSite listed mem).2 op listed').2
      exact usable_of_dispatches fun operation mem => (inside operation).1 mem
  refine ⟨{ name := table.name, graph, cleanup := outs.map Prod.fst, omissions := omissions ++ outs.flatMap Prod.snd }, ?_, main, ?_⟩
  · rw [compileLifecycle_eq_lower phases cleanups, settled]
    refine bind_eq_ok.2 ⟨_, compiled, bind_eq_ok.2 ⟨outs, tornDown, bind_eq_ok.2 ⟨(), validated_eq_ok ?_ ?_ ?_, rfl⟩⟩⟩
    · exact operations_nodup projects laid.housed spread labelled untimed devices
    · exact usable_of_dispatches fun operation mem => (main operation).1 mem
    · intro cleanup mem
      obtain ⟨out, listed, rfl⟩ := List.mem_map.1 mem
      obtain ⟨spec, -, positive, usable, armed⟩ := exists_left_of_forall₂ built listed
      exact ⟨positive, usable, fun operation mem => (main operation).2 (armed.dispatches mem)⟩
  · exact List.forall₂_map_right_iff.2 (built.imp fun _ _ h => h.2.2)

end Compilation

end SensorKit.Sensor
