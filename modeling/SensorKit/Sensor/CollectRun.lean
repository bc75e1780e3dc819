import SensorKit.Sensor.CollectPlan
import SensorKit.Sensor.Lowering

/-!
# Runs of a compiled collect

The settings of a placement are its writers, and the captures of an instrument are readers of each
placement on its chain. The dependencies of a compiled collect make a plan of readers and writers, of which
every moment of a run is a snapshot. So devices are used exclusively, and a capture is taken under the
settings of its epoch.
-/

namespace SensorKit.Sensor

open Lib Common PlannedStep

variable {collect : BoundCollect} {sensor : BoundSensor} {deadlines : List DeadlineRule} {steps : List PlannedStep}
  {graph : Graph (Option Operation)}

/-- The step at the index is a setting or a preparation of the placement. -/
def WritesAt (steps : List PlannedStep) (n : ℕ) (p : Placement) : Prop :=
  ∃ s, steps[n]? = some s ∧ s.writes p = true

/-- The step at the index is a capture of the instrument. -/
def ReadsAt (steps : List PlannedStep) (n : ℕ) (i : Placement) : Prop :=
  ∃ s, steps[n]? = some s ∧ s.reads i = true

/-- The graph of the steps of a collect. -/
structure CollectGraph (collect : BoundCollect) (sensor : BoundSensor) (deadlines : List DeadlineRule)
    (steps : List PlannedStep) (graph : Graph (Option Operation)) : Prop where
  projects : Projects sensor deadlines [] steps graph
  traced : Traced (Emitted collect sensor) steps
  kept : ∀ step ∈ steps, step.omitted sensor = false

namespace CollectGraph

variable {n m : ℕ} {p i : Placement}

section

variable (h : CollectGraph collect sensor deadlines steps graph)
include h

/-- The last of the earlier steps of a kind is waited for, as the step declares. -/
theorem dep_last {q : PlannedStep → Bool} {s x : PlannedStep} (here : steps[n]? = some s) (there : steps[m]? = some x)
    (test : q x = true) (lt : m < n) (waits : ∀ l, lastOf q (steps.take n) = some l → ∃ dep ∈ s.deps, dep.on = l.name) :
    ∃ k l, m ≤ k ∧ k < n ∧ steps[k]? = some l ∧ q l = true ∧ k ∈ graph.deps n := by
  obtain ⟨k, l, le, before, at_, test', last⟩ := exists_lastOf_take lt there test
  exact ⟨k, l, le, before, at_, test', (h.projects.deps_iff h.kept).2 ⟨s, l, here, at_, waits l last⟩⟩

/-- What a capture requires is what it needs. -/
theorem hard_iff {s : PlannedStep} (here : steps[n]? = some s) (reader : s.reads i = true) : m ∈ graph.hard n ↔
      ∃ l, steps[m]? = some l ∧ Needed sensor.topology (steps.take n) i l.name := by
  have requires := ((h.traced n s here).capture i reader).requires
  rw [h.projects.hard_iff h.kept]
  constructor
  · rintro ⟨s', l, here', there, required⟩
    cases here.symm.trans here'
    exact ⟨l, there, (requires l.name).1 required⟩
  · rintro ⟨l, there, needed⟩
    exact ⟨s, l, here, there, (requires l.name).2 needed⟩

/-- A step of the prefix under the name of a step is that step. -/
theorem index_eq {l l' : PlannedStep} {k : ℕ} (here : steps[k]? = some l) (there : steps[m]? = some l')
    (name : l.name = l'.name) : k = m ∧ l = l' := by
  have names := h.projects.names
  have at_ : (steps.map PlannedStep.name)[k]? = some l'.name := by simp [here, name]
  have at' : (steps.map PlannedStep.name)[m]? = some l'.name := by simp [there]
  have bound := (List.getElem?_eq_some_iff.1 at_).1
  obtain rfl := (List.getElem?_inj bound names).1 (at_.trans at'.symm)
  exact ⟨rfl, Option.some.inj (here.symm.trans there)⟩

/-- A needed step is a setting on the chain, and is needed by each later capture until another setting of
its key, or is a preparation. -/
theorem needed_cases {l : PlannedStep} (there : steps[m]? = some l)
    (needed : Needed sensor.topology (steps.take n) i l.name) :
    m < n ∧ ∃ p, l.writes p = true ∧ sensor.topology.OnChain i p ∧
      ∀ k, m < k → k ≤ n → Needed sensor.topology (steps.take k) i l.name := by
  rcases needed with ⟨key, l', on, last, name⟩ | ⟨p, l', mem, prepares, writer, on, name⟩
  · obtain ⟨k, before, here, sets, rest⟩ := of_lastOf_take last
    obtain ⟨rfl, rfl⟩ := h.index_eq here there name
    refine ⟨before, key.1, (sets_iff.1 sets).1, on, fun k' after le => .inl ⟨key, l', on, ?_, name⟩⟩
    obtain ⟨k₁, l₁, le₁, before₁, here₁, sets₁, last₁⟩ := exists_lastOf_take after here sets
    rcases le₁.eq_or_lt with rfl | lt
    · cases here.symm.trans here₁
      exact last₁
    · simp [rest k₁ l₁ lt (by omega) here₁] at sets₁
  · obtain ⟨k, here⟩ := List.mem_iff_getElem?.1 mem
    have before : k < n := by
      have bound := (List.getElem?_eq_some_iff.1 here).1
      rw [List.length_take] at bound
      omega
    rw [List.getElem?_take_of_lt before] at here
    obtain ⟨rfl, rfl⟩ := h.index_eq here there name
    refine ⟨before, p, writer, on, fun k' after _ => .inr ⟨p, l', ?_, prepares, writer, on, name⟩⟩
    exact List.mem_iff_getElem?.2 ⟨k, (List.getElem?_take_of_lt after).trans here⟩

/-- **A compiled collect is a plan of readers and writers.** -/
theorem plan :
    ReadersWriters.Plan (WritesAt steps) (ReadsAt steps) sensor.topology.OnChain (fun n d => d ∈ graph.deps n)
      fun n d => d ∈ graph.hard n := by
  have setting {n : ℕ} {s : PlannedStep} {p : Placement} (here : steps[n]? = some s) (writer : s.writes p = true) :=
    (h.traced n s here).setting (writes_iff.1 writer).1
  have capture {n : ℕ} {s : PlannedStep} {i : Placement} (here : steps[n]? = some s) (reader : s.reads i = true) :=
    (h.traced n s here).capture i reader
  have after_capture {n m : ℕ} {s x : PlannedStep} {p i : Placement} (here : steps[n]? = some s)
      (writer : s.writes p = true) (used : sensor.topology.OnChain i p) (there : steps[m]? = some x)
      (reader : x.reads i = true) (lt : m < n) : ∃ l, ReadsAt steps l i ∧ m ≤ l ∧ l < n ∧ l ∈ graph.deps n := by
    obtain ⟨k, l, le, before, at_, test, waits⟩ := h.dep_last here there reader lt
      fun l => (setting here writer).after_capture p i l writer used
    exact ⟨k, ⟨l, at_, test⟩, le, before, waits⟩
  constructor
  case writer_free =>
    rintro n p d ⟨s, here, writer⟩ required
    obtain ⟨s', l, here', there, dep, listed, on, success⟩ := (h.projects.hard_iff h.kept).1 required
    cases here.symm.trans here'
    simp [(setting here writer).free dep listed] at success
  case writer_writer =>
    rintro n m p ⟨s, here, writer⟩ ⟨x, there, earlier⟩ lt
    obtain ⟨k, l, le, before, at_, test, waits⟩ := h.dep_last here there earlier lt
      fun l => (setting here writer).after_setting p l writer
    exact ⟨k, ⟨l, at_, test⟩, le, before, waits⟩
  case writer_reader =>
    rintro n m p i ⟨s, here, writer⟩ used ⟨x, there, reader⟩ lt
    exact after_capture here writer used there reader lt
  case reader_reader =>
    rintro n m i ⟨s, here, reader⟩ ⟨x, there, earlier⟩ lt
    obtain ⟨k, l, le, before, at_, test, waits⟩ := h.dep_last here there earlier lt (capture here reader).after_capture
    exact ⟨k, ⟨l, at_, test⟩, le, before, waits⟩
  case reader_writer =>
    rintro n m p i ⟨s, here, reader⟩ used ⟨x, there, writer⟩ lt
    obtain ⟨command, commanded⟩ := Option.isSome_iff_exists.1 ((setting there writer).commanded p writer)
    have sets : x.sets (p, command.commandType) = true := sets_iff.2 ⟨writer, command, commanded, rfl⟩
    obtain ⟨k, l, le, before, at_, test, last⟩ := exists_lastOf_take lt there sets
    refine ⟨k, ⟨l, at_, (sets_iff.1 test).1⟩, le, before, (h.hard_iff here reader).2 ⟨l, at_, .inl ?_⟩⟩
    exact ⟨_, l, used, last, rfl⟩
  case reader_requires =>
    rintro n i d ⟨s, here, reader⟩ required
    obtain ⟨l, there, needed⟩ := (h.hard_iff here reader).1 required
    obtain ⟨-, p, writer, -, -⟩ := h.needed_cases there needed
    exact ⟨p, l, there, writer⟩
  case reader_shares =>
    rintro n m i d ⟨s, here, reader⟩ ⟨x, there, earlier⟩ lt required
    obtain ⟨l, at_, needed⟩ := (h.hard_iff here reader).1 required
    obtain ⟨before, p, writer, used, still⟩ := h.needed_cases at_ needed
    rcases Nat.lt_trichotomy d m with lt' | rfl | lt'
    · exact .inl ((h.hard_iff there earlier).2 ⟨l, at_, still m lt' lt.le⟩)
    · cases there.symm.trans at_
      simp [not_reads_of_writes writer] at earlier
    · obtain ⟨k, reads, le, lt'', waits⟩ := after_capture at_ writer used there earlier lt'
      exact .inr ⟨k, reads, le, by omega, waits⟩

end

/-! ## Moments of a run -/

/-- The step of an operation. -/
structure StepOf (op : Operation) (step : PlannedStep) : Prop where
  target : step.target = some op.target
  command : step.command = some op.command
  acquisition : step.acquisition = op.acquisition
  origin : step.origin = op.origin

theorem stepOf_of_planned {step : PlannedStep} {op : Operation} (h : planned step sensor deadlines = .ok (some op)) :
    StepOf op step := by
  unfold planned at h
  split at h
  · rename_i command target hc ht
    simp only [bind_eq_ok, pure_eq_ok] at h
    obtain ⟨timeout, -, h⟩ := h
    cases h
    exact ⟨ht, hc, rfl, rfl⟩
  · simp at h

variable {node : Node (Option Operation)} {op : Operation}

theorem step_of_op (h : CollectGraph collect sensor deadlines steps graph) (found : graph.node n = some node)
    (payload : node.payload = some op) : ∃ step, steps[n]? = some step ∧ StepOf op step := by
  obtain ⟨mem, rfl⟩ := Graph.node_mem found
  obtain ⟨step, here, nodeOf⟩ := h.projects.step_of h.kept mem
  exact ⟨step, here, stepOf_of_planned (payload ▸ nodeOf.payload)⟩

/-- A node is not overridden, and does not go on after a failure. -/
theorem node_policy (h : CollectGraph collect sensor deadlines steps graph) (mem : node ∈ graph.nodes) :
    node.override = none ∧ node.onFailure ≠ .continue :=
  h.projects.policy mem

variable {e : Execution (Option Operation)}

/-- **Every moment of a run is a snapshot.** -/
theorem snapshot (h : CollectGraph collect sensor deadlines steps graph) (live : Execution.Live graph e) :
    ReadersWriters.Snapshot (fun n d => d ∈ graph.deps n) (fun n d => d ∈ graph.hard n) e.state.Resolved e.state.Failed
      e.state.Ran e.state.Running :=
  h.projects.snapshot live

end CollectGraph

/-! ## Device exclusivity -/

/-- The node holds the operation. -/
def OpAt (g : Graph (Option Operation)) (n : ℕ) (op : Operation) : Prop :=
  ∃ node, g.node n = some node ∧ node.payload = some op

/-- The operation of the node is in flight. -/
def OpInFlight (g : Graph (Option Operation)) (e : Execution (Option Operation)) (n : ℕ) (op : Operation) : Prop :=
  e.state.InFlight n ∧ OpAt g n op

/-- At this moment of a run, no two operations disturb each other. -/
structure DevicesExclusive (t : Topology) (g : Graph (Option Operation)) (e : Execution (Option Operation)) : Prop where
  /-- One setting or preparation of a device is in flight. -/
  settings : ∀ n m a b, OpInFlight g e n a → OpInFlight g e m b → a.acquisition = none → b.acquisition = none →
    a.target.device = b.target.device → n = m
  /-- One capture of an instrument is in flight. -/
  captures : ∀ n m a b, OpInFlight g e n a → OpInFlight g e m b → a.acquisition.isSome = true →
    b.acquisition.isSome = true → a.target.device = b.target.device → n = m
  /-- No setting or preparation is in flight on the chain of an instrument beside a capture of it. -/
  apart : ∀ n m a b, OpInFlight g e n a → OpInFlight g e m b → a.acquisition = none →
    b.acquisition.isSome = true → ¬ t.OnChain b.target a.target

/-- The main graph of a packed collect is that of the steps emitted, of which none is omitted. -/
theorem projects_of_compile {intent : CollectIntent} {keywords : Option (Dict String (Dict String Keyword))}
    {rules : List OperatorRule} {workflow : ExecutableWorkflow} (packs : pack intent sensor keywords = .ok collect)
    (compiles : compileCollect collect sensor deadlines rules = .ok workflow) :
    ∃ c, CollectCompiler.emission collect sensor = .ok c ∧ Projects sensor deadlines rules c.steps workflow.graph ∧
      Traced (Emitted collect sensor) c.steps ∧ ∀ step ∈ c.steps, step.omitted sensor = false := by
  simp only [compileCollect, bind_eq_ok] at compiles
  obtain ⟨c, emits, lowers⟩ := compiles
  obtain ⟨prepare, packed⟩ := packed_of_pack packs
  have traced := CollectCompiler.traced_of_emission prepare packed emits
  refine ⟨c, emits, (lower_projects lowers).1, traced, fun step mem => ?_⟩
  obtain ⟨n, here⟩ := List.mem_iff_getElem?.1 mem
  have strict := (traced n step here).strict
  by_contra out
  simp [omit_of_lower lowers step mem (by simpa using out)] at strict

theorem collectGraph_of_compile {intent : CollectIntent} {keywords : Option (Dict String (Dict String Keyword))}
    {workflow : ExecutableWorkflow} (packs : pack intent sensor keywords = .ok collect)
    (compiles : compileCollect collect sensor deadlines [] = .ok workflow) :
    ∃ steps, CollectGraph collect sensor deadlines steps workflow.graph := by
  obtain ⟨c, -, projects, traced, kept⟩ := projects_of_compile packs compiles
  exact ⟨c.steps, projects, traced, kept⟩

namespace CollectGraph

variable {e : Execution (Option Operation)} {n : ℕ} {op : Operation}

/-- An operation in flight is a step that is active, of an instrument or of a placement on a chain. -/
theorem active_of_inFlight (h : CollectGraph collect sensor deadlines steps graph) (flight : OpInFlight graph e n op) :
    e.state.Running n ∧ (op.acquisition = none → WritesAt steps n op.target ∧ ∃ q, sensor.topology.OnChain q op.target) ∧
      (op.acquisition.isSome = true → ReadsAt steps n op.target ∧ sensor.topology.OnChain op.target op.target) := by
  obtain ⟨flight, node, found, payload⟩ := flight
  obtain ⟨step, here, stepOf⟩ := h.step_of_op found payload
  refine ⟨Execution.running_of_inFlight flight, fun none => ?_, fun some_ => ?_⟩
  · have writer : step.writes op.target = true := writes_iff.2 ⟨stepOf.acquisition.trans none, stepOf.target⟩
    exact ⟨⟨step, here, writer⟩, ((h.traced n step here).setting (writes_iff.1 writer).1).on_chain _ writer⟩
  · have reader : step.reads op.target = true := reads_iff.2 ⟨by rw [stepOf.acquisition, some_], stepOf.target⟩
    obtain ⟨chain, found⟩ := ((h.traced n step here).capture _ reader).chain
    exact ⟨⟨step, here, reader⟩, chain, found, sensor.topology.own_chain _ chain found⟩

end CollectGraph

/-- **Device exclusivity.** In every moment of every run of the main graph of a compiled collect, however its
operations end and in whatever order, no two settings are in flight on one device, no two captures on one
instrument, and no setting on the chain of an instrument beside a capture of it. -/
theorem devicesExclusive {intent : CollectIntent} {keywords : Option (Dict String (Dict String Keyword))}
    {workflow : ExecutableWorkflow} {e : Execution (Option Operation)} (packs : pack intent sensor keywords = .ok collect)
    (compiles : compileCollect collect sensor deadlines [] = .ok workflow)
    (run : Reaches Execution.step always (Execution.start workflow.graph) e) :
    DevicesExclusive sensor.topology workflow.graph e := by
  obtain ⟨steps, h⟩ := collectGraph_of_compile packs compiles
  have valid := h.projects.valid
  have same {p q i j : Placement} := sensor.topology.eq_of_device (p := p) (q := q) (i := i) (j := j)
  rcases Execution.live_of_reaches valid.ids valid.hard_deps run with live | done
  · have snapshot := h.snapshot live
    refine ⟨fun n m a b ha hb na nb device => ?_, fun n m a b ha hb sa sb device => ?_,
      fun n m a b ha hb na sb used => ?_⟩
    · obtain ⟨an, setting, -⟩ := h.active_of_inFlight ha
      obtain ⟨am, setting', -⟩ := h.active_of_inFlight hb
      obtain ⟨writes, q, on⟩ := setting na
      obtain ⟨writes', q', on'⟩ := setting' nb
      rw [same on on' device] at writes
      exact snapshot.writers_exclusive h.plan writes writes' an am
    · obtain ⟨an, -, capture⟩ := h.active_of_inFlight ha
      obtain ⟨am, -, capture'⟩ := h.active_of_inFlight hb
      obtain ⟨reads, on⟩ := capture sa
      obtain ⟨reads', on'⟩ := capture' sb
      rw [same on on' device] at reads
      exact snapshot.readers_exclusive h.plan reads reads' an am
    · obtain ⟨an, setting, -⟩ := h.active_of_inFlight ha
      obtain ⟨am, -, capture⟩ := h.active_of_inFlight hb
      have ne : n ≠ m := by
        rintro rfl
        obtain ⟨step, here, writer⟩ := (setting na).1
        obtain ⟨step', here', reader⟩ := (capture sb).1
        cases here.symm.trans here'
        simp [not_reads_of_writes writer] at reader
      exact snapshot.writer_excludes_reader h.plan (setting na).1 (capture sb).1 used ne an am
  · have idle {n : ℕ} {op : Operation} (flight : OpInFlight workflow.graph e n op) : False := done.idle n flight.1
    exact ⟨fun n m a b ha => (idle ha).elim, fun n m a b ha => (idle ha).elim, fun n m a b ha => (idle ha).elim⟩

/-- A camera behind a filter wheel. -/
def imager : BoundSensor where
  topology := (Topology.build [.device { device := "wheel" },
    .device { device := "camera", «instrument» := true }]).toOption.getD stopOnly.topology
  details := .ofList [("wheel", { supportedCommands := ["SelectFilter"] }),
    ("camera", { supportedCommands := ["CameraCapture"] })]

/-- Two frames of the camera under one setting. -/
def twoFrames (command : DeviceCommand) : CollectIntent where
  name := "survey"
  epochs := [{ units := [{ id := "field", acquisition := ⟨1, none⟩, count := 2 }], settings := [{ command }] }]

def selectFilter : DeviceCommand := ⟨⟨"SelectFilter", none⟩, [("position", .text "red")]⟩

theorem devicesExclusive_example : ∃ collect workflow e, pack (twoFrames selectFilter) imager none = .ok collect ∧
    compileCollect collect imager [] [] = .ok workflow ∧
    exec Execution.step (Execution.start workflow.graph) [.dispatch 0, .ends 0 .ok, .wake, .dispatch 1] = some e ∧
    DevicesExclusive imager.topology workflow.graph e := by
  obtain ⟨e, found⟩ : ∃ e, ((pack (twoFrames selectFilter) imager none).toOption.bind fun collect =>
      (compileCollect collect imager [] []).toOption.bind fun workflow =>
        exec Execution.step (Execution.start workflow.graph) [.dispatch 0, .ends 0 .ok, .wake, .dispatch 1]) = some e :=
    Option.isSome_iff_exists.1 (by decide +kernel)
  obtain ⟨collect, packs, found⟩ := Option.bind_eq_some_iff.1 found
  obtain ⟨workflow, compiles, run⟩ := Option.bind_eq_some_iff.1 found
  have packs := toOption_eq_some.1 packs
  have compiles := toOption_eq_some.1 compiles
  exact ⟨collect, workflow, e, packs, compiles, run,
    devicesExclusive packs compiles (reaches_of_exec run okAlong_always)⟩

end SensorKit.Sensor
