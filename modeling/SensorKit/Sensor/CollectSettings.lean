import SensorKit.Sensor.CollectRun

/-!
# The settings of a capture

While a capture is in flight, each setting of its epoch that lies on its chain is in effect: the latest
operation of its placement and command type is one with its command, and has succeeded. All preparation on
the chain has succeeded as well.
-/

namespace SensorKit.Sensor

open Lib Common PlannedStep

/-- The operation of the node is a command of the type for the placement. -/
def Commands (g : Graph (Option Operation)) (n : ℕ) (k : Placement × CommandType) : Prop :=
  ∃ op, OpAt g n op ∧ (op.target, op.command.commandType) = k

/-- The node is the latest one dispatched with a command of the type for the placement. -/
def Latest (g : Graph (Option Operation)) (dispatched : List ℕ) (k : Placement × CommandType) (m : ℕ) : Prop :=
  ∃ before after, dispatched = before ++ m :: after ∧ Commands g m k ∧ ∀ x ∈ after, ¬ Commands g x k

/-- The node has ended successfully. -/
def Succeeded (e : Execution (Option Operation)) (m : ℕ) : Prop :=
  ∃ r, e.state.results m = some r ∧ r.status = .ok

/-- The setting is in effect at this moment, by the operation of the node. -/
structure InEffect (g : Graph (Option Operation)) (e : Execution (Option Operation)) (r : RoutedCommand) (m : ℕ) :
    Prop where
  latest : Latest g e.dispatched r.governs m
  command : ∃ op, OpAt g m op ∧ op.command = r.command
  succeeded : Succeeded e m

/-- In every run, the capture is taken under the settings of its epoch on its chain, of those that are
covered, and after the preparation there. -/
structure CaptureUnder (collect : BoundCollect) (sensor : BoundSensor) (g : Graph (Option Operation))
    (covered : RoutedCommand → Prop) (n : ℕ) (op : Operation) (epoch : ℕ) : Prop where
  /-- One operation has put the setting into effect from before the capture is dispatched until it ends, and
  no other command of that type starts. -/
  settings : ∀ r, SettingOf collect sensor epoch r → sensor.topology.OnChain op.target r.target → covered r →
    ∃ m, ∀ e, Reaches Execution.step always (Execution.start g) e → e.state.InFlight n →
      InEffect g e r m ∧ ∀ x f, e.step (.dispatch x) = some f → x ≠ n → ¬ Commands g x r.governs
  prepared : ∀ e, Reaches Execution.step always (Execution.start g) e → e.state.InFlight n → ∀ m op', OpAt g m op' →
    op'.origin.path.head? = some (.name "prepare") → sensor.topology.OnChain op.target op'.target → Succeeded e m

/-- The setting is a command of the captures' own type, for the instrument of the capture. -/
def OwnType (op : Operation) (r : RoutedCommand) : Prop :=
  r.target = op.target ∧ r.command.commandType = op.command.commandType

variable {collect : BoundCollect} {sensor : BoundSensor} {deadlines : List DeadlineRule} {steps : List PlannedStep}
  {graph : Graph (Option Operation)} {e f : Execution (Option Operation)} {n m : ℕ} {i p : Placement} {op : Operation}
  {s l : PlannedStep}

namespace CollectGraph

section

variable (h : CollectGraph collect sensor deadlines steps graph)
include h

/-- The operation of a step. -/
theorem op_of_step (here : steps[n]? = some s) {command : DeviceCommand} (target : s.target = some p)
    (commanded : s.command = some command) : ∃ op, OpAt graph n op ∧ StepOf op s := by
  obtain ⟨node, mem, rfl, nodeOf⟩ := h.projects.node_at h.kept here
  have payload := nodeOf.payload
  simp only [planned, commanded, target, bind_eq_ok, pure_eq_ok] at payload
  obtain ⟨timeout, -, payload⟩ := payload
  exact ⟨_, ⟨node, Graph.node_eq_some h.projects.valid.ids mem, payload.symm⟩, target, commanded, rfl, rfl⟩

/-- What a node requires has succeeded when it is in flight. -/
theorem succeeded_of_hard (live : Execution.Live graph e) (running : e.state.Running n) (hard : m ∈ graph.hard n) :
    Succeeded e m := by
  obtain ⟨⟨r, result⟩, unfailed⟩ := (h.snapshot live).required (.inr running) hard
  refine ⟨r, result, ?_⟩
  by_contra bad
  refine unfailed ⟨r, result, RunState.blocks_iff.2 ⟨bad, fun node found => ?_⟩⟩
  rw [live.graph] at found
  exact (h.node_policy (Graph.node_mem found).1).2

/-- The settings of a placement are dispatched in their order. -/
theorem dispatched_ordered (run : Reaches Execution.step always (Execution.start graph) e) :
    e.dispatched.Pairwise fun a b => ∀ p, WritesAt steps a p → WritesAt steps b p → a < b := by
  have valid := h.projects.valid
  refine Execution.dispatched_pairwise valid.ids valid.hard_deps (fun e b live created a called p wa wb => ?_) run
  have snapshot := h.snapshot live
  have running : e.state.Running b := ⟨_, created⟩
  rcases Nat.lt_trichotomy a b with lt | rfl | lt
  · exact lt
  · rcases live.called a called with ⟨r, result, -⟩ | ⟨task, running', awake⟩
    · exact absurd ⟨r, result⟩ (snapshot.active_open running)
    · exact absurd (Option.some.inj (running'.symm.trans created)) awake
  · have going : e.state.Ran a ∨ e.state.Running a :=
      (live.called a called).imp_right fun ⟨task, running, _⟩ => ⟨task, running⟩
    exact absurd (snapshot.writer_resolved h.plan wa going wb lt) (snapshot.active_open running)

/-- A command for the key is a setting, or a capture of an instrument at the placement. -/
theorem commands_cases {k : Placement × CommandType} (commands : Commands graph n k) :
    ∃ s, steps[n]? = some s ∧ (s.sets k = true ∨
      s.reads k.1 = true ∧ ∃ time, (DeviceCommand.cameraCapture time).commandType = k.2) := by
  obtain ⟨op, ⟨node, found, payload⟩, rfl⟩ := commands
  obtain ⟨s, here, stepOf⟩ := h.step_of_op found payload
  refine ⟨s, here, ?_⟩
  cases kind : s.acquisition with
  | none => exact .inl (sets_iff.2 ⟨writes_iff.2 ⟨kind, stepOf.target⟩, op.command, stepOf.command, rfl⟩)
  | some a =>
    have reader : s.reads op.target = true := reads_iff.2 ⟨by rw [kind]; rfl, stepOf.target⟩
    obtain ⟨time, command⟩ := ((h.traced n s here).capture _ reader).command
    have same := Option.some.inj (stepOf.command.symm.trans command)
    exact .inr ⟨reader, time, congrArg DeviceCommand.commandType same.symm⟩

/-- **A setting that a capture requires is in effect** while the capture is in flight, if it is the last one
of its key before the capture, and no capture is a command for its key. -/
theorem inEffect {r : RoutedCommand} (here : steps[n]? = some s) (reader : s.reads i = true)
    (on : sensor.topology.OnChain i r.target) (there : steps[m]? = some l) (sets : l.sets r.governs = true)
    (command : l.command = some r.command) (lt : m < n) (hard : m ∈ graph.hard n)
    (last : ∀ k x, m < k → k < n → steps[k]? = some x → x.sets r.governs = false)
    (own : ¬ (r.target = i ∧ ∃ time, (DeviceCommand.cameraCapture time).commandType = r.command.commandType))
    (run : Reaches Execution.step always (Execution.start graph) e) (flight : e.state.InFlight n) :
    InEffect graph e r m := by
  have live := Execution.live_of_inFlight h.projects.valid.ids h.projects.valid.hard_deps run flight
  have snapshot := h.snapshot live
  have running := Execution.running_of_inFlight flight
  have succeeded := h.succeeded_of_hard live running hard
  have writer : WritesAt steps m r.target := ⟨l, there, (sets_iff.1 sets).1⟩
  have ran : e.state.Ran m := by
    obtain ⟨result, found, -⟩ := succeeded
    exact snapshot.writer_ran h.plan writer ⟨result, found⟩
  obtain ⟨op, opAt, stepOf⟩ := h.op_of_step there (writes_iff.1 (sets_iff.1 sets).1).2 command
  have same : op.command = r.command := Option.some.inj (stepOf.command.symm.trans command)
  have target : op.target = r.target :=
    Option.some.inj (stepOf.target.symm.trans (writes_iff.1 (sets_iff.1 sets).1).2)
  refine ⟨?_, ⟨op, opAt, same⟩, succeeded⟩
  obtain ⟨before, after, log⟩ := List.append_of_mem (live.ran m ran)
  refine ⟨before, after, log, ⟨op, opAt, by rw [target, same]; rfl⟩, fun x mem commands => ?_⟩
  have called : x ∈ e.dispatched := by simp [log, mem]
  obtain ⟨s', at_, setting | ⟨capture, time, type⟩⟩ := h.commands_cases commands
  · have writer' : WritesAt steps x r.target := ⟨s', at_, (sets_iff.1 setting).1⟩
    have later : m < x := by
      have ordered := h.dispatched_ordered run
      rw [log] at ordered
      exact List.rel_of_pairwise_cons (List.pairwise_append.1 ordered).2.1 mem r.target writer writer'
    rcases Nat.lt_trichotomy x n with lt' | rfl | lt'
    · simp [last x s' later lt' at_] at setting
    · cases here.symm.trans at_
      simp [not_reads_of_writes (sets_iff.1 setting).1] at reader
    · -- The setting comes after the capture, which would have ended.
      have going : e.state.Ran x ∨ e.state.Running x :=
        (live.called x called).imp_right fun ⟨task, running, _⟩ => ⟨task, running⟩
      exact snapshot.active_open running (snapshot.reader_before_writer h.plan writer' on going ⟨s, here, reader⟩ lt')
  · -- The only instrument on the chain is the one of the capture.
    obtain ⟨chain, found, mem⟩ := on
    obtain ⟨chain', found'⟩ := ((h.traced x s' at_).capture _ capture).chain
    exact own ⟨sensor.topology.own_instrument i chain found _ mem (Dict.mem_keys.2 ⟨chain', found'⟩), time, type⟩

end

end CollectGraph

/-- **A capture is taken under the settings of its epoch.** In every run of the main graph of a compiled
collect, while a capture is in flight, the settings of its epoch on its chain are in effect and stay so, and
the preparation there has succeeded. Settings of the captures' own type are excepted, at their instrument. -/
theorem captureUnder {intent : CollectIntent} {keywords : Option (Dict String (Dict String Keyword))}
    {workflow : ExecutableWorkflow} {epoch : ℕ} (packs : pack intent sensor keywords = .ok collect)
    (compiles : compileCollect collect sensor deadlines [] = .ok workflow) (opAt : OpAt workflow.graph n op)
    (capture : op.acquisition.isSome = true) (at_ : op.origin.path.head? = some (.number epoch)) :
    CaptureUnder collect sensor workflow.graph (fun r => ¬ OwnType op r) n op epoch := by
  obtain ⟨steps, h⟩ := collectGraph_of_compile packs compiles
  obtain ⟨node, found, payload⟩ := opAt
  obtain ⟨s, here, stepOf⟩ := h.step_of_op found payload
  have reader : s.reads op.target = true := reads_iff.2 ⟨by rw [stepOf.acquisition, capture], stepOf.target⟩
  have emitted := (h.traced n s here).capture _ reader
  constructor
  · intro r setting on foreign
    obtain ⟨epoch', path, governed⟩ := emitted.governed
    obtain rfl : epoch' = epoch := by
      rw [stepOf.origin, at_] at path
      exact_mod_cast (PathPart.number.inj (Option.some.inj path)).symm
    obtain ⟨l, last, command⟩ := governed r setting
    obtain ⟨m, lt, there, sets, rest⟩ := of_lastOf_take last
    have hard : m ∈ workflow.graph.hard n := (h.hard_iff here reader).2 ⟨l, there, .inl ⟨_, l, on, last, rfl⟩⟩
    have own : ¬ (r.target = op.target ∧ ∃ time,
        (DeviceCommand.cameraCapture time).commandType = r.command.commandType) := by
      rintro ⟨target, time, type⟩
      obtain ⟨time', captures⟩ := emitted.command
      have same : op.command = .cameraCapture time' := Option.some.inj (stepOf.command.symm.trans captures)
      refine foreign ⟨target, ?_⟩
      rw [← type, same]
      rfl
    have effect {e : Execution (Option Operation)}
        (run : Reaches Execution.step always (Execution.start workflow.graph) e) (flight : e.state.InFlight n) :
        InEffect workflow.graph e r m := h.inEffect here reader on there sets command lt hard rest own run flight
    refine ⟨m, fun e run flight => ⟨effect run flight, fun x f dispatches other commands => ?_⟩⟩
    -- After such a dispatch the setting would still be the latest, and no later one is.
    obtain ⟨result, resolved, -⟩ := (effect run flight).succeeded
    have live := Execution.live_of_inFlight h.projects.valid.ids h.projects.valid.hard_deps run flight
    have next := effect (run.tail trivial dispatches)
    simp only [Execution.step, Option.ite_none_right_eq_some] at dispatches
    obtain ⟨⟨-, created⟩, rfl⟩ : _ ∧ _ = f := by simpa using dispatches
    obtain ⟨before, after, log, -, free⟩ := (next (by
      simpa [RunState.InFlight, Execution.setTask, Function.update_of_ne other.symm] using flight)).latest
    rcases List.eq_nil_or_concat after with rfl | ⟨after, y, rfl⟩
    · obtain rfl : x = m := by simpa using (List.append_inj' log rfl).2
      simp [live.sound.running_open x ⟨_, created⟩] at resolved
    · rw [List.concat_eq_append, ← List.cons_append, ← List.append_assoc] at log
      obtain rfl : x = y := by simpa using (List.append_inj' log rfl).2
      exact free x (by simp) commands
  · intro e run flight m op' opAt prepares on
    obtain ⟨node', found', payload'⟩ := opAt
    obtain ⟨s', there, stepOf'⟩ := h.step_of_op found' payload'
    have prepares : s'.prepares = true := decide_eq_true (by rw [stepOf'.origin, prepares])
    have unprepared {k : ℕ} {x : PlannedStep} {j : Placement} (at_ : steps[k]? = some x) (reads : x.reads j = true) :
        x.prepares = false := by
      obtain ⟨e, path, -⟩ := ((h.traced k x at_).capture j reads).governed
      simp [PlannedStep.prepares, path]
    have writer : s'.writes op'.target = true := by
      refine writes_iff.2 ⟨?_, stepOf'.target⟩
      by_contra captured
      have reads : s'.reads op'.target = true :=
        reads_iff.2 ⟨Option.isSome_iff_ne_none.2 captured, stepOf'.target⟩
      simp [unprepared there reads] at prepares
    have lt : m < n := by
      by_contra le
      rcases Nat.lt_or_eq_of_le (Nat.not_lt.1 le) with lt | rfl
      · have mem : s ∈ steps.take m := List.mem_iff_getElem?.2 ⟨n, (List.getElem?_take_of_lt lt).trans here⟩
        have := (h.traced m s' there).prepare_first prepares s mem
        simp [unprepared here reader] at this
      · cases here.symm.trans there
        simp [unprepared here reader] at prepares
    have live := Execution.live_of_inFlight h.projects.valid.ids h.projects.valid.hard_deps run flight
    refine h.succeeded_of_hard live (Execution.running_of_inFlight flight) ((h.hard_iff here reader).2
      ⟨s', there, .inr ⟨op'.target, s', ?_, prepares, writer, on, rfl⟩⟩)
    exact List.mem_iff_getElem?.2 ⟨m, (List.getElem?_take_of_lt lt).trans there⟩

/-- A frame of the camera, as an operation. -/
def frame (index : ℤ) : Operation where
  target := ⟨"camera", ["camera"]⟩
  command := .cameraCapture 1
  origin := ⟨"survey", [.number 0, .name "field", .number index], ""⟩
  acquisition := some ⟨"field", index, index, none⟩

theorem opAt_of_eq {g : Graph (Option Operation)} (h : ((g.node n).bind Node.payload) = some op) : OpAt g n op := by
  obtain ⟨node, found, payload⟩ := Option.bind_eq_some_iff.1 h
  exact ⟨node, found, payload⟩

theorem captureUnder_example : ∃ collect workflow, pack (twoFrames selectFilter) imager none = .ok collect ∧
    compileCollect collect imager [] [] = .ok workflow ∧ OpAt workflow.graph 1 (frame 0) ∧
    CaptureUnder collect imager workflow.graph (fun r => ¬ OwnType (frame 0) r) 1 (frame 0) 0 := by
  obtain ⟨op, found, same⟩ : ∃ op, ((pack (twoFrames selectFilter) imager none).toOption.bind fun collect =>
      (compileCollect collect imager [] []).toOption.bind fun workflow =>
        (workflow.graph.node 1).bind Node.payload) = some op ∧ op = frame 0 := ⟨_, by decide +kernel, rfl⟩
  obtain ⟨collect, packs, found⟩ := Option.bind_eq_some_iff.1 found
  obtain ⟨workflow, compiles, found⟩ := Option.bind_eq_some_iff.1 found
  have packs := toOption_eq_some.1 packs
  have compiles := toOption_eq_some.1 compiles
  have opAt : OpAt workflow.graph 1 (frame 0) := same ▸ opAt_of_eq found
  exact ⟨collect, workflow, packs, compiles, opAt, captureUnder packs compiles opAt rfl rfl⟩

/-- A collect that commands the camera to capture as a setting of its own frames. -/
def ownSetting : RoutedCommand where
  target := ⟨"camera", ["camera"]⟩
  command := .cameraCapture 5

/-- Where the second frame of that collect is about to be dispatched. -/
def secondFrame (collect : BoundCollect) (workflow : ExecutableWorkflow) : Option Bool :=
  (exec Execution.step (Execution.start workflow.graph)
    [.dispatch 0, .ends 0 .ok, .wake, .dispatch 1, .ends 1 .ok, .wake]).map fun e =>
      e.dispatched = [0, 1] ∧ e.state.running 2 = some .created ∧
        (workflow.graph.node 1).bind Node.payload = some (frame 0) ∧
        (workflow.graph.node 2).bind Node.payload = some (frame 1) ∧
        (collect.epochs[0]?).any (fun epoch => ownSetting ∈ epoch.settings ∧
          (CollectCompiler.ports imager (CollectCompiler.participants epoch.units)).toOption.isSome)

/-- The first frame is a capture of another integration time, and no longer the setting. -/
theorem not_captureUnder_ownSetting : ∃ collect workflow,
    pack (twoFrames (.cameraCapture 5)) imager none = .ok collect ∧
    compileCollect collect imager [] [] = .ok workflow ∧ OpAt workflow.graph 2 (frame 1) ∧
    ¬ CaptureUnder collect imager workflow.graph (fun _ => True) 2 (frame 1) 0 := by
  have found : ((pack (twoFrames (.cameraCapture 5)) imager none).toOption.bind fun collect =>
      (compileCollect collect imager [] []).toOption.bind (secondFrame collect)) = some true := by decide +kernel
  obtain ⟨collect, packs, found⟩ := Option.bind_eq_some_iff.1 found
  obtain ⟨workflow, compiles, found⟩ := Option.bind_eq_some_iff.1 found
  obtain ⟨e, run, facts⟩ := Option.map_eq_some_iff.1 found
  obtain ⟨log, created, first, second, epochs⟩ := of_decide_eq_true facts
  refine ⟨collect, workflow, toOption_eq_some.1 packs, toOption_eq_some.1 compiles, opAt_of_eq second, fun under => ?_⟩
  obtain ⟨epoch, at_, here⟩ := (Option.any_eq_true _ _).1 epochs
  obtain ⟨listed, derives⟩ := of_decide_eq_true here
  obtain ⟨derived, derives⟩ := Option.isSome_iff_exists.1 derives
  have chain : imager.topology.chains.get? ⟨"camera", ["camera"]⟩ =
      some [⟨"wheel", []⟩, ⟨"camera", ["camera"]⟩] := by decide +kernel
  obtain ⟨m, each⟩ := under.settings ownSetting
    ⟨epoch, derived, at_, toOption_eq_some.1 derives, List.mem_append_right _ listed⟩
    ⟨_, chain, by decide⟩ trivial
  obtain ⟨⟨⟨before, after, split, -, free⟩, ⟨op, opAt, command⟩, -⟩, -⟩ :=
    each e (reaches_of_exec run okAlong_always) (.inl created)
  have commands : Commands workflow.graph 1 ownSetting.governs := ⟨frame 0, opAt_of_eq first, rfl⟩
  have last : m = 1 := by
    rw [log] at split
    rcases before with _ | ⟨b, before⟩
    · obtain ⟨-, rest⟩ := List.cons.inj split
      exact absurd commands (free 1 (by simp [← rest]))
    · obtain ⟨-, rest⟩ := List.cons.inj split
      rcases before with _ | ⟨b, before⟩
      · exact (List.cons.inj rest).1.symm
      · simpa using congrArg List.length rest
  obtain ⟨node, found, payload⟩ := opAt
  subst last
  rw [found, Option.bind_some, payload] at first
  cases first
  exact absurd command (by decide)

end SensorKit.Sensor
