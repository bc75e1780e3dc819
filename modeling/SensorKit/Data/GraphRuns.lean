import SensorKit.Data.GraphComponents

/-!
# Runs of a runner

Every run of the source starts the same tasks. As long as the generator survives the failures of the nodes, it waits
to be sent the next edge when a run is over, unless it has stopped producing.
-/

namespace SensorKit.Data

open Lib

variable {g : DataGraph} {source name : String}

namespace DataGraphRunner

variable {s s' : DataGraphRunner} {a : RunnerLabel} {generator : Generator} {update : GraphRun → GraphRun}

theorem leave_eq_some (h : s.leave generator update = some s') :
    ∃ run, s.run = some run ∧ s.generator = .running ∧ run.left = false ∧
      s' = { s with generator, run := some (update { run with left := true }) } := by
  unfold leave at h
  split at h
  · rename_i run going
    obtain ⟨⟨at_, inside⟩, ⟨⟩⟩ := Option.ite_none_right_eq_some.1 h
    exact ⟨run, going, at_, inside, rfl⟩
  · cases h

theorem endTask_eq_some (h : s.endTask name update = some s') :
    ∃ run, s.run = some run ∧ name ∈ run.going ∧
      s' = { s with run := some (update { run with going := run.going.erase name }) } := by
  unfold endTask at h
  split at h
  · rename_i run going
    obtain ⟨mem, ⟨⟩⟩ := Option.ite_none_right_eq_some.1 h
    exact ⟨run, going, mem, rfl⟩
  · cases h

/-- What holds of a run whose generator survives. -/
structure Running (g : DataGraph) (source : String) (generator : Generator) (run : GraphRun) : Prop where
  tasks : run.tasks = g.runTasks source
  going : ∀ name ∈ run.going, name ∈ run.tasks.map (·.name)
  failed : ∀ name ∈ run.failed, name ∈ run.tasks.map (·.name)
  survives : run.raised = false ∧ run.shutdown = false
  waits : run.left = true → run.stopped = false → generator = .suspended

structure Inv (g : DataGraph) (source : String) (s : DataGraphRunner) : Prop where
  graph_eq : s.graph = g
  source_eq : s.source = source
  fresh : s.generator = .unprimed → s.run = none ∧ s.lastFailed = false
  running : ∀ run, s.run = some run → Running g source s.generator run
  again : s.run = none → s.lastFailed = true → s.ended = false ∧ s.generator = .suspended

theorem inv_runner : Inv g source (g.runner source) := by
  refine ⟨rfl, rfl, fun _ => ⟨rfl, rfl⟩, ?_, ?_⟩
  · intro run going
    cases going
  · intro _ failed
    cases failed

/-- The generator comes out of the body with the run that it was sent. -/
theorem Inv.leave (h : Inv g source s) (hs : s.leave generator update = some s') (unprimed : generator ≠ .unprimed)
    (keeps : ∀ run, Running g source .running run → Running g source generator (update { run with left := true })) :
    Inv g source s' := by
  obtain ⟨run, going, at_, -, rfl⟩ := leave_eq_some hs
  refine ⟨h.graph_eq, h.source_eq, fun here => absurd here unprimed, ?_, ?_⟩
  · rintro _ ⟨⟩
    exact keeps run (at_ ▸ h.running run going)
  · intro none_
    cases none_

/-- The task of a node ends. -/
theorem Inv.endTask (h : Inv g source s) (hs : s.endTask name update = some s')
    (keeps : ∀ run, name ∈ run.going → Running g source s.generator run →
      Running g source s.generator (update { run with going := run.going.erase name })) : Inv g source s' := by
  obtain ⟨run, going, mem, rfl⟩ := endTask_eq_some hs
  refine ⟨h.graph_eq, h.source_eq, ?_, ?_, ?_⟩
  · intro unprimed
    obtain ⟨none_, -⟩ := h.fresh unprimed
    rw [going] at none_
    cases none_
  · rintro _ ⟨⟩
    exact keeps run mem (h.running run going)
  · intro none_
    cases none_

theorem Running.ended {run : GraphRun} (h : Running g source generator run) :
    Running g source generator { run with going := run.going.erase name } :=
  ⟨h.tasks, fun n mem => h.going n (List.mem_of_mem_erase mem), h.failed, h.survives, h.waits⟩

/-- **A step keeps the invariant** if the generator survives it. -/
theorem Inv.step (h : Inv g source s) (survives : s.Survives a) (hs : s.step a = some s') : Inv g source s' := by
  cases a with
  | prime ok =>
    unfold DataGraphRunner.step at hs
    obtain ⟨unprimed, hs⟩ := Option.ite_none_right_eq_some.1 hs
    obtain ⟨none_, right⟩ := h.fresh unprimed
    have primed (generator : Generator) (unprimed : generator ≠ .unprimed) (ended : Bool) :
        Inv g source { s with generator, ended } := by
      refine ⟨h.graph_eq, h.source_eq, fun here => absurd here unprimed, ?_, ?_⟩
      · intro run going
        rw [none_] at going
        cases going
      · intro _ failed
        rw [right] at failed
        cases failed
    cases ok with
    | true =>
      cases hs
      exact primed .suspended (by simp) s.ended
    | false =>
      cases hs
      exact primed .finished (by simp) true
  | begin =>
    unfold DataGraphRunner.step at hs
    obtain ⟨-, hs⟩ := Option.ite_none_right_eq_some.1 hs
    have started (generator : Generator) (left stopped : Bool) (late : left = true → stopped = true) :
        Running g source generator
          { tasks := s.graph.runTasks s.source, going := (s.graph.runTasks s.source).map (·.name), left, stopped } := by
      refine ⟨by rw [h.graph_eq, h.source_eq], fun _ => id, by simp, ⟨rfl, rfl⟩, ?_⟩
      intro here producing
      rw [late here] at producing
      cases producing
    dsimp only at hs
    split at hs
    · cases hs
      refine ⟨h.graph_eq, h.source_eq, by simp, ?_, by simp⟩
      rintro run ⟨⟩
      exact started _ false false (by simp)
    · rename_i finished
      cases hs
      refine ⟨h.graph_eq, h.source_eq, by simp [finished], ?_, by simp⟩
      rintro run ⟨⟩
      exact started _ true true (by simp)
    · cases hs
    · cases hs
  | send =>
    unfold DataGraphRunner.step at hs
    dsimp only at hs
    split at hs
    · rename_i run going
      obtain ⟨at_, ⟨⟩⟩ := Option.ite_none_right_eq_some.1 hs
      refine ⟨h.graph_eq, h.source_eq, by simp [at_], ?_, by simp⟩
      rintro _ ⟨⟩
      obtain ⟨tasks, going, failed, survives, waits⟩ := h.running run going
      exact ⟨tasks, going, failed, survives, waits⟩
    · cases hs
  | yields =>
    exact h.leave hs (by simp) fun run running =>
      ⟨running.tasks, running.going, running.failed, running.survives, fun _ _ => rfl⟩
  | returns =>
    have left : s.leave .finished (fun run => { run with stopped := true }) = some s' := hs
    refine h.leave left (by simp) fun run running =>
      ⟨running.tasks, running.going, running.failed, running.survives, ?_⟩
    intro _ producing
    cases producing
  | raises => exact absurd rfl survives.1
  | cancelled => exact absurd rfl survives.2
  | ends name => exact h.endTask hs fun run _ running => running.ended
  | fails name =>
    have failed : s.endTask name (fun run => { run with failed := run.failed ++ [name] }) = some s' := hs
    refine h.endTask failed fun run mem running => ?_
    have ended : Running g source s.generator { run with going := run.going.erase name } := running.ended
    refine ⟨ended.tasks, ended.going, ?_, ended.survives, ended.waits⟩
    intro n there
    rcases mem_snoc.1 there with there | rfl
    · exact running.failed n there
    · exact running.going n mem
  | finish =>
    unfold DataGraphRunner.step at hs
    dsimp only at hs
    split at hs
    · rename_i run going
      obtain ⟨⟨left, -⟩, ⟨⟩⟩ := Option.ite_none_right_eq_some.1 hs
      have running := h.running run going
      refine ⟨h.graph_eq, h.source_eq, ?_, by simp, ?_⟩
      · intro unprimed
        obtain ⟨none_, -⟩ := h.fresh unprimed
        rw [going] at none_
        cases none_
      · -- Only a run in which the generator goes on counts as failed.
        intro _ failed
        obtain ⟨-, producing⟩ := Bool.and_eq_true_iff.1 failed
        have producing : run.stopped = false := by simpa using producing
        refine ⟨?_, running.waits left producing⟩
        show (run.stopped || run.shutdown) = false
        rw [producing, running.survives.2]
        rfl
    · cases hs

theorem Inv.independent (h : Inv g source s) (runs : g.RunsComponent source (g.runTasks source)) : s.Independent := by
  obtain ⟨rfl, rfl, -, running, again⟩ := h
  refine ⟨?_, ?_, again⟩
  · intro run going
    rw [(running run going).tasks]
    exact runs
  · intro run going name failed
    have started := (running run going).failed name failed
    rw [(running run going).tasks] at started
    exact (runs.exactly name).1 started

/-- **Components run independently**, as long as their generator survives, just where the graph has no node outside of
the component. -/
theorem independent_iff (accepted : g.start = .ok ()) (mem : source ∈ g.sources) :
    (∀ s, Reaches step Survives (g.runner source) s → s.Independent) ↔
      ∀ name ∈ g.nodes.keys, g.Reachable source name := by
  rw [← DataGraph.runsComponent_iff accepted mem]
  constructor
  · intro independent
    have begun : Reaches step Survives (g.runner source)
        { g.runner source with
          generator := .running
          run := some { tasks := g.runTasks source, going := (g.runTasks source).map (·.name) } } :=
      reaches_of_exec (show exec step (g.runner source) [.prime true, .begin] = _ from rfl)
        (okAlong_of_forall (by simp [Survives]))
    exact (independent _ begun).component _ rfl
  · intro runs s run
    exact (run.invariant inv_runner fun _ _ _ h survives hs => h.step survives hs).independent runs

/-- A camera whose frames are written. -/
def onePipeline : DataGraph where
  nodes := .ofList [("camera", { isSource := true, output := ["write"] }), ("write", {})]

/-- A run of its only component, in which a node fails, is independent. -/
theorem independent_iff_example : ∃ s : DataGraphRunner, exec step (onePipeline.runner "camera")
    [.prime true, .begin, .send, .fails "write", .yields, .ends "camera", .finish] = some s ∧ s.Independent := by
  have accepted : onePipeline.start = .ok () := by decide +kernel
  have validated : onePipeline.validateComponent "camera" = .ok ["camera", "write"] := by decide +kernel
  have reachable : ∀ name ∈ onePipeline.nodes.keys, onePipeline.Reachable "camera" name := by
    intro name mem
    exact ((DataGraph.validateComponent_eq_ok validated).1 name).1 mem
  have independent := (independent_iff accepted (by decide +kernel)).2 reachable
  have ends : (exec step (onePipeline.runner "camera")
      [.prime true, .begin, .send, .fails "write", .yields, .ends "camera", .finish]).isSome = true := by
    decide +kernel
  obtain ⟨s, run⟩ := Option.isSome_iff_exists.1 ends
  exact ⟨s, run, independent s (reaches_of_exec run (okAlong_of_forall (by simp [Survives])))⟩

/-- A camera whose frames are written, and a directory that is watched, in one graph. -/
def twoPipelines : DataGraph where
  nodes := .ofList [("camera", { isSource := true, output := ["write"] }), ("write", {}),
    ("watch", { isSource := true, output := ["read"] }), ("read", {})]

/-- A run of the camera starts the nodes of the watched directory too. The source of that component has nothing to
receive from: its failure cancels the camera's generator, and the runner has no next run. -/
theorem not_independent_twoPipelines : twoPipelines.start = .ok () ∧
    ¬ twoPipelines.Reachable "camera" "watch" ∧
    (⟨"watch", [], [.edge "watch" 0]⟩ : NodeTask) ∈ twoPipelines.runTasks "camera" ∧
    ∃ s, Reaches step always (twoPipelines.runner "camera") s ∧ s.lastFailed = true ∧ ¬ s.Independent := by
  have accepted : twoPipelines.start = .ok () := by decide +kernel
  have validated : twoPipelines.validateComponent "camera" = .ok ["camera", "write"] := by decide +kernel
  refine ⟨accepted, ?_, by decide +kernel, ?_⟩
  · intro path
    have mem := ((DataGraph.validateComponent_eq_ok validated).1 "watch").2 path
    revert mem
    decide
  · let labels : List RunnerLabel :=
      [.prime true, .begin, .fails "watch", .cancelled, .ends "camera", .ends "write", .ends "read", .finish]
    have fails : (exec step (twoPipelines.runner "camera") labels).map (fun s => (s.run, s.lastFailed, s.generator)) =
        some (none, true, .finished) := by
      decide +kernel
    obtain ⟨s, run, shows⟩ := Option.map_eq_some_iff.1 fails
    obtain ⟨idle, failed, finished⟩ : s.run = none ∧ s.lastFailed = true ∧ s.generator = .finished := by
      simpa using shows
    refine ⟨s, reaches_of_exec run okAlong_always, failed, ?_⟩
    intro independent
    obtain ⟨-, waits⟩ := independent.again idle failed
    rw [finished] at waits
    cases waits

end DataGraphRunner

end SensorKit.Data
