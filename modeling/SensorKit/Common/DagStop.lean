import SensorKit.Common.DagDispatch

/-!
# Stopping a run

A failure stops a run where its node says so: nothing is started any more. The stop is read when tasks are started, and
a task that waits for its delay has been started: it calls the dispatcher all the same.
-/

namespace SensorKit.Common

open Lib

variable {π : Type}

/-- The task has raised. -/
def NodeTask.failed : NodeTask → Bool
  | .ended (.failed _) => true
  | _ => false

theorem NodeTask.failed_eq_true {task : NodeTask} (failed : task.failed = true) :
    ∃ message, task = .ended (.failed message) := by
  unfold NodeTask.failed at failed
  split at failed
  · exact ⟨_, rfl⟩
  · cases failed

namespace RunState

variable {s t : RunState π}

/-- A task has failed that stops the run, and the runner has yet to record that. -/
def Stopping (s : RunState π) : Prop :=
  ∃ nd ∈ s.graph.nodes, nd.onFailure = .stop ∧ (s.running nd.id).any NodeTask.failed = true

/-- The node waits for its delay. -/
def Delayed (s : RunState π) (nd : Node π) : Prop :=
  s.running nd.id = some .created ∧ 0 < nd.delayS

theorem stop_startReady (sound : s.Sound) : s.startReady.stop = s.stop := by
  have settled := stop_settle sound
  unfold startReady
  split
  · exact settled
  · exact settled

theorem stop_record {n : ℕ} {outcome : TaskEnd} (stopped : s.stop = true) : (s.record n outcome).stop = true := by
  simp only [record, stopped, Bool.true_or]

/-- Recording stops a run only if a task has failed that does. -/
theorem stopping_of_recordAll (stopped : s.recordAll.stop = true) : s.stop = true ∨ s.Stopping := by
  have kept := recordAll_induction (s := s)
    (I := fun t => t.graph = s.graph ∧ (∀ n task, t.running n = some task → s.running n = some task) ∧
      (t.stop = true → s.stop = true ∨ s.Stopping)) ⟨rfl, fun _ _ => id, .inl⟩ ?_
  · exact kept.2.2 stopped
  · rintro t n outcome ⟨graph, running, stop⟩ ended
    refine ⟨graph, fun m task running' => ?_, fun stopped => ?_⟩
    · by_cases same : m = n
      · simp [record, same] at running'
      · exact running m task (by simpa [record, Function.update_of_ne same] using running')
    · simp only [record, Bool.or_eq_true, Bool.and_eq_true] at stopped
      rcases stopped with before | ⟨failed, stops⟩
      · exact stop before
      · rw [graph] at stops
        cases outcome with
        | ok => simp [result] at failed
        | cancelled => simp [result] at failed
        | failed message =>
          cases found : s.graph.node n with
          | none => simp [found] at stops
          | some nd =>
            obtain ⟨mem, id⟩ := Graph.node_mem found
            refine .inr ⟨nd, mem, by simpa [found] using stops, ?_⟩
            rw [id, running n _ ended]
            rfl

theorem recordEnded_stop (nd : Node π) (stopped : s.stop = true) : (s.recordEnded nd).stop = true := by
  unfold recordEnded
  split
  · exact stop_record stopped
  · exact stopped

theorem recordEach_stop (l : List (Node π)) (stopped : s.stop = true) :
    (l.foldl RunState.recordEnded s).stop = true := by
  induction l generalizing s with
  | nil => exact stopped
  | cons nd l ih => exact ih (recordEnded_stop nd stopped)

/-- A failure that stops the run is recorded as such. -/
theorem recordAll_stop (ids : (s.graph.nodes.map Node.id).Nodup) (stopping : s.Stopping) : s.recordAll.stop = true := by
  obtain ⟨nd, mem, stop, failed⟩ := stopping
  have node := Graph.node_eq_some ids mem
  obtain ⟨message, ended⟩ : ∃ message, s.running nd.id = some (.ended (.failed message)) := by
    cases running : s.running nd.id with
    | none => simp [running] at failed
    | some task =>
      obtain ⟨message, rfl⟩ := NodeTask.failed_eq_true (by simpa [running] using failed)
      exact ⟨message, rfl⟩
  have all (l : List (Node π)) : ∀ t : RunState π, t.graph = s.graph → t.running nd.id = some (.ended (.failed message)) →
      nd.id ∈ l.map Node.id → (l.foldl RunState.recordEnded t).stop = true := by
    induction l with
    | nil => simp
    | cons nd' l ih =>
      intro t graph ended mem
      by_cases same : nd'.id = nd.id
      · apply recordEach_stop l
        simp [RunState.recordEnded, same, ended, RunState.record, result, graph, node, stop]
      · refine ih _ ?_ ?_ (by simpa [Ne.symm same] using mem)
        · unfold RunState.recordEnded
          split
          · exact graph
          · exact graph
        · unfold RunState.recordEnded
          split
          · simpa [RunState.record, Function.update_of_ne (Ne.symm same)] using ended
          · exact ended
  exact all _ s rfl ended (List.mem_map_of_mem mem)

end RunState

namespace Execution

open RunState

variable {g : Graph π} {e f : Execution π}

/-- Tasks are scheduled in order: one that need not wait has called the dispatcher before the runner goes on. -/
def Prompt (e : Execution π) : RunLabel → Prop
  | .wake => ∀ nd ∈ e.state.graph.nodes, e.state.running nd.id = some .created → 0 < nd.delayS
  | _ => True

/-- No node waits for its delay while the failure that stops the run is recorded. -/
def StopsUndelayed (e : Execution π) : RunLabel → Prop
  | .wake => e.state.Stopping → ∀ nd ∈ e.state.graph.nodes, ¬ e.state.Delayed nd
  | _ => True

/-- A run that has been stopped leaves no task that has yet to call the dispatcher. -/
def Halted (e : Execution π) : Prop :=
  e.phase = .waiting → ∀ n, e.state.running n ≠ some .created

theorem Halted.setTask {n : ℕ} {task : NodeTask} (h : Halted e) (called : task ≠ .created) :
    Halted (e.setTask n task) := by
  intro waiting m created
  by_cases same : m = n
  · simp only [Execution.setTask, same, Function.update_self, Option.some.injEq] at created
    exact called created
  · exact h waiting m (by simpa [Execution.setTask, Function.update_of_ne same] using created)

/-- The run has been stopped, and no task has yet to call the dispatcher. -/
structure Stopped (e : Execution π) : Prop where
  halted : Halted e
  stop : (∃ ending, e.phase = .finished ending) ∨ e.state.stop = true

/-- A run that is stopped starts nothing as it goes on. -/
theorem stopped_proceed (sound : e.state.Sound) (stopped : e.state.stop = true)
    (none : ∀ n, e.state.running n ≠ some .created) : Stopped (proceed e) := by
  rcases proceed_cases sound with done | same
  · obtain ⟨ending, finished⟩ := done.finished
    refine ⟨fun waiting => ?_, .inl ⟨ending, finished⟩⟩
    cases waiting.symm.trans finished
  · have stop : e.state.startReady.stop = true := (stop_startReady sound).trans stopped
    rw [same]
    refine ⟨fun _ n created => ?_, .inr stop⟩
    exact none n ((congrFun (running_startReady_of_stop sound stop) n).symm.trans created)

/-- **After the stop**: nothing is dispatched. -/
theorem Stopped.step {label : RunLabel} (h : Stopped e) (going : Live g e ∨ Over e) (hs : e.step label = some f) :
    Stopped f ∧ f.dispatched = e.dispatched := by
  have live : Live g e := by
    rcases going with live | done
    · exact live
    · cases done.step.symm.trans hs
  have stop : e.state.stop = true := by
    rcases h.stop with ⟨ending, finished⟩ | stop
    · exact absurd finished (live.going ending)
    · exact stop
  rcases dispatched_of_step hs with same | ⟨n, rfl, created, -⟩
  · refine ⟨?_, same⟩
    cases takes_of_step hs with
    | dispatch waiting created => exact absurd created (h.halted waiting _)
    | ends => exact ⟨h.halted.setTask (by simp), .inr stop⟩
    | wake waiting woken =>
      obtain ⟨sound, records⟩ := live.sound.recordAll
      refine stopped_proceed sound (recordEach_stop _ stop) fun n created => ?_
      exact h.halted waiting n (records.running n _ created)
    | cancel => exact ⟨by rintro ⟨⟩, .inr stop⟩
    | drained => exact ⟨by rintro ⟨⟩, .inl ⟨_, rfl⟩⟩
  · obtain ⟨⟨waiting, -⟩, -⟩ := Option.ite_none_right_eq_some.1 hs
    exact absurd created (h.halted waiting n)

theorem Stopped.run (h : Stopped e) (going : Live g e ∨ Over e) (run : Reaches Execution.step always e f) :
    f.dispatched = e.dispatched := by
  have kept := run.invariant (I := fun t => Stopped t ∧ (Live g t ∨ Over t) ∧ t.dispatched = e.dispatched)
    ⟨h, going, rfl⟩ fun s label t before _ hs => ?_
  · exact kept.2.2
  · obtain ⟨stopped, going, same⟩ := before
    obtain ⟨stopped', same'⟩ := stopped.step going hs
    refine ⟨stopped', ?_, same'.trans same⟩
    rcases going with live | done
    · exact live.step hs
    · cases done.step.symm.trans hs

/-- As long as every stop is recorded while no node waits for its delay, a stopped run is halted. -/
theorem stopped_step {label : RunLabel} (h : e.state.stop = true → Halted e) (live : Live g e)
    (prompt : Prompt e label) (undelayed : StopsUndelayed e label) (hs : e.step label = some f)
    (stopped : f.state.stop = true) : Halted f := by
  by_cases before : e.state.stop = true
  · exact (Stopped.step ⟨h before, .inr before⟩ (.inl live) hs).1.halted
  cases takes_of_step hs with
  | dispatch => exact absurd stopped before
  | ends => exact absurd stopped before
  | wake =>
    obtain ⟨sound, records⟩ := live.sound.recordAll
    intro waiting n created
    rcases proceed_cases (e := { e with state := e.state.recordAll }) sound with done | same
    · obtain ⟨ending, finished⟩ := done.finished
      cases waiting.symm.trans finished
    · rw [same] at stopped created
      have recorded : e.state.recordAll.stop = true := (stop_startReady sound).symm.trans stopped
      have stopping := (stopping_of_recordAll recorded).resolve_left before
      have there : e.state.recordAll.running n = some .created :=
        (congrFun (running_startReady_of_stop sound stopped) n).symm.trans created
      have created := records.running n _ there
      obtain ⟨nd, mem, rfl⟩ := live.sound.nodes_only n (.inr ⟨_, created⟩)
      exact undelayed stopping nd mem ⟨created, prompt nd mem created⟩
  | cancel => rintro ⟨⟩
  | drained => rintro ⟨⟩

/-- Recording leaves the tasks that have not ended. -/
theorem created_recordAll {s : RunState π} {n : ℕ} (sound : s.Sound) (created : s.running n = some .created) :
    s.recordAll.running n = some .created := by
  obtain ⟨-, records⟩ := sound.recordAll
  refine (records.going n _ created).resolve_right fun ran => ?_
  rcases records.ran n ran with ⟨r, result, -⟩ | ⟨outcome, ended⟩
  · rw [sound.running_open n ⟨_, created⟩] at result
    cases result
  · cases created.symm.trans ended

/-- A node that waits for its delay may be dispatched after the stop has been recorded. -/
theorem dispatch_of_delayed {nd : Node π} (ids : (g.nodes.map Node.id).Nodup) (live : Live g e)
    (stopping : e.state.Stopping) (delayed : e.state.Delayed nd) (hs : e.step .wake = some f) :
    f.state.stop = true ∧ (f.step (.dispatch nd.id)).isSome = true := by
  obtain ⟨⟨waiting, -⟩, ⟨⟩⟩ := Option.ite_none_right_eq_some.1 hs
  obtain ⟨sound, -⟩ := live.sound.recordAll
  have stop : e.state.recordAll.startReady.stop = true :=
    (stop_startReady sound).trans (recordAll_stop (live.graph ▸ ids) stopping)
  have created : e.state.recordAll.startReady.running nd.id = some .created :=
    sound.starts.kept _ _ (created_recordAll live.sound delayed.1)
  have active : e.state.recordAll.startReady.active = true := by
    obtain ⟨nd', mem, same⟩ := sound.startReady.1.nodes_only nd.id (.inr ⟨_, created⟩)
    exact List.any_eq_true.2 ⟨nd', mem, by simp [same, created]⟩
  have same : proceed { e with state := e.state.recordAll } = { e with state := e.state.recordAll.startReady } :=
    if_pos active
  rw [same]
  refine ⟨stop, ?_⟩
  simp [Execution.step, waiting, created]

/-- **Stop means stop** in every run in which no node waits for its delay when the failure is recorded. A node that does
may be dispatched afterwards. -/
theorem stopMeansStop {b : GraphBuilder π} (made : b.Made) (built : b.build = .ok g) :
    (∀ e, Reaches Execution.step (fun e label => Prompt e label ∧ StopsUndelayed e label) (start g) e →
      e.state.stop = true → ∀ f, Reaches Execution.step always e f → f.dispatched = e.dispatched) ∧
    ∀ e f, Reaches Execution.step Prompt (start g) e → ¬ StopsUndelayed e .wake → e.step .wake = some f →
      f.state.stop = true ∧ ∃ n, (f.step (.dispatch n)).isSome = true := by
  have valid := made.valid built
  have going : ∀ {ok : Execution π → RunLabel → Prop} {e}, Reaches Execution.step ok (start g) e → Live g e ∨ Over e :=
    fun run => live_of_reaches valid.ids valid.hard_deps (run.mono fun _ _ _ => trivial)
  constructor
  · intro e run stop f later
    have halted : e.state.stop = true → Halted e := by
      refine run.invariant₂ (I := fun e => Live g e ∨ Over e) (J := fun e => e.state.stop = true → Halted e)
        (fun _ run => going run) ?_ fun e label f going halted ok hs => ?_
      · intro stop waiting n created
        have sound : (init g).Sound := sound_init valid.ids valid.hard_deps
        rcases proceed_cases (e := { state := init g }) sound with done | same
        · obtain ⟨ending, finished⟩ := done.finished
          cases waiting.symm.trans finished
        · unfold start at stop
          rw [same] at stop
          cases (stop_startReady sound).symm.trans stop
      · rcases going with live | done
        · exact stopped_step halted live ok.1 ok.2 hs
        · cases done.step.symm.trans hs
    exact Stopped.run ⟨halted stop, .inr stop⟩ (going run) later
  · intro e f run delayed hs
    have live : Live g e := by
      rcases going run with live | done
      · exact live
      · cases done.step.symm.trans hs
    unfold StopsUndelayed at delayed
    push Not at delayed
    obtain ⟨stopping, nd, -, delayed⟩ := delayed
    obtain ⟨stop, dispatch⟩ := dispatch_of_delayed valid.ids live stopping delayed hs
    exact ⟨stop, nd.id, dispatch⟩

instance (label : RunLabel) : Decidable (Prompt e label) :=
  match label with
  | .wake => inferInstanceAs (Decidable (∀ nd ∈ e.state.graph.nodes, e.state.running nd.id = some .created → 0 < nd.delayS))
  | .dispatch _ | .ends .. | .cancel _ | .drained => inferInstanceAs (Decidable True)

instance (label : RunLabel) : Decidable (StopsUndelayed e label) :=
  match label with
  | .wake => inferInstanceAs (Decidable ((∃ nd ∈ e.state.graph.nodes,
      nd.onFailure = .stop ∧ (e.state.running nd.id).any NodeTask.failed = true) →
        ∀ nd ∈ e.state.graph.nodes, ¬ (e.state.running nd.id = some .created ∧ 0 < nd.delayS)))
  | .dispatch _ | .ends .. | .cancel _ | .drained => inferInstanceAs (Decidable True)

/-- Two nodes, the second of which starts a second later. A failure of the first one stops the run. -/
def aligned : GraphBuilder Unit :=
  (({} : GraphBuilder Unit).add "open" "dome" () .stop false 0 none).add "expose" "camera" () .skip false 1 none

theorem aligned_made : aligned.Made :=
  .add (.add .empty _ _ _ _ _ _ _) _ _ _ _ _ _ _

/-- The second node has been dispatched when the first one fails. -/
theorem stopMeansStop_aligned : ∃ e, exec Execution.step (start aligned.frozen)
      [.dispatch 0, .dispatch 1, .ends 0 (.failed "stuck"), .wake] = some e ∧ e.state.stop = true ∧
    ∀ f, Reaches Execution.step always e f → f.dispatched = [0, 1] := by
  have ends : (exec Execution.step (start aligned.frozen) [.dispatch 0, .dispatch 1, .ends 0 (.failed "stuck"), .wake]).map
      (fun e => (e.state.stop, e.dispatched)) = some (true, [0, 1]) := by decide +kernel
  obtain ⟨e, run, reached⟩ := Option.map_eq_some_iff.1 ends
  obtain ⟨stop, dispatched⟩ := Prod.mk.injEq .. ▸ reached
  have reaches : Reaches Execution.step (fun e label => Prompt e label ∧ StopsUndelayed e label) (start aligned.frozen) e :=
    reaches_of_exec run (by decide +kernel)
  refine ⟨e, run, stop, fun f later => ?_⟩
  rw [← dispatched]
  exact (stopMeansStop aligned_made rfl).1 e reaches stop f later

/-- The second node waits for its delay when the failure of the first one is recorded, and is dispatched afterwards. -/
theorem dispatched_after_stop : ∃ e f, Reaches Execution.step Prompt (start aligned.frozen) e ∧ e.state.stop = true ∧
    e.state.results 0 = some { status := .failed, error := some "stuck" } ∧ e.step (.dispatch 1) = some f ∧
      f.dispatched = [0, 1] := by
  have ends : (exec Execution.step (start aligned.frozen) [.dispatch 0, .ends 0 (.failed "stuck"), .wake]).map
      (fun e => (e.state.stop, e.state.results 0, (e.step (.dispatch 1)).map Execution.dispatched)) =
        some (true, some { status := .failed, error := some "stuck" }, some [0, 1]) := by decide +kernel
  obtain ⟨e, run, reached⟩ := Option.map_eq_some_iff.1 ends
  simp only [Prod.mk.injEq] at reached
  obtain ⟨stop, failed, dispatched⟩ := reached
  obtain ⟨f, hs, dispatched⟩ := Option.map_eq_some_iff.1 dispatched
  exact ⟨e, f, reaches_of_exec run (by decide +kernel), stop, failed, hs, dispatched⟩

end Execution

end SensorKit.Common
