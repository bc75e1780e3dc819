import Mathlib.Data.List.Lattice
import SensorKit.Common.DagRun
import SensorKit.Lib.ReadersWriters

/-!
# What holds along an execution

A run that is not over keeps the invariant of its state, and knows which nodes have called the
dispatcher. Each of its moments is a snapshot of its graph in the sense of readers and writers.
-/

namespace SensorKit.Common

open Lib

variable {π : Type}

namespace Execution

open RunState

variable {g : Graph π} {e f : Execution π}

/-- What a step of a run does. -/
inductive Takes (e : Execution π) : RunLabel → Execution π → Prop where
  | dispatch {n : ℕ} (waiting : e.phase = .waiting) (created : e.state.running n = some .created) :
      Takes e (.dispatch n) { e.setTask n .dispatched with dispatched := e.dispatched ++ [n] }
  | ends {n : ℕ} {task : NodeTask} (outcome : TaskEnd) (running : e.state.running n = some task)
      (called : task = .dispatched ∨ task = .created ∧ e.phase ≠ .waiting) :
      Takes e (.ends n outcome) (e.setTask n (.ended outcome))
  | wake (waiting : e.phase = .waiting)
      (woken : ∃ nd ∈ e.state.graph.nodes, ∃ outcome, e.state.running nd.id = some (.ended outcome)) :
      Takes e .wake (proceed { e with state := e.state.recordAll })
  | cancel {absorbed : Bool} (hard : Bool) (declined : Option ℕ) :
      Takes e (.cancel absorbed) { e with phase := .draining hard declined, cancellations := e.cancellations + 1 }
  | drained {hard : Bool} {declined : Option ℕ} (draining : e.phase = .draining hard declined)
      (idle : ∀ nd ∈ e.state.graph.nodes, ¬ e.state.InFlight nd.id) :
      Takes e .drained
        { e with state := e.state.recordAll.cancelPending, phase := .finished (ending hard declined) }

theorem takes_of_step {label : RunLabel} (hs : e.step label = some f) : Takes e label f := by
  cases label with
  | dispatch n =>
    obtain ⟨⟨waiting, created⟩, ⟨⟩⟩ := Option.ite_none_right_eq_some.1 hs
    exact .dispatch waiting created
  | ends n outcome =>
    simp only [step] at hs
    split at hs
    · cases hs
    · rename_i running _
      cases hs
      exact .ends outcome running (.inl rfl)
    · rename_i draining created
      obtain ⟨-, ⟨⟩⟩ := Option.ite_none_right_eq_some.1 hs
      exact .ends outcome created (.inr ⟨rfl, by simp [draining]⟩)
    · cases hs
  | wake =>
    obtain ⟨⟨waiting, woken⟩, ⟨⟩⟩ := Option.ite_none_right_eq_some.1 hs
    refine .wake waiting ?_
    obtain ⟨nd, node, ended⟩ := List.any_eq_true.1 woken
    refine ⟨nd, node, ?_⟩
    cases running : e.state.running nd.id with
    | none => simp [running] at ended
    | some task =>
      cases task with
      | ended outcome => exact ⟨outcome, rfl⟩
      | _ => simp [running] at ended
  | cancel absorbed =>
    simp only [step] at hs
    split at hs <;> cases hs
    · exact .cancel _ _
    · exact .cancel _ _
  | drained =>
    simp only [step] at hs
    split at hs
    · rename_i draining
      obtain ⟨done, ⟨⟩⟩ := Option.ite_none_right_eq_some.1 hs
      refine .drained draining fun nd node flight => ?_
      have done := List.all_eq_true.1 done nd node
      rcases flight with running | running <;> simp [running] at done
    · cases hs

/-- What holds until the run ends. The tasks that have called the dispatcher are the ones in
`dispatched`. -/
structure Live (g : Graph π) (e : Execution π) : Prop where
  going : ∀ ending, e.phase ≠ .finished ending
  graph : e.state.graph = g
  sound : e.state.Sound
  settled : e.state.Settled
  called : ∀ n ∈ e.dispatched, e.state.Ran n ∨ ∃ task, e.state.running n = some task ∧ task ≠ .created
  calls : ∀ n, e.state.running n = some .dispatched → n ∈ e.dispatched
  ended : e.phase = .waiting → ∀ n outcome, e.state.running n = some (.ended outcome) → n ∈ e.dispatched
  ran : ∀ n, e.state.Ran n → n ∈ e.dispatched

/-- The run has ended, and left no task behind. -/
structure Over (e : Execution π) : Prop where
  finished : ∃ ending, e.phase = .finished ending
  idle : ∀ n, ¬ e.state.InFlight n

/-- A run that has not ended goes on. -/
theorem live_of_unfinished (h : Live g e ∨ Over e) (unfinished : ∀ ending, e.phase ≠ .finished ending) : Live g e := by
  rcases h with live | done
  · exact live
  · obtain ⟨ending, finished⟩ := done.finished
    exact absurd finished (unfinished ending)

theorem not_running_of_inactive {s : RunState π} (h : s.Sound) (idle : s.active = false) (n : ℕ) : ¬ s.Running n := by
  rintro ⟨task, running⟩
  obtain ⟨nd, node, rfl⟩ := h.nodes_only n (.inr ⟨task, running⟩)
  have := List.any_eq_false.1 idle nd node
  simp [running] at this

theorem running_of_inFlight {s : RunState π} {n : ℕ} (h : s.InFlight n) : s.Running n :=
  h.elim (⟨_, ·⟩) (⟨_, ·⟩)

/-- The head of the loop ends the run, or starts what is ready. -/
theorem proceed_cases (h : e.state.Sound) :
    Over (proceed e) ∨ proceed e = { e with state := e.state.startReady } := by
  obtain ⟨sound, -⟩ := h.startReady
  simp only [proceed]
  split
  · exact .inr rfl
  · rename_i inactive
    have idle := not_running_of_inactive sound (by simpa using inactive)
    split
    · exact .inl ⟨⟨_, rfl⟩, fun n flight => idle n (running_of_inFlight flight)⟩
    · refine .inl ⟨⟨_, rfl⟩, fun n flight => idle n ?_⟩
      have frame := sound.resolveSkips.2.2
      have running : e.state.startReady.resolveSkips.Running n := running_of_inFlight flight
      rwa [Running, frame.running] at running

/-- A run that goes on has started what is ready. -/
theorem Live.proceed (sound : e.state.Sound) (graph : e.state.graph = g) (waiting : e.phase = .waiting)
    (called : ∀ n ∈ e.dispatched, e.state.Ran n ∨ ∃ task, e.state.running n = some task ∧ task ≠ .created)
    (calls : ∀ n, e.state.running n = some .dispatched → n ∈ e.dispatched)
    (ended : ∀ n outcome, e.state.running n = some (.ended outcome) → n ∈ e.dispatched)
    (ran : ∀ n, e.state.Ran n → n ∈ e.dispatched) :
    Live g (proceed e) ∨ Over (proceed e) := by
  rcases proceed_cases sound with done | eq
  · exact .inr done
  rw [eq]
  have starts := sound.starts
  obtain ⟨sound', settled⟩ := sound.startReady
  refine .inl ⟨by simp [waiting], starts.graph.trans graph, sound', settled, fun n mem => ?_, fun n running => ?_,
    fun _ n outcome running => ?_, fun n ran' => ran n ((starts.ran n).1 ran')⟩
  · rcases called n mem with ran' | ⟨task, running, awake⟩
    · exact .inl ((starts.ran n).2 ran')
    · exact .inr ⟨task, starts.kept n task running, awake⟩
  · exact calls n ((starts.fresh n _ running).resolve_right (by simp))
  · exact ended n outcome ((starts.fresh n _ running).resolve_right (by simp))

theorem live_start (ids : (g.nodes.map Node.id).Nodup) (hard : ∀ n, ∀ d ∈ g.hard n, d ∈ g.deps n) :
    Live g (start g) ∨ Over (start g) := by
  refine Live.proceed (sound_init ids hard) rfl rfl ?_ ?_ ?_ ?_ <;> simp [init, Ran]

namespace Live

/-- A task that ends. -/
theorem ends {n : ℕ} {task : NodeTask} {outcome : TaskEnd} (h : Live g e) (running : e.state.running n = some task)
    (mem : e.phase = .waiting → n ∈ e.dispatched) : Live g (e.setTask n (.ended outcome)) := by
  have others {m : ℕ} (other : m ≠ n) : (e.setTask n (.ended outcome)).state.running m = e.state.running m := by
    simp [setTask, Function.update_of_ne other]
  have here : (e.setTask n (.ended outcome)).state.running n = some (.ended outcome) := by simp [setTask]
  refine ⟨h.going, h.graph, h.sound.setRunning running, h.settled, fun m mem' => ?_, fun m running' => ?_,
    fun waiting m outcome' running' => ?_, h.ran⟩
  · refine (h.called m mem').imp_right fun ⟨task, running, awake⟩ => ?_
    by_cases same : m = n
    · exact ⟨_, by rw [same]; exact here, by simp⟩
    · exact ⟨task, (others same).trans running, awake⟩
  · by_cases same : m = n
    · simp [same, here] at running'
    · exact h.calls m ((others same).symm.trans running')
  · by_cases same : m = n
    · exact same ▸ mem waiting
    · exact h.ended waiting m outcome' ((others same).symm.trans running')

/-- A task that calls the dispatcher. -/
theorem dispatch {n : ℕ} (h : Live g e) (created : e.state.running n = some .created) :
    Live g { e.setTask n .dispatched with dispatched := e.dispatched ++ [n] } := by
  have others {m : ℕ} (other : m ≠ n) : (e.setTask n .dispatched).state.running m = e.state.running m := by
    simp [setTask, Function.update_of_ne other]
  have here : (e.setTask n .dispatched).state.running n = some .dispatched := by simp [setTask]
  refine ⟨h.going, h.graph, h.sound.setRunning created, h.settled, fun m mem => ?_, fun m running => ?_,
    fun waiting m outcome running => ?_, fun m ran => List.mem_append_left _ (h.ran m ran)⟩
  · by_cases same : m = n
    · exact .inr ⟨_, by rw [same]; exact here, by simp⟩
    · have mem : m ∈ e.dispatched := by simpa [same] using mem
      exact (h.called m mem).imp_right fun ⟨task, running, awake⟩ => ⟨task, (others same).trans running, awake⟩
  · by_cases same : m = n
    · simp [same]
    · exact List.mem_append_left _ (h.calls m ((others same).symm.trans running))
  · by_cases same : m = n
    · simp [same]
    · exact List.mem_append_left _ (h.ended waiting m outcome ((others same).symm.trans running))

/-- **One step of a run**: it goes on, or it is over. -/
theorem step {label : RunLabel} (h : Live g e) (hs : e.step label = some f) : Live g f ∨ Over f := by
  cases takes_of_step hs with
  | dispatch waiting created => exact .inl (h.dispatch created)
  | @ends n task outcome running called =>
    refine .inl (h.ends running fun waiting => ?_)
    rcases called with rfl | ⟨-, undone⟩
    · exact h.calls n running
    · exact absurd waiting undone
  | wake waiting woken =>
    obtain ⟨sound, records⟩ := h.sound.recordAll
    refine Live.proceed sound (records.graph.trans h.graph) waiting (fun n mem => ?_)
      (fun n running => h.calls n (records.running n _ running))
      (fun n outcome running => h.ended waiting n outcome (records.running n _ running)) fun n ran => ?_
    · rcases h.called n mem with ran | ⟨task, running, awake⟩
      · exact .inl (records.kept n ran)
      · exact (records.going n task running).symm.imp_right fun running => ⟨task, running, awake⟩
    · rcases records.ran n ran with ran | ⟨outcome, ended⟩
      · exact h.ran n ran
      · exact h.ended waiting n outcome ended
  | cancel hard declined => exact .inl { h with going := by simp, ended := by simp }
  | drained draining idle =>
    refine .inr ⟨⟨_, rfl⟩, fun n flight => ?_⟩
    have records := h.sound.recordAll.2
    have flight : e.state.InFlight n := flight.imp (records.running n _) (records.running n _)
    obtain ⟨nd, node, rfl⟩ := h.sound.nodes_only n (.inr (running_of_inFlight flight))
    exact idle nd node flight

end Live

theorem Over.step {label : RunLabel} (h : Over e) : e.step label = none := by
  obtain ⟨⟨ending, finished⟩, -⟩ := h
  cases label <;> simp [Execution.step, finished]

/-- **Every run of a graph**, from its start. -/
theorem live_of_reaches (ids : (g.nodes.map Node.id).Nodup) (hard : ∀ n, ∀ d ∈ g.hard n, d ∈ g.deps n)
    (run : Reaches Execution.step always (start g) e) : Live g e ∨ Over e := by
  refine run.invariant (I := fun e => Live g e ∨ Over e) (live_start ids hard) fun e label f going _ hs => ?_
  rcases going with live | done
  · exact live.step hs
  · simp [done.step] at hs

/-- A run with a task in flight is not over. -/
theorem live_of_inFlight {n : ℕ} (ids : (g.nodes.map Node.id).Nodup) (hard : ∀ n, ∀ d ∈ g.hard n, d ∈ g.deps n)
    (run : Reaches Execution.step always (start g) e) (flight : e.state.InFlight n) : Live g e := by
  rcases live_of_reaches ids hard run with live | done
  · exact live
  · exact absurd flight (done.idle n)

/-- A step leaves what has been dispatched, or adds a node whose task had yet to call. -/
theorem dispatched_of_step {label : RunLabel} (hs : e.step label = some f) :
    f.dispatched = e.dispatched ∨ ∃ n, label = .dispatch n ∧ e.state.running n = some .created ∧
      f.dispatched = e.dispatched ++ [n] := by
  cases takes_of_step hs with
  | dispatch waiting created => exact .inr ⟨_, rfl, created, rfl⟩
  | wake =>
    refine .inl ?_
    simp only [proceed]
    split_ifs <;> rfl
  | _ => exact .inl rfl

/-- **The order of dispatch.** A relation between the nodes dispatched before and the one that is
about to be holds along the whole log. -/
theorem dispatched_pairwise {R : ℕ → ℕ → Prop} (ids : (g.nodes.map Node.id).Nodup)
    (hard : ∀ n, ∀ d ∈ g.hard n, d ∈ g.deps n)
    (related : ∀ e n, Live g e → e.state.running n = some .created → ∀ m ∈ e.dispatched, R m n)
    (run : Reaches Execution.step always (start g) e) : e.dispatched.Pairwise R := by
  refine run.invariant₂ (I := fun e => Live g e ∨ Over e) (J := fun e => e.dispatched.Pairwise R)
    (fun _ => live_of_reaches ids hard) ?_ fun e label f going pairwise _ hs => ?_
  · simp only [start, proceed]
    split_ifs <;> exact .nil
  · rcases dispatched_of_step hs with same | ⟨n, rfl, created, more⟩
    · rwa [same]
    · rw [more, List.pairwise_append]
      refine ⟨pairwise, List.pairwise_singleton _ _, fun m mem n' eq => ?_⟩
      obtain rfl : n' = n := by simpa using eq
      rcases going with live | done
      · exact related e n' live created m mem
      · simp [done.step] at hs

/-! ## Snapshots -/

/-- **A moment of a run is a snapshot of its graph**, if no node is overridden. -/
theorem Live.snapshot (h : Live g e) (free : ∀ nd ∈ g.nodes, nd.override = none)
    (inside : ∀ n, ∀ d ∈ g.hard n, ∃ nd ∈ g.nodes, nd.id = n) :
    ReadersWriters.Snapshot (fun n d => d ∈ g.deps n) (fun n d => d ∈ g.hard n) e.state.Resolved e.state.Failed
      e.state.Ran e.state.Running := by
  obtain ⟨sound, settled⟩ := (⟨h.sound, h.settled⟩ : _ ∧ _)
  obtain rfl := h.graph
  refine ⟨fun going dep => sound.waited _ going _ dep, fun going hard => ?_, fun {n} resolved => ?_, ?_,
    fun {n d} hard failed => ?_, fun {n} running ⟨r, result⟩ => ?_⟩
  · exact ⟨sound.waited _ going _ (sound.hard_deps _ _ hard), sound.required _ going _ hard⟩
  · rcases sound.given_up n resolved with ran | blocked | ⟨nd, node, override⟩
    · exact .inl ran
    · exact .inr blocked
    · exact absurd (free nd (List.mem_of_find?_eq_some node)) override
  · exact fun ⟨r, result, _⟩ => ⟨r, result⟩
  · obtain ⟨nd, node, rfl⟩ := inside n d hard
    rcases sound.known nd node with pending | running | resolved
    · exact absurd failed (blockers_eq_nil.1 (settled _ pending) d hard)
    · exact absurd failed (sound.required _ (.inr running) d hard)
    · exact resolved
  · simp [sound.running_open n running] at result

end Execution

/-! ## Graphs that are built -/

namespace GraphBuilder

variable {b : GraphBuilder π}

theorem frozen_hard (n d : ℕ) (hard : d ∈ b.frozen.hard n) : d ∈ b.frozen.deps n := by
  exact List.mem_union_right _ hard

theorem build_eq_ok {g : Graph π} (h : b.build = .ok g) : g = b.frozen := by
  simp only [build] at h
  cases sorted : b.frozen.topoOrder with
  | error message => simp [sorted, bind, Except.bind] at h
  | ok order => simpa [sorted, bind, Except.bind, pure, Except.pure] using h.symm

end GraphBuilder

end SensorKit.Common
