import Mathlib.Algebra.Order.BigOperators.Group.Finset
import SensorKit.Common.DagOrder

/-!
# Runs that are not cancelled

The runner waits only while a task is in the run. When none is left and the run has not stopped, no
node is pending: a first pending node of an acyclic graph would have been ready. Every step moves a
node on, so a run is finite, and where it ends each node has its result.
-/

namespace SensorKit.Common

open Lib

variable {π : Type} {n : ℕ}

namespace RunState

variable {s t : RunState π}

/-- How many steps a node without a result is from it, at most. -/
def stepsLeft : Option NodeTask → ℕ
  | some (.ended _) => 1
  | some .dispatched => 2
  | _ => 3

/-- How many steps the node is from its result, at most. -/
def toGo (s : RunState π) (nid : ℕ) : ℕ :=
  if (s.results nid).isSome then 0 else stepsLeft (s.running nid)

theorem stepsLeft_le (task : Option NodeTask) : stepsLeft task ≤ 3 := by
  unfold stepsLeft
  split <;> omega

theorem stepsLeft_pos (task : Option NodeTask) : 0 < stepsLeft task := by
  unfold stepsLeft
  split <;> omega

theorem toGo_le_three (n : ℕ) : s.toGo n ≤ 3 := by
  unfold toGo
  split
  · omega
  · exact stepsLeft_le _

theorem ready_iff : s.ready n = true ↔ ∀ d ∈ s.graph.deps n, s.Resolved d := by
  simp only [ready, List.all_eq_true, Option.isSome_iff_exists, Resolved]

/-- What is still pending after the head of the loop is not ready. -/
theorem not_ready_of_startReady (goes : s.startReady.stop = false) (mem : n ∈ s.startReady.pending) :
    s.startReady.ready n = false := by
  simp only [startReady] at goes mem ⊢
  split_ifs at goes mem ⊢ with stopped
  · simp [stopped] at goes
  · have unready := (List.mem_filter.1 mem).2
    simpa [startTaken, ready] using unready

/-- **No deadlock.** Some pending node of an acyclic graph is ready when no task is in the run. -/
theorem Sound.exists_ready (h : s.Sound) (valid : s.graph.Valid) (idle : ∀ n, ¬ s.Running n)
    (waiting : s.pending ≠ []) : ∃ n ∈ s.pending, s.ready n = true := by
  obtain ⟨m, mem⟩ := List.exists_mem_of_ne_nil _ waiting
  obtain ⟨n, pending, first⟩ := valid.acyclic.has_min {n | n ∈ s.pending} ⟨m, mem⟩
  refine ⟨n, pending, ready_iff.2 fun d dep => ?_⟩
  obtain ⟨nd, node, rfl⟩ := List.mem_map.1 (valid.inside n d dep).2
  rcases h.known nd node with pending | running | resolved
  · exact absurd dep (first _ pending)
  · exact absurd running (idle _)
  · exact resolved

/-- Nodes that are cancelled at the end of a run are the last without a result. -/
theorem Sound.isSome_cancelPending (h : s.Sound) (idle : ∀ n, ¬ s.Running n) (n : ℕ) :
    (s.cancelPending.results n).isSome ↔ n ∈ s.graph.nodes.map Node.id := by
  simp only [cancelPending]
  constructor
  · intro resolved
    split_ifs at resolved with pending
    · obtain ⟨nd, node, id⟩ := h.nodes_only n (.inl pending)
      exact List.mem_map.2 ⟨nd, node, id⟩
    · obtain ⟨nd, node, id⟩ := h.resolved_nodes n (Option.isSome_iff_exists.1 resolved)
      exact List.mem_map.2 ⟨nd, node, id⟩
  · intro mem
    obtain ⟨nd, node, rfl⟩ := List.mem_map.1 mem
    rcases h.known nd node with pending | running | ⟨r, result⟩
    · simp [pending]
    · exact absurd running (idle _)
    · split_ifs <;> simp [result]

/-- Results stay, and a task that was in the run is in it as it was or has its result. -/
structure Moves (s t : RunState π) : Prop where
  results : ∀ n r, s.results n = some r → t.results n = some r
  running : ∀ n task, s.running n = some task → t.running n = some task ∨ t.Resolved n

theorem Moves.trans {u : RunState π} (h : Moves s t) (h' : Moves t u) : Moves s u := by
  refine ⟨fun n r => h'.results n r ∘ h.results n r, fun n task running => ?_⟩
  rcases h.running n task running with running | ⟨r, result⟩
  · exact h'.running n task running
  · exact .inr ⟨r, h'.results n r result⟩

theorem Records.moves (h : Records s t) : Moves s t :=
  ⟨h.results, fun n task running => (h.going n task running).imp_right fun ⟨r, result, _⟩ => ⟨r, result⟩⟩

theorem Starts.moves (h : Starts s t) : Moves s t :=
  ⟨h.results, fun n task running => .inl (h.kept n task running)⟩

theorem Frame.moves (h : Frame s t) : Moves s t :=
  ⟨h.results, fun n task running => .inl (by rwa [h.running])⟩

theorem Sound.moves_cancelPending (h : s.Sound) : s.Moves s.cancelPending := by
  refine ⟨fun n r result => ?_, fun n task => .inl⟩
  have settled : n ∉ s.pending := fun pending => by simp [(h.pending_open n pending).1] at result
  simpa [cancelPending, settled] using result

theorem Moves.toGo_le (h : s.Moves t) (n : ℕ) : t.toGo n ≤ s.toGo n := by
  unfold toGo
  split
  · omega
  · rename_i unresolved
    have unresolved' : ¬ (s.results n).isSome := by
      intro resolved
      obtain ⟨r, result⟩ := Option.isSome_iff_exists.1 resolved
      simp [h.results n r result] at unresolved
    rw [if_neg unresolved']
    cases running : s.running n with
    | none => exact stepsLeft_le _
    | some task =>
      rcases h.running n task running with running | ⟨r, result⟩
      · rw [running]
      · simp [result] at unresolved

end RunState

namespace Execution

open RunState

variable {g : Graph π} {e f : Execution π}

/-- No cancellation reaches the runner. -/
def Uncancelled : Execution π → RunLabel → Prop :=
  fun _ label => ∀ absorbed, label ≠ .cancel absorbed

/-- The run waits for a task that is in it. -/
structure Waits (g : Graph π) (e : Execution π) : Prop extends Live g e where
  waiting : e.phase = .waiting
  active : e.state.active = true

/-- The run has returned, with a result for each node. -/
structure Complete (g : Graph π) (e : Execution π) : Prop where
  returned : e.phase = .finished (.returned false)
  resolved : ∀ n, (e.state.results n).isSome ↔ n ∈ g.nodes.map Node.id

/-- The head of the loop waits for what it has started, or ends the run. -/
theorem proceed_complete (valid : g.Valid) (live : Live g (proceed e) ∨ Over (proceed e)) (sound : e.state.Sound)
    (graph : e.state.graph = g) (waiting : e.phase = .waiting) :
    (Waits g (proceed e) ∨ Complete g (proceed e)) ∧ e.state.Moves (proceed e).state := by
  obtain ⟨sound', -⟩ := sound.startReady
  have starts := sound.starts
  obtain rfl := graph
  rw [← starts.graph] at valid
  simp only [proceed] at live ⊢
  split_ifs at live ⊢ with active stuck
  · exact ⟨.inl ⟨live_of_unfinished live (by simp [waiting]), waiting, active⟩, starts.moves⟩
  · exfalso
    have idle := not_running_of_inactive sound' (by simpa using active)
    obtain ⟨n, pending, ready⟩ := sound'.exists_ready valid idle stuck.1
    rw [not_ready_of_startReady (by simpa using stuck.2) pending] at ready
    simp at ready
  · obtain ⟨sound'', -, frame⟩ := sound'.resolveSkips
    have idle : ∀ n, ¬ e.state.startReady.resolveSkips.Running n := by
      intro n
      rw [Running, frame.running]
      exact not_running_of_inactive sound' (by simpa using active) n
    refine ⟨.inr ⟨rfl, fun n => ?_⟩, (starts.moves.trans frame.moves).trans sound''.moves_cancelPending⟩
    rw [sound''.isSome_cancelPending idle, frame.graph, starts.graph]

theorem Complete.stops {label : RunLabel} (h : Complete g e) : e.step label = none := by
  cases label <;> simp [Execution.step, h.returned]

/-- A step that moves one task on, and leaves the rest of the state as it is. -/
theorem setTask_toGo {task : NodeTask} (task' : NodeTask) (sound : e.state.Sound)
    (running : e.state.running n = some task) (less : stepsLeft (some task') < stepsLeft (some task)) :
    (e.setTask n task').state.toGo n < e.state.toGo n ∧
      ∀ m, (e.setTask n task').state.toGo m ≤ e.state.toGo m := by
  have open_ := sound.running_open n ⟨task, running⟩
  have here : (e.setTask n task').state.toGo n < e.state.toGo n := by
    simpa [toGo, setTask, open_, running] using less
  refine ⟨here, fun m => ?_⟩
  by_cases same : m = n
  · rw [same]
    omega
  · simp [toGo, setTask, Function.update_of_ne same]

/-- **One step of a run that is not cancelled**: it waits or is complete, results stay, and a node comes
nearer to its result. -/
theorem Waits.step {label : RunLabel} (valid : g.Valid) (h : Waits g e) (uncancelled : Uncancelled e label)
    (hs : e.step label = some f) :
    (Waits g f ∨ Complete g f) ∧ (∀ n r, e.state.results n = some r → f.state.results n = some r) ∧
      (∃ n ∈ g.nodes.map Node.id, f.state.toGo n < e.state.toGo n) ∧ ∀ n, f.state.toGo n ≤ e.state.toGo n := by
  have goes := h.toLive.step hs
  have node {n : ℕ} {task : NodeTask} (running : e.state.running n = some task) : n ∈ g.nodes.map Node.id := by
    obtain ⟨nd, node, id⟩ := h.sound.nodes_only n (.inr ⟨task, running⟩)
    exact List.mem_map.2 ⟨nd, h.graph ▸ node, id⟩
  -- A task that has moved is in the run still.
  have waits {n : ℕ} {task task' : NodeTask} (running : e.state.running n = some task)
      (live : Live g f) (phase : f.phase = e.phase) (state : f.state = (e.setTask n task').state) : Waits g f := by
    refine ⟨live, phase.trans h.waiting, ?_⟩
    obtain ⟨nd, node, id⟩ := h.sound.nodes_only n (.inr ⟨task, running⟩)
    rw [state]
    exact List.any_eq_true.2 ⟨nd, node, by simp [setTask, id]⟩
  have going (live : Live g f ∨ Over f) (phase : f.phase = e.phase) : Live g f :=
    live_of_unfinished live (by simp [phase, h.waiting])
  cases takes_of_step hs with
  | dispatch waiting created =>
    obtain ⟨less, le⟩ := setTask_toGo .dispatched h.sound created (by simp [stepsLeft])
    exact ⟨.inl (waits created (going goes rfl) rfl rfl), fun _ _ => id, ⟨_, node created, less⟩, le⟩
  | ends outcome running called =>
    obtain rfl := called.resolve_right fun created => created.2 h.waiting
    obtain ⟨less, le⟩ := setTask_toGo (.ended outcome) h.sound running (by simp [stepsLeft])
    exact ⟨.inl (waits running (going goes rfl) rfl rfl), fun _ _ => id, ⟨_, node running, less⟩, le⟩
  | wake waiting woken =>
    obtain ⟨sound, records⟩ := h.sound.recordAll
    obtain ⟨done, rest⟩ := proceed_complete (e := { e with state := e.state.recordAll }) valid goes sound
      (records.graph.trans h.graph) h.waiting
    have moves := records.moves.trans rest
    refine ⟨done, moves.results, ?_, moves.toGo_le⟩
    obtain ⟨nd, mem, outcome, ended⟩ := woken
    obtain ⟨r, result, -⟩ := (records.going nd.id _ ended).resolve_left (h.sound.not_ended_recordAll nd.id outcome)
    have open_ := h.sound.running_open nd.id ⟨_, ended⟩
    refine ⟨nd.id, node ended, ?_⟩
    simp [toGo, rest.results nd.id r result, open_, stepsLeft_pos]
  | cancel => exact absurd rfl (uncancelled _)
  | drained draining => cases h.waiting.symm.trans draining

/-! ## Whole runs -/

theorem waits_start (valid : g.Valid) : Waits g (start g) ∨ Complete g (start g) :=
  (proceed_complete valid (live_start valid.ids valid.hard_deps) (sound_init valid.ids valid.hard_deps) rfl rfl).1

theorem waits_of_reaches (valid : g.Valid) (run : Reaches Execution.step Uncancelled (start g) e) :
    Waits g e ∨ Complete g e := by
  refine run.invariant (I := fun e => Waits g e ∨ Complete g e) (waits_start valid) fun e label f going ok hs => ?_
  rcases going with waits | done
  · exact (waits.step valid ok hs).1
  · simp [done.stops] at hs

/-- How far a run is from its end, at most. -/
def stepsToGo (g : Graph π) (e : Execution π) : ℕ :=
  ∑ n ∈ (g.nodes.map Node.id).toFinset, e.state.toGo n

theorem stepsToGo_le (g : Graph π) (e : Execution π) : stepsToGo g e ≤ 3 * g.nodes.length := by
  have each := Finset.sum_le_card_nsmul (g.nodes.map Node.id).toFinset e.state.toGo 3 fun n _ => toGo_le_three n
  have card : (g.nodes.map Node.id).toFinset.card ≤ g.nodes.length := by
    simpa using List.toFinset_card_le (g.nodes.map Node.id)
  have each : stepsToGo g e ≤ (g.nodes.map Node.id).toFinset.card * 3 := by simpa [stepsToGo] using each
  omega

/-- **A run that is not cancelled is finite.** -/
theorem length_le {labels : List RunLabel} (valid : g.Valid) (uncancelled : ∀ absorbed, .cancel absorbed ∉ labels)
    (run : exec Execution.step (start g) labels = some e) : labels.length ≤ 3 * g.nodes.length := by
  have along : okAlong Execution.step Uncancelled (start g) labels :=
    okAlong_of_forall fun label mem _ absorbed => by
      rintro rfl
      exact uncancelled absorbed mem
  have bound := length_le_of_exec (I := fun e => Waits g e ∨ Complete g e) (stepsToGo g) run along
    (waits_start valid) fun e label f going ok hs => by
      rcases going with waits | done
      · obtain ⟨next, -, ⟨n, node, less⟩, le⟩ := waits.step valid ok hs
        exact ⟨next, Finset.sum_lt_sum (fun n _ => le n) ⟨n, List.mem_toFinset.2 node, less⟩⟩
      · simp [done.stops] at hs
  have start := stepsToGo_le g (start g)
  omega

/-- A run that waits can go on without a cancellation. -/
theorem Waits.goes_on (h : Waits g e) : ∃ label, (∀ absorbed, label ≠ .cancel absorbed) ∧ (e.step label).isSome := by
  obtain ⟨nd, node, running⟩ := List.any_eq_true.1 h.active
  obtain ⟨task, running⟩ := Option.isSome_iff_exists.1 running
  cases task with
  | created => exact ⟨.dispatch nd.id, by simp, by simp [Execution.step, h.waiting, running]⟩
  | dispatched => exact ⟨.ends nd.id .ok, by simp, by simp [Execution.step, h.waiting, running]⟩
  | ended outcome =>
    refine ⟨.wake, by simp, ?_⟩
    simp only [Execution.step, h.waiting, true_and]
    rw [if_pos (List.any_eq_true.2 ⟨nd, node, by simp [running]⟩)]
    rfl

/-- A run can come to its end without a cancellation. -/
theorem exists_complete (valid : g.Valid) (h : Waits g e ∨ Complete g e) :
    ∃ f, Reaches Execution.step Uncancelled e f ∧ Complete g f := by
  obtain ⟨f, run, -, complete⟩ := exists_done (I := fun e => Waits g e ∨ Complete g e) (stepsToGo g) h fun e going => by
    rcases going with waits | complete
    · obtain ⟨label, uncancelled, enabled⟩ := waits.goes_on
      obtain ⟨f, hs⟩ := Option.isSome_iff_exists.1 enabled
      obtain ⟨next, -, ⟨n, node, less⟩, le⟩ := waits.step valid uncancelled hs
      exact .inr ⟨label, f, uncancelled, hs, next, Finset.sum_lt_sum (fun n _ => le n) ⟨n, List.mem_toFinset.2 node, less⟩⟩
    · exact .inl complete
  exact ⟨f, run, complete⟩

/-- What the runner promises of a run that is not cancelled. -/
structure RunSafe (g : Graph π) (labels : List RunLabel) (e : Execution π) : Prop where
  no_deadlock : e.phase ≠ .finished .deadlock
  /-- A run is finite, and is not stuck before its end. -/
  bounded : labels.length ≤ 3 * g.nodes.length
  goes_on : (∀ ending, e.phase ≠ .finished ending) →
    ∃ label, (∀ absorbed, label ≠ .cancel absorbed) ∧ (e.step label).isSome
  /-- Where it ends, each node has its result, and nothing else has one. -/
  complete : ∀ ending, e.phase = .finished ending →
    ending = .returned false ∧ ∀ n, (e.state.results n).isSome ↔ n ∈ g.nodes.map Node.id
  /-- No result is ever replaced. -/
  kept : ∀ label f, (∀ absorbed, label ≠ .cancel absorbed) → e.step label = some f →
    ∀ n r, e.state.results n = some r → f.state.results n = some r
  once : e.dispatched.Nodup
  free : ∀ nd ∈ g.nodes, nd.id ∈ e.dispatched → nd.override = none
  ordered : ∀ n f, e.step (.dispatch n) = some f → n ∈ g.nodes.map Node.id ∧
    (∀ d ∈ g.deps n, (e.state.results d).isSome) ∧
    ∀ d ∈ g.hard n, ∃ r, e.state.results d = some r ∧
      (r.status = .ok ∨ ∃ nd ∈ g.nodes, nd.id = d ∧ nd.onFailure = .continue)

theorem Waits.ordered (h : Waits g e) (hs : e.step (.dispatch n) = some f) : n ∈ g.nodes.map Node.id ∧
    (∀ d ∈ g.deps n, (e.state.results d).isSome) ∧
    ∀ d ∈ g.hard n, ∃ r, e.state.results d = some r ∧
      (r.status = .ok ∨ ∃ nd ∈ g.nodes, nd.id = d ∧ nd.onFailure = .continue) := by
  simp only [Execution.step, Option.ite_none_right_eq_some] at hs
  obtain ⟨⟨-, created⟩, -⟩ := hs
  have running : e.state.Running n := ⟨_, created⟩
  obtain rfl := h.graph
  obtain ⟨nd, node, id⟩ := h.sound.nodes_only n (.inr running)
  refine ⟨List.mem_map.2 ⟨nd, node, id⟩, fun d dep => ?_, fun d hard => ?_⟩
  · exact Option.isSome_iff_exists.2 (h.sound.waited n (.inr running) d dep)
  · obtain ⟨r, result⟩ := h.sound.waited n (.inr running) d (h.sound.hard_deps n d hard)
    refine ⟨r, result, ?_⟩
    by_contra bad
    push Not at bad
    refine h.sound.required n (.inr running) d hard ⟨r, result, blocks_iff.2 ⟨bad.1, fun nd found => ?_⟩⟩
    exact bad.2 nd (Graph.node_mem found).1 (Graph.node_mem found).2

/-- No node is dispatched twice. -/
theorem dispatched_nodup (valid : g.Valid) (run : Reaches Execution.step always (start g) e) : e.dispatched.Nodup := by
  refine dispatched_pairwise (R := fun m n => m ≠ n) valid.ids valid.hard_deps (fun e n live created m mem => ?_) run
  rintro rfl
  rcases live.called m mem with ⟨r, result, -⟩ | ⟨task, running, awake⟩
  · simp [live.sound.running_open m ⟨_, created⟩] at result
  · rw [created] at running
    exact awake (Option.some.inj running).symm

/-- What has been dispatched has no override, also where the run is over. -/
theorem dispatched_free (valid : g.Valid) (run : Reaches Execution.step always (start g) e) :
    ∀ nd ∈ g.nodes, nd.id ∈ e.dispatched → nd.override = none := by
  intro nd node
  refine run.invariant₂ (I := fun e => Live g e ∨ Over e) (J := fun e => nd.id ∈ e.dispatched → nd.override = none)
    (fun _ => live_of_reaches valid.ids valid.hard_deps) ?_ fun e label f going free _ hs mem => ?_
  · have none : (start g).dispatched = [] := by
      simp only [start, proceed]
      split_ifs <;> rfl
    simp [none]
  · rcases going with live | done
    · rcases dispatched_of_step hs with same | ⟨n, rfl, created, more⟩
      · exact free (same ▸ mem)
      · rw [more, List.mem_append, List.mem_singleton] at mem
        rcases mem with mem | rfl
        · exact free mem
        · obtain rfl := live.graph
          exact live.sound.free nd.id (.inr ⟨_, created⟩) nd (Graph.node_eq_some valid.ids node)
    · simp [done.step] at hs

/-- **Run safety.** Whatever the outcomes of the nodes and the order in which they end, a run of a graph
that `build` returned and that is not cancelled comes to its end, with a result for every node. No node
is dispatched twice, against its override, or before its dependencies allow it. -/
theorem runSafe {b : GraphBuilder π} {labels : List RunLabel} (made : b.Made) (built : b.build = .ok g)
    (uncancelled : ∀ absorbed, .cancel absorbed ∉ labels)
    (run : exec Execution.step (start g) labels = some e) : RunSafe g labels e := by
  have valid := made.valid built
  have along : Reaches Execution.step Uncancelled (start g) e :=
    reaches_of_exec run (okAlong_of_forall fun label mem _ absorbed => by
      rintro rfl
      exact uncancelled absorbed mem)
  have any : Reaches Execution.step always (start g) e := along.mono fun _ _ _ => trivial
  have going := waits_of_reaches valid along
  refine ⟨fun stuck => ?_, length_le valid uncancelled run, fun unfinished => ?_, fun ending finished => ?_,
    fun label f ok hs => ?_, dispatched_nodup valid any, dispatched_free valid any, fun n f hs => ?_⟩
  all_goals rcases going with waits | done
  · simp [waits.waiting] at stuck
  · simp [done.returned] at stuck
  · exact waits.goes_on
  · exact absurd done.returned (unfinished _)
  · simp [waits.waiting] at finished
  · rw [done.returned] at finished
    exact ⟨(RunnerPhase.finished.inj finished).symm, done.resolved⟩
  · exact (waits.step valid ok hs).2.1
  · simp [done.stops] at hs
  · exact waits.ordered hs
  · simp [done.stops] at hs

/-- Two nodes, the second of which needs the first. -/
def pair : GraphBuilder Unit :=
  ((({} : GraphBuilder Unit).add "open" "mount" () .skip false 0 none).add "point" "mount" () .skip false 0
    none).require 1 [0]

theorem pair_made : pair.Made :=
  .require (.add (.add .empty _ _ _ _ _ _ _) _ _ _ _ _ _ _) (by decide) _

theorem runSafe_example : ∃ e, exec Execution.step (start pair.frozen)
      [.dispatch 0, .ends 0 (.failed "stalled"), .wake] = some e ∧
    e.phase = .finished (.returned false) ∧
    RunSafe pair.frozen [.dispatch 0, .ends 0 (.failed "stalled"), .wake] e := by
  obtain ⟨e, run⟩ : ∃ e, exec Execution.step (start pair.frozen)
      [.dispatch 0, .ends 0 (.failed "stalled"), .wake] = some e := Option.isSome_iff_exists.1 (by decide +kernel)
  have ended : (exec Execution.step (start pair.frozen)
      [.dispatch 0, .ends 0 (.failed "stalled"), .wake]).map Execution.phase =
        some (.finished (.returned false)) := by decide +kernel
  rw [run] at ended
  exact ⟨e, run, Option.some.inj ended, runSafe pair_made rfl (by simp) run⟩

end Execution

end SensorKit.Common
