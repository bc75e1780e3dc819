import SensorKit.Common.DagTurns

/-!
# What holds when a node is dispatched

A node is dispatched some time after it was started. What holds of each task that has been started, in
every state from which a run that has not been stopped goes on, and what is then kept, holds of each node
that is dispatched: nothing is started once the run has been stopped.
-/

namespace SensorKit.Common

open Lib

variable {π : Type}

namespace RunState

variable {g : Graph π} {s t : RunState π} {n : ℕ}

/-- Results without an override: a node was skipped, or its result is its own. -/
def Plain (s : RunState π) : Prop :=
  ∀ n r, s.results n = some r → r.status = .skipped ∨ r.overridden = none

/-- A node that has a result but has not run was skipped. -/
theorem Plain.failed (h : s.Plain) (stops : ∀ nd ∈ s.graph.nodes, nd.onFailure ≠ .continue) (resolved : s.Resolved n)
    (not_ran : ¬ s.Ran n) : s.Failed n := by
  obtain ⟨r, result⟩ := resolved
  have skipped : r.status = .skipped := by
    by_contra other
    have own := (h n r result).resolve_left other
    exact not_ran ⟨r, result, other, own⟩
  refine ⟨r, result, blocks_iff.2 ⟨by simp [skipped], fun nd found => ?_⟩⟩
  exact stops nd (Graph.node_mem found).1

theorem Plain.turn {a : Turn} (h : s.Plain) (free : ∀ nd ∈ s.graph.nodes, nd.override = none)
    (ht : s.turn a = some t) : t.Plain := by
  cases a with
  | skip n =>
    obtain ⟨-, eq⟩ := Option.ite_none_right_eq_some.1 ht
    cases eq
    unfold skip
    split
    · exact h
    · intro m r result
      by_cases same : m = n
      · subst same
        simp only [resolve, Function.update_self, Option.some.injEq] at result
        exact .inl (by rw [← result])
      · rw [resolve_results same] at result
        exact h m r result
  | override n =>
    obtain ⟨-, eq⟩ := Option.ite_none_right_eq_some.1 ht
    cases eq
    unfold overrideNode
    split
    · rename_i ov override
      obtain ⟨nd, found, overridden⟩ := Option.bind_eq_some_iff.1 override
      rw [free nd (Graph.node_mem found).1] at overridden
      simp at overridden
    · exact h

theorem Plain.settle (h : s.Plain) (sound : s.Sound) (free : ∀ nd ∈ s.graph.nodes, nd.override = none) :
    s.settle.Plain := by
  have kept := exec_invariant (I := fun t => t.Plain ∧ t.Sound ∧ t.graph = s.graph) (exec_settle sound) okAlong_always
    ⟨h, sound, rfl⟩ ?_
  · exact kept.1
  · rintro t a u ⟨plain, sound, graph⟩ _ turn
    obtain ⟨sound', frame⟩ := sound.turn turn
    exact ⟨plain.turn (by rwa [graph]) turn, sound', frame.graph.trans graph⟩

theorem Plain.startReady (h : s.Plain) (sound : s.Sound) (free : ∀ nd ∈ s.graph.nodes, nd.override = none) :
    s.startReady.Plain := by
  unfold RunState.startReady
  split
  · exact h.settle sound free
  · exact h.settle sound free

theorem Plain.recordAll (h : s.Plain) : s.recordAll.Plain := by
  apply recordAll_induction h
  intro s n outcome plain _ m r result
  by_cases same : m = n
  · subst same
    simp only [record, Function.update_self, Option.some.injEq] at result
    rw [← result]
    exact .inr (result_ran outcome).2
  · simp only [record, Function.update_of_ne same] at result
    exact plain m r result

/-- Once the run has been stopped nothing is started. -/
theorem running_startReady_of_stop (sound : s.Sound) (stop : s.startReady.stop = true) :
    s.startReady.running = s.running := by
  unfold RunState.startReady at stop ⊢
  split at stop
  · rename_i stopped
    rw [if_pos stopped]
    exact sound.settle.2.2.2.running
  · rename_i goes
    exact absurd stop goes

end RunState

namespace Execution

open RunState

variable {g : Graph π} {e f : Execution π} {n : ℕ}

/-- A step replaces no result of a run that goes on. -/
theorem Live.results_of_step {label : RunLabel} (h : Live g e) (hs : e.step label = some f) {r : NodeResult}
    (result : e.state.results n = some r) : f.state.results n = some r := by
  have cancels {s : RunState π} (sound : s.Sound) (result : s.results n = some r) :
      s.cancelPending.results n = some r := sound.moves_cancelPending.results n r result
  cases takes_of_step hs with
  | wake waiting woken =>
    obtain ⟨sound, records⟩ := h.sound.recordAll
    have started := sound.starts.results n r (records.results n r result)
    obtain ⟨sound', -⟩ := sound.startReady
    obtain ⟨sound'', -, frame⟩ := sound'.resolveSkips
    unfold Execution.proceed
    dsimp only
    split_ifs
    · exact started
    · exact started
    · exact cancels sound'' (frame.results n r started)
  | drained draining idle =>
    obtain ⟨sound, records⟩ := h.sound.recordAll
    exact cancels sound (records.results n r result)
  | _ => exact result

/-- What the nodes wait for that have a task, in a state from which a run goes on under the guard. -/
def Grants (g : Graph π) (guard : Execution π → Prop) (waits : ℕ → ℕ → Prop) : Prop :=
  ∀ e : Execution π, Live g e → e.state.Plain → e.state.stop = false → guard e →
    ∀ n, e.state.running n = some .created → ∀ m, waits n m → e.state.Resolved m

/-- What holds of the tasks that have yet to call the dispatcher, unless the run has been stopped since. -/
structure Granting (g : Graph π) (waits : ℕ → ℕ → Prop) (e : Execution π) : Prop extends Live g e where
  plain : e.state.Plain
  created : e.state.stop = true → ∀ n, e.state.running n = some .created → ∀ m, waits n m → e.state.Resolved m

section Grants

variable {guard : Execution π → Prop} {waits : ℕ → ℕ → Prop}

theorem Granting.granted (h : Granting g waits e) (grants : Grants g guard waits) (ok : guard e)
    (created : e.state.running n = some .created) : ∀ m, waits n m → e.state.Resolved m := by
  cases stop : e.state.stop with
  | false => exact grants e h.toLive h.plain stop ok n created
  | true => exact h.created stop n created

theorem Granting.step {label : RunLabel} (h : Granting g waits e) (grants : Grants g guard waits)
    (free : ∀ nd ∈ g.nodes, nd.override = none) (ok : guard e) (hs : e.step label = some f) :
    Granting g waits f ∨ Over f := by
  refine (h.toLive.step hs).imp_left fun live => ?_
  have kept {n : ℕ} (created : e.state.running n = some .created) (m : ℕ) (wait : waits n m) : f.state.Resolved m := by
    obtain ⟨r, result⟩ := h.granted grants ok created m wait
    exact ⟨r, h.results_of_step hs result⟩
  have task {k : ℕ} {task : NodeTask} (awake : task ≠ .created) (state : f.state = (e.setTask k task).state) :
      Granting g waits f := by
    refine ⟨live, ?_, fun _ n created m wait => ?_⟩
    · rw [state]
      exact h.plain
    · by_cases same : n = k
      · rw [state, same] at created
        simp [setTask, awake] at created
      · rw [state] at created
        simp only [setTask, Function.update_of_ne same] at created
        exact kept created m wait
  cases takes_of_step hs with
  | dispatch => exact task (by simp) rfl
  | ends => exact task (by simp) rfl
  | wake waiting woken =>
    obtain ⟨sound, records⟩ := h.sound.recordAll
    have state : (proceed { e with state := e.state.recordAll }).state = e.state.recordAll.startReady := by
      rcases proceed_cases (e := { e with state := e.state.recordAll }) sound with done | eq
      · obtain ⟨ending, finished⟩ := done.finished
        exact absurd finished (live.going ending)
      · rw [eq]
    have graph : e.state.recordAll.graph = g := records.graph.trans h.graph
    refine ⟨live, ?_, fun stop n created m wait => ?_⟩
    · rw [state]
      exact h.plain.recordAll.startReady sound (by rwa [graph])
    · rw [state] at stop created
      rw [running_startReady_of_stop sound stop] at created
      exact kept (records.running n _ created) m wait
  | cancel => exact ⟨live, h.plain, h.created⟩
  | drained => exact absurd rfl (live.going _)

theorem granting_start (valid : g.Valid) (free : ∀ nd ∈ g.nodes, nd.override = none) :
    Granting g waits (start g) ∨ Over (start g) := by
  refine (live_start valid.ids valid.hard_deps).imp_left fun live => ?_
  have sound : (init g).Sound := sound_init valid.ids valid.hard_deps
  have state : (start g).state = (init g).startReady := by
    rcases proceed_cases (e := { state := init g }) sound with done | eq
    · obtain ⟨ending, finished⟩ := done.finished
      exact absurd finished (live.going ending)
    · rw [start, eq]
  have plain : (init g).Plain := by
    intro n r result
    simp [init] at result
  refine ⟨live, ?_, fun stop n created => ?_⟩
  · rw [state]
    exact plain.startReady sound free
  · rw [state] at stop created
    rw [running_startReady_of_stop sound stop] at created
    simp [init] at created

/-- **What a dispatched node has waited for.** -/
theorem dispatched_of_grants (valid : g.Valid) (free : ∀ nd ∈ g.nodes, nd.override = none)
    (grants : Grants g guard waits) (run : Reaches Execution.step (fun e _ => guard e) (start g) e) :
    ∀ n ∈ e.dispatched, ∀ m, waits n m → e.state.Resolved m := by
  have all := run.invariant (I := fun e => (Granting g waits e ∨ Over e) ∧
    ∀ n ∈ e.dispatched, ∀ m, waits n m → e.state.Resolved m) ⟨granting_start valid free, ?_⟩ ?_
  · exact all.2
  · intro n mem
    unfold start proceed at mem
    dsimp only at mem
    split_ifs at mem
    all_goals simp at mem
  · rintro e label f ⟨going, dispatched⟩ ok hs
    have granting : Granting g waits e := by
      rcases going with granting | done
      · exact granting
      · simp [done.step] at hs
    refine ⟨granting.step grants free ok hs, fun n mem m wait => ?_⟩
    have before : e.state.Resolved m := by
      rcases dispatched_of_step hs with same | ⟨k, -, created, more⟩
      · exact dispatched n (same ▸ mem) m wait
      · rw [more] at mem
        rcases List.mem_append.1 mem with mem | mem
        · exact dispatched n mem m wait
        · obtain rfl := List.mem_singleton.1 mem
          exact granting.granted grants ok created m wait
    obtain ⟨r, result⟩ := before
    exact ⟨r, granting.results_of_step hs result⟩

end Grants

/-! ## Runs in which everything is attempted -/

/-- Nothing that has a result was kept from running, where no node requires another one. -/
theorem ran_of_resolved {s : RunState π} (sound : s.Sound) (free : ∀ nd ∈ s.graph.nodes, nd.override = none)
    (soft : ∀ n, s.graph.hard n = []) (resolved : s.Resolved n) : s.Ran n := by
  rcases sound.given_up n resolved with ran | ⟨d, hard, -⟩ | ⟨nd, found, override⟩
  · exact ran
  · rw [soft n] at hard
    exact absurd hard List.not_mem_nil
  · exact absurd (free nd (Graph.node_mem found).1) override

/-- The head of the loop starts what is left, or has dispatched everything. -/
theorem proceed_all (valid : g.Valid) (free : ∀ nd ∈ g.nodes, nd.override = none) (soft : ∀ n, g.hard n = [])
    (live : Live g (proceed e) ∨ Over (proceed e)) (sound : e.state.Sound) (graph : e.state.graph = g)
    (waiting : e.phase = .waiting) (goes : e.state.stop = false) (ran : ∀ n, e.state.Ran n → n ∈ e.dispatched) :
    Waits g (proceed e) ∧ (proceed e).state.stop = false ∨
      Complete g (proceed e) ∧ ∀ n ∈ g.nodes.map Node.id, n ∈ (proceed e).dispatched := by
  have done := (proceed_complete valid live sound graph waiting).1
  have starts := sound.starts
  have stop : e.state.startReady.stop = false := by
    unfold RunState.startReady
    split
    · rw [stop_settle sound]
      exact goes
    · show e.state.settle.stop = false
      rw [stop_settle sound]
      exact goes
  have sound' := sound.startReady.1
  rcases done with waits | complete
  · left
    refine ⟨waits, ?_⟩
    rcases proceed_cases sound with ended | eq
    · obtain ⟨ending, finished⟩ := ended.finished
      exact absurd finished (waits.going ending)
    · rw [eq]
      exact stop
  · refine .inr ⟨complete, fun n mem => ?_⟩
    have returned := complete.returned
    unfold proceed at returned ⊢
    dsimp only at returned ⊢
    split_ifs at returned ⊢ with active stuck
    · rw [waiting] at returned
      simp at returned
    · simp at returned
    · have pending : e.state.startReady.pending = [] := by
        by_contra left
        exact stuck ⟨left, by simp [stop]⟩
      obtain ⟨nd, node, rfl⟩ := List.mem_map.1 mem
      rw [← graph, ← starts.graph] at node
      rcases sound'.known nd node with left | running | resolved
      · rw [pending] at left
        exact absurd left List.not_mem_nil
      · exact absurd running (not_running_of_inactive sound' (by simpa using active) nd.id)
      · apply ran
        apply (starts.ran nd.id).1
        apply ran_of_resolved sound' ?_ ?_ resolved
        · rwa [starts.graph, graph]
        · rwa [starts.graph, graph]

theorem stop_recordAll {s : RunState π} (steady : ∀ nd ∈ s.graph.nodes, nd.onFailure ≠ .stop) :
    s.recordAll.stop = s.stop := by
  have kept := recordAll_induction (I := fun t => t.graph = s.graph ∧ t.stop = s.stop) ⟨rfl, rfl⟩ ?_
  · exact kept.2
  · rintro t n outcome ⟨graph, stop⟩ -
    refine ⟨graph, ?_⟩
    have unstopped : (t.graph.node n).any (·.onFailure = .stop) = false := by
      cases found : t.graph.node n with
      | none => rfl
      | some nd =>
        rw [graph] at found
        simpa using steady nd (Graph.node_mem found).1
    simp only [record, unstopped, Bool.and_false, Bool.or_false]
    exact stop

/-- **Everything is attempted** in a run that is not cancelled, if no node requires another one to succeed and no
failure stops the run. -/
theorem dispatched_of_complete {ending : Ending} (valid : g.Valid) (free : ∀ nd ∈ g.nodes, nd.override = none)
    (soft : ∀ n, g.hard n = []) (steady : ∀ nd ∈ g.nodes, nd.onFailure ≠ .stop)
    (run : Reaches Execution.step Uncancelled (start g) e) (finished : e.phase = .finished ending) :
    ∀ n ∈ g.nodes.map Node.id, n ∈ e.dispatched := by
  have all := run.invariant (I := fun e => (Waits g e ∧ e.state.stop = false) ∨
    Complete g e ∧ ∀ n ∈ g.nodes.map Node.id, n ∈ e.dispatched) ?_ ?_
  · rcases all with ⟨waits, -⟩ | ⟨-, all⟩
    · exact absurd finished (waits.going ending)
    · exact all
  · apply proceed_all valid free soft (live_start valid.ids valid.hard_deps) (sound_init valid.ids valid.hard_deps) rfl
      rfl rfl
    rintro n ⟨r, result, -⟩
    simp [init] at result
  · rintro e label f (⟨waits, goes⟩ | ⟨complete, -⟩) ok hs
    · have next := (waits.step valid ok hs).1
      have still (phase : f.phase = e.phase) (stop : f.state.stop = e.state.stop) :
          Waits g f ∧ f.state.stop = false := by
        refine ⟨next.resolve_right fun complete => ?_, stop.trans goes⟩
        have returned := complete.returned
        rw [phase, waits.waiting] at returned
        simp at returned
      have live := waits.toLive.step hs
      cases takes_of_step hs with
      | dispatch => exact .inl (still rfl rfl)
      | ends => exact .inl (still rfl rfl)
      | wake =>
        obtain ⟨sound, records⟩ := waits.sound.recordAll
        apply proceed_all (e := { e with state := e.state.recordAll }) valid free soft live sound
          (records.graph.trans waits.graph) waits.waiting
        · show e.state.recordAll.stop = false
          rw [stop_recordAll, goes]
          rwa [waits.graph]
        · intro n ran
          rcases records.ran n ran with ran | ⟨outcome, ended⟩
          · exact waits.ran n ran
          · exact waits.ended waits.waiting n outcome ended
      | cancel => exact absurd rfl (ok _)
      | drained draining => cases waits.waiting.symm.trans draining
    · rw [complete.stops] at hs
      simp at hs

end Execution

end SensorKit.Common
