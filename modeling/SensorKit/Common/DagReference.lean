import SensorKit.Common.DagTurns

/-!
# The statuses of a run and their reference

The reference defines the status of a node by recursion on its dependencies, with no schedule in it. A
run follows the reference as long as its override passes do: a pass may record `ok` for a node whose hard
dependency the same pass has just recorded as skipped.
-/

namespace SensorKit.Common

open Lib

variable {π : Type}

namespace Graph

variable {g : Graph π}

/-- The node states that hard edges out of it ask for completion only. -/
def continues (g : Graph π) (d : ℕ) : Bool :=
  (g.node d).any (·.onFailure = .continue)

/-- The override of a node. -/
def overrideOf (g : Graph π) (n : ℕ) : Option NodeOverride :=
  (g.node n).bind Node.override

/-- What a node that is not skipped comes to: its override's outcome if it has one, its dispatch's if not. -/
def own (g : Graph π) (out : ℕ → TaskEnd) (n : ℕ) : Status :=
  match g.overrideOf n with
  | some ov => if ov.ok then .ok else .skipped
  | none => (RunState.result (out n)).status

/-- The status of a node, by recursion on its dependencies. -/
def Valid.reference (valid : g.Valid) (out : ℕ → TaskEnd) : ℕ → Status :=
  valid.acyclic.fix fun n status =>
    if (g.hard n).attach.any fun d => !g.continues d && status d (valid.hard_deps n d d.2) ≠ .ok then .skipped
    else g.own out n

variable {out : ℕ → TaskEnd} {n : ℕ}

/-- Some hard dependency that does not declare `continue` is not ok. -/
def Valid.Blocked (valid : g.Valid) (out : ℕ → TaskEnd) (n : ℕ) : Prop :=
  ∃ d ∈ g.hard n, g.continues d = false ∧ valid.reference out d ≠ .ok

theorem Valid.reference_eq (valid : g.Valid) (out : ℕ → TaskEnd) (n : ℕ) :
    (valid.Blocked out n ∧ valid.reference out n = .skipped) ∨
      (¬ valid.Blocked out n ∧ valid.reference out n = g.own out n) := by
  have unfolds : valid.reference out n =
      if (g.hard n).attach.any fun d => !g.continues d && valid.reference out d ≠ .ok then .skipped
      else g.own out n := WellFounded.fix_eq _ _ _
  have any : ((g.hard n).attach.any fun d => !g.continues d && valid.reference out d ≠ .ok) = true ↔
      valid.Blocked out n := by
    simp only [List.any_eq_true, List.mem_attach, true_and, Subtype.exists, Bool.and_eq_true, Bool.not_eq_true',
      decide_eq_true_eq, Blocked, exists_prop]
  rw [unfolds]
  split_ifs with blocked
  · exact .inl ⟨any.1 blocked, rfl⟩
  · exact .inr ⟨fun h => blocked (any.2 h), rfl⟩

end Graph

namespace RunState

variable {g : Graph π} {s t : RunState π} {n d : ℕ} {r : NodeResult} {out : ℕ → TaskEnd}

theorem blocks_eq : s.blocks d r = true ↔ r.status ≠ .ok ∧ s.graph.continues d = false := by
  cases found : s.graph.node d <;> simp [blocks, Graph.continues, found]

/-- A skip turn leaves the state, or records a skip of a node that is blocked. -/
theorem skip_cases (s : RunState π) (n : ℕ) : (s.blockers n = [] ∧ s.skip n = s) ∨
    (s.blockers n ≠ [] ∧ s.skip n = s.resolve n { status := .skipped, overridden := excused (s.blockers n) }) := by
  cases causes : s.blockers n with
  | nil => exact .inl ⟨rfl, by simp only [skip, causes]⟩
  | cons => exact .inr ⟨by simp, by simp only [skip, causes]⟩

/-- An override turn leaves the state, or records the override of a node that is ready. -/
theorem overrideNode_cases (s : RunState π) (n : ℕ) : s.overrideNode n = s ∨
    ∃ ov, s.graph.overrideOf n = some ov ∧ s.ready n = true ∧
      s.overrideNode n = s.resolve n { status := if ov.ok then .ok else .skipped, overridden := some ov.reason } := by
  simp only [overrideNode, Graph.overrideOf]
  split
  · rename_i ov override
    split
    · exact .inr ⟨ov, override, ‹_›, rfl⟩
    · exact .inl rfl
  · exact .inl rfl

/-- A result that is recorded for a node. -/
theorem Right.resolve {right : ℕ → NodeResult → Prop} (h : s.Right right) (here : right n r) :
    (s.resolve n r).Right right := by
  intro m r' recorded
  by_cases same : m = n
  · subst same
    obtain rfl : r = r' := by simpa [RunState.resolve] using recorded
    exact here
  · exact h m r' (by rwa [resolve_results same] at recorded)

/-- The result has the reference's status. -/
def HasStatus (valid : g.Valid) (out : ℕ → TaskEnd) (n : ℕ) (r : NodeResult) : Prop :=
  r.status = valid.reference out n

/-- What blocks a node in the state blocks it in the reference. -/
theorem blocked_of_blockers (valid : g.Valid) (graph : s.graph = g) (h : s.Right (HasStatus valid out))
    (blocked : s.blockers n ≠ []) : valid.Blocked out n := by
  obtain ⟨r, mem⟩ := List.exists_mem_of_ne_nil _ blocked
  obtain ⟨d, hard, result, blocks⟩ := mem_blockers.1 mem
  obtain ⟨bad, goes⟩ := blocks_eq.1 blocks
  subst graph
  exact ⟨d, hard, goes, by rwa [← h d r result]⟩

/-- What blocks a node in the reference blocks it in the state, once its hard dependencies have resolved. -/
theorem blockers_of_blocked (valid : g.Valid) (graph : s.graph = g) (h : s.Right (HasStatus valid out))
    (resolved : ∀ d ∈ g.hard n, s.Resolved d) (blocked : valid.Blocked out n) : s.blockers n ≠ [] := by
  obtain ⟨d, hard, goes, bad⟩ := blocked
  obtain ⟨r, result⟩ := resolved d hard
  subst graph
  refine List.ne_nil_of_mem (mem_blockers.2 ⟨d, hard, result, blocks_eq.2 ⟨?_, goes⟩⟩)
  rwa [h d r result]

/-- A task in the run ends with the reference's status. -/
theorem Fixes.status_of_running (valid : g.Valid) (h : s.Fixes out g) (right : s.Right (HasStatus valid out))
    (running : s.Running n) : (result (out n)).status = valid.reference out n := by
  have graph := h.graph
  subst graph
  rcases valid.reference_eq out n with ⟨blocked, -⟩ | ⟨-, eq⟩
  · exfalso
    have free := blockers_eq_nil.2 (h.sound.required n (.inr running))
    exact blockers_of_blocked valid rfl right (fun d hard => h.sound.waited n (.inr running) d
      (h.sound.hard_deps n d hard)) blocked free
  · obtain ⟨nd, node, rfl⟩ := h.sound.nodes_only n (.inr running)
    have found := Graph.node_eq_some valid.ids node
    have none := h.sound.free nd.id (.inr running) nd found
    rw [eq]
    simp [Graph.own, Graph.overrideOf, found, none]

/-- The turn records no `ok` for a node that a hard dependency blocks. -/
def ForcesUnblocked (s : RunState π) (a : Turn) : Prop :=
  ∀ n ov, a = .override n → s.graph.overrideOf n = some ov → ov.ok = true → s.ready n = true → s.blockers n = []

theorem resolved_of_ready (h : s.Sound) (ready : s.ready n = true) : ∀ d ∈ s.graph.hard n, s.Resolved d :=
  fun d hard => ready_iff.1 ready d (h.hard_deps n d hard)

/-- **A turn follows the reference.** -/
theorem Right.turn {a : Turn} (valid : g.Valid) (h : s.Fixes out g) (right : s.Right (HasStatus valid out))
    (ok : s.ForcesUnblocked a) (ht : s.turn a = some t) : t.Right (HasStatus valid out) := by
  cases a with
  | skip n =>
    obtain ⟨-, eq⟩ := Option.ite_none_right_eq_some.1 ht
    cases eq
    rcases skip_cases s n with ⟨-, eq⟩ | ⟨blocked, eq⟩
    · rwa [eq]
    · rw [eq]
      refine right.resolve ?_
      rcases valid.reference_eq out n with ⟨-, skipped⟩ | ⟨unblocked, -⟩
      · exact skipped.symm
      · exact absurd (blocked_of_blockers valid h.graph right blocked) unblocked
  | override n =>
    obtain ⟨-, eq⟩ := Option.ite_none_right_eq_some.1 ht
    cases eq
    rcases overrideNode_cases s n with eq | ⟨ov, override, ready, eq⟩
    · rwa [eq]
    · rw [eq]
      refine right.resolve ?_
      have graph := h.graph
      subst graph
      rcases valid.reference_eq out n with ⟨blocked, skipped⟩ | ⟨-, own⟩
      · have causes := blockers_of_blocked valid rfl right (resolved_of_ready h.sound ready) blocked
        have forced : ov.ok = false := by
          by_contra forced
          exact causes (ok n ov rfl override (by simpa using forced) ready)
        simp [HasStatus, skipped, forced]
      · simp [HasStatus, own, Graph.own, override]

/-- A turn that follows the reference forces no blocked node. -/
theorem Right.forcesUnblocked {a : Turn} (valid : g.Valid) (h : s.Fixes out g) (right : s.Right (HasStatus valid out))
    (right' : t.Right (HasStatus valid out)) (ht : s.turn a = some t) : s.ForcesUnblocked a := by
  rintro n ov rfl override ok ready
  obtain ⟨-, eq⟩ := Option.ite_none_right_eq_some.1 ht
  cases eq
  by_contra blocked
  have recorded : (s.overrideNode n).results n = some { status := .ok, overridden := some ov.reason } := by
    have bound : (s.graph.node n).bind Node.override = some ov := override
    simp [overrideNode, bound, ready, RunState.resolve, ok]
  have status := right' n _ recorded
  rcases valid.reference_eq out n with ⟨-, skipped⟩ | ⟨unblocked, -⟩
  · simp [HasStatus, skipped] at status
  · exact unblocked (blocked_of_blockers valid h.graph right blocked)

end RunState

namespace Execution

open RunState

variable {g : Graph π} {e : Execution π} {out : ℕ → TaskEnd}

/-- What a run has recorded has the reference's status, and at its end that is every node. -/
structure FollowsReference (valid : g.Valid) (out : ℕ → TaskEnd) (e : Execution π) : Prop where
  recorded : ∀ n r, e.state.results n = some r → r.status = valid.reference out n
  complete : ∀ ending, e.phase = .finished ending → ∀ n ∈ g.nodes.map Node.id,
    (e.state.results n).map NodeResult.status = some (valid.reference out n)

/-- Every run that is not cancelled, in which each task ends as its node does, follows the reference. -/
def ScheduleIndependent (valid : g.Valid) (out : ℕ → TaskEnd) : Prop :=
  ∀ labels e, okAlong Execution.step (Fixed out) (start g) labels →
    exec Execution.step (start g) labels = some e → FollowsReference valid out e

theorem follows_of_exec {labels : List RunLabel} (valid : g.Valid)
    (unstopped : ∀ nd ∈ g.nodes, (result (out nd.id)).status = .failed → nd.onFailure ≠ .stop)
    (fixed : okAlong Execution.step (Fixed out) (start g) labels)
    (run : exec Execution.step (start g) labels = some e) : Follows out g e :=
  exec_invariant run fixed (follows_start valid) fun _ _ _ h met hs => h.step valid unstopped met hs

/-- **Schedule independence.** Where no node that fails stops the run, a run follows the reference
exactly if none of its override passes records `ok` for a node that is blocked when its turn comes. -/
theorem followsReference_iff {labels : List RunLabel} (valid : g.Valid)
    (unstopped : ∀ nd ∈ g.nodes, (result (out nd.id)).status = .failed → nd.onFailure ≠ .stop)
    (fixed : okAlong Execution.step (Fixed out) (start g) labels)
    (run : exec Execution.step (start g) labels = some e) :
    FollowsReference valid out e ↔ TurnsOk ForcesUnblocked g labels := by
  constructor
  · intro follows
    exact turnsOk_of_right valid unstopped (fun s a t h right right' ht => right.forcesUnblocked valid h right' ht)
      fixed run follows.recorded
  · intro ok
    have right : e.state.Right (HasStatus valid out) := right_of_turnsOk valid unstopped
      (fun s h right ok => right_settle (fun s a t h right ok ht => right.turn valid h ok ht) h right ok)
      (fun s n h right => h.status_of_running valid right) fixed ok run
    refine ⟨right, fun ending finished n node => ?_⟩
    rcases follows_of_exec valid unstopped fixed run with ⟨waits, -⟩ | done
    · exact absurd finished (waits.going ending)
    · obtain ⟨r, result⟩ := Option.isSome_iff_exists.1 ((done.resolved n).2 node)
      rw [result]
      exact congrArg some (right n r result)

/-- A node that is overridden to `ok` needs one that is overridden to skip. They wait for one task each. -/
def forced : GraphBuilder Unit :=
  ((((((({} : GraphBuilder Unit).add "slew" "mount" () .skip false 0 none).add "cool" "camera" () .skip false 0
    none).add "open" "dome" () .skip false 0 (some ⟨false, "out of service"⟩)).add "track" "mount" () .skip false 0
      (some ⟨true, "tracking already"⟩)).order 2 [0]).require 3 [2]).order 3 [1]

theorem forced_made : forced.Made :=
  .order (.require (.order (.add (.add (.add (.add .empty _ _ _ _ _ _ _) _ _ _ _ _ _ _) _ _ _ _ _ _ _) _ _ _ _ _ _ _)
    (by decide) _) (by decide) _) (by decide) _

theorem forced_valid : forced.frozen.Valid :=
  forced_made.valid rfl

/-- Both tasks run; the one that the skip waits for ends first, or last. -/
def skipFirst : List RunLabel := [.dispatch 0, .dispatch 1, .ends 0 .ok, .wake, .ends 1 .ok, .wake]

def skipLast : List RunLabel := [.dispatch 0, .dispatch 1, .ends 1 .ok, .wake, .ends 0 .ok, .wake]

theorem fixed_of_ok {labels : List RunLabel} {s : Execution Unit}
    (ok : ∀ label ∈ labels, label = .wake ∨ (∃ n, label = .dispatch n) ∨ ∃ n, label = .ends n .ok) :
    okAlong Execution.step (Fixed fun _ => .ok) s labels := by
  refine okAlong_of_forall fun label mem _ => ⟨fun absorbed cancelled => ?_, fun n outcome ends => ?_⟩
  · rcases ok label mem with eq | ⟨n, eq⟩ | ⟨n, eq⟩ <;> simp [eq] at cancelled
  · rcases ok label mem with eq | ⟨m, eq⟩ | ⟨m, eq⟩ <;> simp [eq] at ends
    exact ends.2.symm

/-- Which of the two tasks ends first decides whether the node that needs the skipped one is ok. -/
theorem not_scheduleIndependent_forced :
    (∀ nd ∈ forced.frozen.nodes, (result .ok).status = .failed → nd.onFailure ≠ .stop) ∧
      ((exec Execution.step (start forced.frozen) skipFirst).bind fun e => e.state.results 3).map NodeResult.status =
        some .skipped ∧
      ((exec Execution.step (start forced.frozen) skipLast).bind fun e => e.state.results 3).map NodeResult.status =
        some .ok ∧
      ¬ ScheduleIndependent forced_valid fun _ => .ok := by
  have first : ((exec Execution.step (start forced.frozen) skipFirst).bind fun e => e.state.results 3).map
      NodeResult.status = some .skipped := by decide +kernel
  have last : ((exec Execution.step (start forced.frozen) skipLast).bind fun e => e.state.results 3).map
      NodeResult.status = some .ok := by decide +kernel
  refine ⟨by simp [result], first, last, fun independent => ?_⟩
  obtain ⟨r, result, skipped⟩ := Option.map_eq_some_iff.1 first
  obtain ⟨e, run, result⟩ := Option.bind_eq_some_iff.1 result
  obtain ⟨r', result', ok⟩ := Option.map_eq_some_iff.1 last
  obtain ⟨e', run', result'⟩ := Option.bind_eq_some_iff.1 result'
  have same := (independent skipFirst e (fixed_of_ok (by simp [skipFirst])) run).recorded 3 r result
  have same' := (independent skipLast e' (fixed_of_ok (by simp [skipLast])) run').recorded 3 r' result'
  rw [skipped] at same
  rw [ok, ← same] at same'
  simp at same'

theorem followsReference_example : ∃ e, exec Execution.step (start forced.frozen) skipFirst = some e ∧
    (FollowsReference forced_valid (fun _ => .ok) e ↔ TurnsOk ForcesUnblocked forced.frozen skipFirst) := by
  obtain ⟨e, run⟩ : ∃ e, exec Execution.step (start forced.frozen) skipFirst = some e :=
    Option.isSome_iff_exists.1 (by decide +kernel)
  exact ⟨e, run, followsReference_iff forced_valid (by simp [result]) (fixed_of_ok (by simp [skipFirst])) run⟩

end Execution

end SensorKit.Common
