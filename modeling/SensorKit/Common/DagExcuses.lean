import SensorKit.Common.DagReference

/-!
# The excuses of a run

A skip that follows from overridden nodes only stays out of the failures. `skip_pass` asks that of the
hard dependencies that have resolved by then, and reads an empty reason as none. A run excuses as its
final outcomes say if neither of that ever matters.
-/

namespace SensorKit.Common

open Lib

variable {π : Type}

namespace Graph

variable {g : Graph π} {out : ℕ → TaskEnd} {n : ℕ}

/-- Whether an override accounts for what the node comes to, by recursion on its dependencies: its own
override, or that every hard dependency that blocks it is accounted for. -/
noncomputable def Valid.excused (valid : g.Valid) (out : ℕ → TaskEnd) : ℕ → Prop :=
  valid.acyclic.fix fun n excused =>
    (valid.Blocked out n → ∀ d, ∀ hard : d ∈ g.hard n, g.continues d = false → valid.reference out d ≠ .ok →
      excused d (valid.hard_deps n d hard)) ∧
    (¬ valid.Blocked out n → (g.overrideOf n).isSome)

theorem Valid.excused_iff (valid : g.Valid) (out : ℕ → TaskEnd) (n : ℕ) : valid.excused out n ↔
    (valid.Blocked out n → ∀ d ∈ g.hard n, g.continues d = false → valid.reference out d ≠ .ok →
      valid.excused out d) ∧
    (¬ valid.Blocked out n → (g.overrideOf n).isSome) := by
  exact iff_of_eq (WellFounded.fix_eq _ _ _)

/-- The node counts as a failure. -/
def Valid.Fails (valid : g.Valid) (out : ℕ → TaskEnd) (nd : Node π) : Prop :=
  (valid.reference out nd.id = .failed ∨ valid.reference out nd.id = .skipped) ∧ nd.optional = false ∧
    ¬ valid.excused out nd.id

end Graph

namespace RunState

variable {g : Graph π} {s t : RunState π} {n d : ℕ} {r : NodeResult} {out : ℕ → TaskEnd}

/-- What blocks pending nodes has been overridden. -/
def OverridesOnly (s : RunState π) : Prop :=
  ∀ n ∈ s.pending, ∀ c ∈ s.blockers n, c.overridden.isSome

/-- An override turn meets no other causes than overridden ones. -/
def MeetsOverrides (s : RunState π) (a : Turn) : Prop :=
  ∀ n ∈ s.pending, a = .override n → ∀ c ∈ s.blockers n, c.overridden.isSome

theorem OverridesOnly.overrideNode (h : s.OverridesOnly) : (s.overrideNode n).OverridesOnly := by
  rcases overrideNode_cases s n with eq | ⟨ov, -, -, eq⟩
  · rwa [eq]
  · rw [eq]
    intro m mem c cause
    obtain ⟨d, hard, result, blocks⟩ := mem_blockers.1 cause
    by_cases same : d = n
    · subst same
      obtain rfl : _ = c := by simpa [RunState.resolve] using result
      rfl
    · rw [resolve_results same] at result
      exact h m (List.mem_of_mem_erase mem) c (mem_blockers.2 ⟨d, hard, result, blocks⟩)

theorem along_overridePass (l : List ℕ) : ∀ s : RunState π, s.OverridesOnly →
    okAlong turn MeetsOverrides s (l.map .override) := by
  induction l with
  | nil => exact fun _ _ => trivial
  | cons n l ih =>
    intro s only
    refine ⟨?_, fun t ht => ?_⟩
    · intro m pending _ c cause
      exact only m pending c cause
    · obtain ⟨-, eq⟩ := Option.ite_none_right_eq_some.1 ht
      rw [← Option.some.inj eq]
      exact ih _ only.overrideNode

theorem skips_of_mem (fuel : ℕ) : ∀ s : RunState π, ∀ a ∈ skipLoopTurns fuel s, ∃ n, a = .skip n := by
  induction fuel with
  | zero => simp [skipLoopTurns]
  | succ fuel ih =>
    intro s a mem
    rw [skipLoopTurns, List.mem_append] at mem
    rcases mem with mem | mem
    · obtain ⟨n, -, rfl⟩ := List.mem_map.1 mem
      exact ⟨n, rfl⟩
    · split_ifs at mem
      · simp at mem
      · exact ih _ a mem

/-- **An override turn meets no genuine failure**: the skips before its pass have resolved what those
block. -/
theorem along_settleLoop (fuel : ℕ) : ∀ s : RunState π, s.Sound →
    okAlong turn MeetsOverrides s (settleLoopTurns fuel s) := by
  induction fuel with
  | zero => exact fun _ _ => trivial
  | succ fuel ih =>
    intro s h
    obtain ⟨sound, settled, -⟩ := h.resolveSkips
    have skips : okAlong turn MeetsOverrides s (skipLoopTurns s.pending.length s) :=
      okAlong_of_forall fun a mem s n _ override => by
        obtain ⟨m, rfl⟩ := skips_of_mem _ _ a mem
        simp at override
    rw [settleLoopTurns]
    refine okAlong_append skips fun t run => ?_
    rw [exec_skipLoop _ s h, ← resolveSkips] at run
    cases run
    split_ifs
    · trivial
    all_goals refine okAlong_append (along_overridePass _ _ fun n pending c cause => ?_) fun t run => ?_
    · simp [settled n pending] at cause
    · trivial
    · simp [settled n pending] at cause
    · have run' := (exec_overridePass sound).symm.trans run
      rw [← Option.some.inj run']
      exact ih _ (Sound.pass overrideNode_settles _ _ sound sound.pending_nodup fun _ => id).1

/-! ## Right excuses -/

/-- The result has the status of the reference, and its excuse. -/
def HasExcuse (valid : g.Valid) (out : ℕ → TaskEnd) (n : ℕ) (r : NodeResult) : Prop :=
  HasStatus valid out n r ∧ (r.overridden.isSome ↔ valid.excused out n)

/-- A turn that skips a node for causes that are all overridden reads each cause's reason, and no hard
dependency that has not resolved yet will come to a genuine failure. -/
def ExcusesFinal (valid : g.Valid) (out : ℕ → TaskEnd) (s : RunState π) (a : Turn) : Prop :=
  ∀ n, a = .skip n → s.blockers n ≠ [] → (∀ c ∈ s.blockers n, c.overridden.isSome) →
    (∀ c ∈ s.blockers n, c.overridden ≠ some "") ∧
    ∀ d ∈ s.graph.hard n, s.graph.continues d = false → s.results d = none →
      valid.reference out d = .ok ∨ valid.excused out d

theorem excused_isSome {causes : List NodeResult} (some_ : causes ≠ []) :
    (excused causes).isSome ↔ ∀ c ∈ causes, ∃ reason, c.overridden = some reason ∧ reason ≠ "" := by
  unfold excused
  have all : (causes.all fun c => c.overridden.any (· ≠ "")) = true ↔
      ∀ c ∈ causes, ∃ reason, c.overridden = some reason ∧ reason ≠ "" := by
    simp [List.all_eq_true, Option.any_eq_true]
  rw [← all]
  split_ifs with overridden
  · obtain ⟨c, rest, rfl⟩ := List.exists_cons_of_ne_nil some_
    obtain ⟨reason, eq, -⟩ := all.1 overridden c (by simp)
    exact iff_of_true (by simp [eq]) overridden
  · exact iff_of_false (by simp) overridden

theorem Right.status (valid : g.Valid) (h : s.Right (HasExcuse valid out)) : s.Right (HasStatus valid out) :=
  fun n r result => (h n r result).1

/-- Each turn excuses as the final outcomes say. -/
theorem Right.turn_excuse {a : Turn} (valid : g.Valid) (h : s.Fixes out g) (right : s.Right (HasExcuse valid out))
    (ok : s.ForcesUnblocked a) (meets : s.MeetsOverrides a) (final : s.ExcusesFinal valid out a)
    (ht : s.turn a = some t) : t.Right (HasExcuse valid out) := by
  have status := right.status.turn valid h ok ht
  have graph := h.graph
  subst graph
  have recorded {n : ℕ} {r : NodeResult} (eq : t = s.resolve n r)
      (excuse : r.overridden.isSome ↔ valid.excused out n) : t.Right (HasExcuse valid out) := by
    subst eq
    exact right.resolve ⟨status n r (by simp [RunState.resolve]), excuse⟩
  cases a with
  | skip n =>
    obtain ⟨-, eq⟩ := Option.ite_none_right_eq_some.1 ht
    cases eq
    rcases skip_cases s n with ⟨-, eq⟩ | ⟨blocked, eq⟩
    · rwa [eq]
    refine recorded eq ?_
    have unfree := blocked_of_blockers valid rfl right.status blocked
    rw [excused_isSome blocked, valid.excused_iff]
    constructor
    · intro all
      refine ⟨fun _ d hard goes bad => ?_, fun free => absurd unfree free⟩
      have overridden (c : NodeResult) (cause : c ∈ s.blockers n) : c.overridden.isSome := by
        obtain ⟨reason, eq, -⟩ := all c cause
        simp [eq]
      cases result : s.results d with
      | none => exact ((final n rfl blocked overridden).2 d hard goes result).resolve_left bad
      | some r =>
        have here := right d r result
        refine here.2.1 (overridden r (mem_blockers.2 ⟨d, hard, result, blocks_eq.2 ⟨?_, goes⟩⟩))
        rw [here.1]
        exact bad
    · rintro ⟨excused, -⟩ c cause
      have overridden (c : NodeResult) (cause : c ∈ s.blockers n) : c.overridden.isSome := by
        obtain ⟨d, hard, result, blocks⟩ := mem_blockers.1 cause
        obtain ⟨bad, goes⟩ := blocks_eq.1 blocks
        have here := right d c result
        refine here.2.2 (excused unfree d hard goes ?_)
        rw [← here.1]
        exact bad
      obtain ⟨reason, eq⟩ := Option.isSome_iff_exists.1 (overridden c cause)
      refine ⟨reason, eq, fun empty => ?_⟩
      exact (final n rfl blocked overridden).1 c cause (by rw [eq, empty])
  | override n =>
    obtain ⟨pending, eq⟩ := Option.ite_none_right_eq_some.1 ht
    cases eq
    rcases overrideNode_cases s n with eq | ⟨ov, override, ready, eq⟩
    · rwa [eq]
    refine recorded eq ?_
    simp only [Option.isSome_some, true_iff]
    refine (valid.excused_iff out n).2 ⟨fun _ d hard goes bad => ?_, fun _ => by simp [override]⟩
    obtain ⟨r, result⟩ := resolved_of_ready h.sound ready d hard
    have here := right d r result
    refine here.2.1 (meets n pending rfl r (mem_blockers.2 ⟨d, hard, result, blocks_eq.2 ⟨?_, goes⟩⟩))
    rw [here.1]
    exact bad

/-- Nothing excuses a task that has run. -/
theorem Fixes.excuse_of_running (valid : g.Valid) (h : s.Fixes out g) (right : s.Right (HasExcuse valid out))
    (running : s.Running n) : HasExcuse valid out n (result (out n)) := by
  refine ⟨h.status_of_running valid right.status running, ?_⟩
  have graph := h.graph
  subst graph
  obtain ⟨nd, node, rfl⟩ := h.sound.nodes_only n (.inr running)
  have found := Graph.node_eq_some valid.ids node
  have none := h.sound.free nd.id (.inr running) nd found
  have unblocked : ¬ valid.Blocked out nd.id := fun blocked =>
    blockers_of_blocked valid rfl right.status
      (fun d hard => h.sound.waited nd.id (.inr running) d (h.sound.hard_deps nd.id d hard)) blocked
      (blockers_eq_nil.2 (h.sound.required nd.id (.inr running)))
  refine iff_of_false (by simp [(result_ran _).2]) fun excused => ?_
  have own := ((valid.excused_iff out nd.id).1 excused).2 unblocked
  simp [Graph.overrideOf, found, none] at own

end RunState

namespace RunReport

theorem mem_failures {report : RunReport π} {nd : Node π} : nd ∈ report.failures.map Prod.fst ↔
    nd ∈ report.graph.nodes ∧ ∃ r, report.results nd.id = some r ∧ (r.status = .failed ∨ r.status = .skipped) ∧
      nd.optional = false ∧ r.overridden = none := by
  simp only [failures, withStatus, List.map_map, List.mem_map, List.mem_filter, List.mem_filterMap,
    Option.map_eq_some_iff, Option.filter_eq_some_iff, Function.comp]
  constructor
  · rintro ⟨nr, ⟨⟨n, node, r, ⟨result, status⟩, rfl⟩, counts⟩, rfl⟩
    exact ⟨node, r, result, by simpa using status, by simpa using counts⟩
  · rintro ⟨node, r, result, status, counts⟩
    exact ⟨(nd, r), ⟨⟨nd, node, r, ⟨result, by simpa using status⟩, rfl⟩, by simpa using counts⟩, rfl⟩

end RunReport

namespace Execution

open RunState

variable {g : Graph π} {e : Execution π} {out : ℕ → TaskEnd}

/-- A run excuses as its final outcomes say: an override accounts for a skipped node if every hard
dependency that did not end ok and does not declare `continue` is overridden itself. What counts as a
failure is a matter of the reference. -/
structure ExcusesByOutcomes (valid : g.Valid) (out : ℕ → TaskEnd) (e : Execution π) : Prop where
  excused : ∀ n r, e.state.results n = some r → r.status = .skipped → (r.overridden.isSome ↔
    ∀ d ∈ g.hard n, g.continues d = false → ∀ r', e.state.results d = some r' → r'.status ≠ .ok →
      r'.overridden.isSome)
  failures : ∀ nd, nd ∈ (RunReport.failures ⟨g, e.state.results, false⟩).map Prod.fst ↔
    nd ∈ g.nodes ∧ valid.Fails out nd

/-- Every run that is not cancelled, in which each task ends as its node does, excuses as its final
outcomes say. -/
def ExcusesIndependent (valid : g.Valid) (out : ℕ → TaskEnd) : Prop :=
  ∀ labels e, okAlong Execution.step (Fixed out) (start g) labels →
    exec Execution.step (start g) labels = some e → (∃ ending, e.phase = .finished ending) →
      ExcusesByOutcomes valid out e

theorem Complete.excuses (valid : g.Valid) (done : Complete g e) (right : e.state.Right (HasExcuse valid out)) :
    ExcusesByOutcomes valid out e := by
  have resolved (n : ℕ) (node : n ∈ g.nodes.map Node.id) : ∃ r, e.state.results n = some r :=
    Option.isSome_iff_exists.1 ((done.resolved n).2 node)
  refine ⟨fun n r result skipped => ?_, fun nd => ?_⟩
  · have here := right n r result
    rw [here.2, valid.excused_iff]
    have status : valid.reference out n = .skipped := here.1 ▸ skipped
    constructor
    · rintro ⟨excused, -⟩ d hard goes r' result' bad
      have dep := right d r' result'
      have bad : valid.reference out d ≠ .ok := dep.1 ▸ bad
      exact dep.2.2 (excused ⟨d, hard, goes, bad⟩ d hard goes bad)
    · intro all
      refine ⟨fun _ d hard goes bad => ?_, fun free => ?_⟩
      · obtain ⟨r', result'⟩ := resolved d (valid.inside n d (valid.hard_deps n d hard)).2
        have dep := right d r' result'
        exact dep.2.1 (all d hard goes r' result' (dep.1 ▸ bad))
      · rcases valid.reference_eq out n with ⟨blocked, -⟩ | ⟨-, own⟩
        · exact absurd blocked free
        · rw [status, Graph.own] at own
          cases override : g.overrideOf n with
          | some ov => rfl
          | none =>
            rw [override] at own
            exact absurd own.symm (result_ran (out n)).1
  · rw [RunReport.mem_failures]
    refine and_congr_right fun node => ?_
    obtain ⟨r, result⟩ := resolved nd.id (List.mem_map_of_mem node)
    have here := right nd.id r result
    unfold Graph.Valid.Fails
    rw [← here.1, ← here.2]
    constructor
    · rintro ⟨r', result', status, required, none⟩
      obtain rfl : r = r' := Option.some.inj (result.symm.trans result')
      exact ⟨status, required, by simp [none]⟩
    · rintro ⟨status, required, none⟩
      exact ⟨r, result, status, required, by simpa using none⟩

/-- A graph without overrides has turns that meet the conditions. -/
theorem turnsOk_of_no_override {labels : List RunLabel} (valid : g.Valid)
    (unstopped : ∀ nd ∈ g.nodes, (result (out nd.id)).status = .failed → nd.onFailure ≠ .stop)
    (plain : ∀ nd ∈ g.nodes, nd.override = none)
    (fixed : okAlong Execution.step (Fixed out) (start g) labels)
    (run : exec Execution.step (start g) labels = some e) :
    TurnsOk (fun s a => s.ForcesUnblocked a ∧ s.ExcusesFinal valid out a) g labels := by
  have none (n : ℕ) : g.overrideOf n = none := by
    unfold Graph.overrideOf
    cases found : g.node n with
    | none => rfl
    | some nd => exact plain nd (Graph.node_mem found).1
  have hturn (s : RunState π) (a : Turn) (t : RunState π) (h : s.Fixes out g)
      (right : s.Right fun _ r => r.overridden = Option.none) (ht : s.turn a = some t) :
      t.Right (fun _ r => r.overridden = Option.none) ∧ s.ForcesUnblocked a ∧ s.ExcusesFinal valid out a := by
    have graph := h.graph
    subst graph
    have unexcused {n : ℕ} {c : NodeResult} (cause : c ∈ s.blockers n) : c.overridden = Option.none := by
      obtain ⟨d, -, result, -⟩ := mem_blockers.1 cause
      exact right d c result
    refine ⟨?_, fun n ov _ override => by simp [none n] at override, fun n _ blocked overridden => ?_⟩
    · cases a with
      | skip n =>
        obtain ⟨-, eq⟩ := Option.ite_none_right_eq_some.1 ht
        cases eq
        rcases skip_cases s n with ⟨-, eq⟩ | ⟨blocked, eq⟩
        · rwa [eq]
        · rw [eq]
          refine right.resolve ?_
          by_contra some_
          obtain ⟨c, cause⟩ := List.exists_mem_of_ne_nil _ blocked
          obtain ⟨reason, eq, -⟩ := (excused_isSome blocked).1 (Option.isSome_iff_ne_none.2 some_) c cause
          simp [unexcused cause] at eq
      | override n =>
        obtain ⟨-, eq⟩ := Option.ite_none_right_eq_some.1 ht
        cases eq
        rcases overrideNode_cases s n with eq | ⟨ov, override, -⟩
        · rwa [eq]
        · simp [none n] at override
    · obtain ⟨c, cause⟩ := List.exists_mem_of_ne_nil _ blocked
      have some_ := overridden c cause
      simp [unexcused cause] at some_
  exact turnsOk_of_kept valid unstopped hturn (fun _ _ _ _ _ => (result_ran _).2) fixed run

/-- **Excuses by the final outcomes.** Where no node that fails stops the run, a run that has ended has
excused as its final outcomes say, and its failures are those of the reference, if no override pass
recorded `ok` for a node that was blocked, and no node was skipped for overridden causes while a hard
dependency had yet to fail, or one of those causes had an empty reason. -/
theorem excusesByOutcomes_of_turnsOk {labels : List RunLabel} {ending : Ending} (valid : g.Valid)
    (unstopped : ∀ nd ∈ g.nodes, (result (out nd.id)).status = .failed → nd.onFailure ≠ .stop)
    (fixed : okAlong Execution.step (Fixed out) (start g) labels)
    (ok : TurnsOk (fun s a => s.ForcesUnblocked a ∧ s.ExcusesFinal valid out a) g labels)
    (run : exec Execution.step (start g) labels = some e) (finished : e.phase = .finished ending) :
    ExcusesByOutcomes valid out e := by
  have right : e.state.Right (HasExcuse valid out) := right_of_turnsOk valid unstopped (fun s h right ok => by
    have along : okAlong turn
        (fun s a => s.MeetsOverrides a ∧ s.ForcesUnblocked a ∧ s.ExcusesFinal valid out a) s s.settleTurns :=
      okAlong_and (along_settleLoop (s.pending.length + 1) s h.sound) ok
    exact right_settle (fun s a t h right ok ht => right.turn_excuse valid h ok.2.1 ok.1 ok.2.2 ht) h right along)
    (fun s n h right => h.excuse_of_running valid right) fixed ok run
  rcases follows_of_exec valid unstopped fixed run with ⟨waits, -⟩ | done
  · exact absurd finished (waits.going ending)
  · exact done.excuses valid right

theorem excusesByOutcomes_example : ∃ e,
    exec Execution.step (start pair.frozen) [.dispatch 0, .ends 0 (.failed "stalled"), .wake] = some e ∧
      ExcusesByOutcomes (pair_made.valid rfl) (fun _ => .failed "stalled") e := by
  have ended : (exec Execution.step (start pair.frozen) [.dispatch 0, .ends 0 (.failed "stalled"), .wake]).map
      Execution.phase = some (.finished (.returned false)) := by decide +kernel
  obtain ⟨e, run, finished⟩ := Option.map_eq_some_iff.1 ended
  have valid := pair_made.valid rfl
  have unstopped : ∀ nd ∈ pair.frozen.nodes, (result (.failed "stalled")).status = .failed → nd.onFailure ≠ .stop := by
    decide
  have fixed : okAlong Execution.step (Fixed fun _ => .failed "stalled") (start pair.frozen)
      [.dispatch 0, .ends 0 (.failed "stalled"), .wake] := by
    refine okAlong_of_forall fun label mem _ => ⟨fun absorbed eq => ?_, fun n outcome eq => ?_⟩
    · simp [eq] at mem
    · simp only [eq, List.mem_cons, reduceCtorEq, RunLabel.ends.injEq, List.not_mem_nil, or_false, false_or] at mem
      exact mem.2
  exact ⟨e, run, excusesByOutcomes_of_turnsOk valid unstopped fixed
    (turnsOk_of_no_override valid unstopped (by decide) fixed run) run finished⟩

/-- A node needs one that is overridden to skip, after one task, and one that fails. -/
def excusing : GraphBuilder Unit :=
  (((((({} : GraphBuilder Unit).add "slew" "mount" () .skip false 0 none).add "cool" "camera" () .skip false 0
    none).add "open" "dome" () .skip false 0 (some ⟨false, "out of service"⟩)).add "expose" "camera" () .skip false 0
      none).order 2 [0]).require 3 [2, 1]

theorem excusing_made : excusing.Made :=
  .require (.order (.add (.add (.add (.add .empty _ _ _ _ _ _ _) _ _ _ _ _ _ _) _ _ _ _ _ _ _) _ _ _ _ _ _ _)
    (by decide) _) (by decide) _

theorem excusing_valid : excusing.frozen.Valid :=
  excusing_made.valid rfl

/-- The cooling fails, the slew succeeds. -/
def coolingFails (n : ℕ) : TaskEnd :=
  if n = 1 then .failed "too warm" else .ok

/-- The node is skipped for the override before the other cause has failed, or after. -/
def skippedBefore : List RunLabel :=
  [.dispatch 0, .dispatch 1, .ends 0 .ok, .wake, .ends 1 (.failed "too warm"), .wake]

def skippedAfter : List RunLabel :=
  [.dispatch 0, .dispatch 1, .ends 1 (.failed "too warm"), .wake, .ends 0 .ok, .wake]

/-- Whether the node counts as a failure depends on which of its causes comes first. -/
theorem not_excusesIndependent_excusing :
    (∀ nd ∈ excusing.frozen.nodes, (result (coolingFails nd.id)).status = .failed → nd.onFailure ≠ .stop) ∧
      (exec Execution.step (start excusing.frozen) skippedBefore).map (fun e =>
        (RunReport.failures ⟨excusing.frozen, e.state.results, false⟩).map (·.1.id)) = some [1] ∧
      (exec Execution.step (start excusing.frozen) skippedAfter).map (fun e =>
        (RunReport.failures ⟨excusing.frozen, e.state.results, false⟩).map (·.1.id)) = some [1, 3] ∧
      ¬ ExcusesIndependent excusing_valid coolingFails := by
  refine ⟨by decide, by decide +kernel, by decide +kernel, fun independent => ?_⟩
  have ended : (exec Execution.step (start excusing.frozen) skippedBefore).map (fun e =>
      (e.phase, e.state.results 3, e.state.results 1)) =
        some (.finished (.returned false), some { status := .skipped, overridden := some "out of service" },
          some { status := .failed, error := some "too warm" }) := by decide +kernel
  obtain ⟨e, run, eq⟩ := Option.map_eq_some_iff.1 ended
  simp only [Prod.mk.injEq] at eq
  obtain ⟨finished, skipped, failed⟩ := eq
  have fixed : okAlong Execution.step (Fixed coolingFails) (start excusing.frozen) skippedBefore := by
    refine okAlong_of_forall fun label mem _ => ⟨fun absorbed eq => ?_, fun n outcome eq => ?_⟩
    · simp [skippedBefore, eq] at mem
    · simp only [skippedBefore, eq, List.mem_cons, reduceCtorEq, RunLabel.ends.injEq, List.not_mem_nil, or_false,
        false_or] at mem
      rcases mem with ⟨rfl, rfl⟩ | ⟨rfl, rfl⟩ <;> rfl
  have excuses := independent skippedBefore e fixed run ⟨_, finished⟩
  have bad := (excuses.excused 3 _ skipped rfl).1 rfl 1 (by decide) (by decide) _ failed (by simp)
  simp at bad

end Execution

end SensorKit.Common
