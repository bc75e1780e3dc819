import SensorKit.Common.Dag

/-!
# What holds along a run of a graph

A node is pending, in flight or resolved. One that has been started found all its dependencies
resolved and its hard dependencies without a failure; one that was skipped has a hard dependency
that failed, or an override. After the runner has settled no pending node is blocked, and that
stays so until the next task is recorded.
-/

namespace SensorKit.Common

open Lib

variable {π : Type}

namespace RunState

/-- The node has a result. -/
def Resolved (s : RunState π) (n : ℕ) : Prop :=
  ∃ r, s.results n = some r

/-- The node has a result that blocks its hard dependents. -/
def Failed (s : RunState π) (n : ℕ) : Prop :=
  ∃ r, s.results n = some r ∧ s.blocks n r = true

/-- The node's task has ended. -/
def Ran (s : RunState π) (n : ℕ) : Prop :=
  ∃ r, s.results n = some r ∧ r.status ≠ .skipped ∧ r.overridden = none

/-- The node's task is in the run. -/
def Running (s : RunState π) (n : ℕ) : Prop :=
  ∃ task, s.running n = some task

/-- Nothing pending is blocked. -/
def Settled (s : RunState π) : Prop :=
  ∀ n ∈ s.pending, s.blockers n = []

/-- Nothing pending is ready for its override. -/
def Unforced (s : RunState π) : Prop :=
  ∀ n ∈ s.pending, s.ready n = true → ∀ nd, s.graph.node n = some nd → nd.override = none

/-- The invariant of a run that is not over. -/
structure Sound (s : RunState π) : Prop where
  hard_deps : ∀ n, ∀ d ∈ s.graph.hard n, d ∈ s.graph.deps n
  nodes_only : ∀ n, n ∈ s.pending ∨ s.Running n → ∃ nd ∈ s.graph.nodes, nd.id = n
  resolved_nodes : ∀ n, s.Resolved n → ∃ nd ∈ s.graph.nodes, nd.id = n
  pending_nodup : s.pending.Nodup
  pending_open : ∀ n ∈ s.pending, s.results n = none ∧ s.running n = none
  running_open : ∀ n, s.Running n → s.results n = none
  known : ∀ nd ∈ s.graph.nodes, nd.id ∈ s.pending ∨ s.Running nd.id ∨ s.Resolved nd.id
  waited : ∀ n, s.Ran n ∨ s.Running n → ∀ d ∈ s.graph.deps n, s.Resolved d
  required : ∀ n, s.Ran n ∨ s.Running n → ∀ d ∈ s.graph.hard n, ¬ s.Failed d
  free : ∀ n, s.Ran n ∨ s.Running n → ∀ nd, s.graph.node n = some nd → nd.override = none
  given_up : ∀ n, s.Resolved n → s.Ran n ∨ (∃ d ∈ s.graph.hard n, s.Failed d) ∨
    ∃ nd, s.graph.node n = some nd ∧ nd.override ≠ none

variable {s t : RunState π} {n d : ℕ} {r : NodeResult}

theorem blocks_iff : s.blocks d r = true ↔
    r.status ≠ .ok ∧ ∀ nd, s.graph.node d = some nd → nd.onFailure ≠ .continue := by
  cases found : s.graph.node d <;> simp [blocks, found]

theorem mem_blockers : r ∈ s.blockers n ↔ ∃ d ∈ s.graph.hard n, s.results d = some r ∧ s.blocks d r = true := by
  simp only [blockers, List.mem_filterMap, Option.filter_eq_some_iff]

theorem blockers_eq_nil : s.blockers n = [] ↔ ∀ d ∈ s.graph.hard n, ¬ s.Failed d := by
  rw [List.eq_nil_iff_forall_not_mem]
  simp only [mem_blockers, Failed]
  constructor
  · rintro none d hard ⟨r, result, blocks⟩
    exact none r ⟨d, hard, result, blocks⟩
  · rintro none r ⟨d, hard, result, blocks⟩
    exact none d hard ⟨r, result, blocks⟩

/-! ## Resolving a pending node -/

@[simp] theorem resolve_graph : (s.resolve n r).graph = s.graph := rfl
@[simp] theorem resolve_running : (s.resolve n r).running = s.running := rfl
@[simp] theorem resolve_pending : (s.resolve n r).pending = s.pending.erase n := rfl
@[simp] theorem resolve_stop : (s.resolve n r).stop = s.stop := rfl

theorem Resolved.resolve (h : s.Resolved d) (m : ℕ) (r : NodeResult) : (s.resolve m r).Resolved d := by
  by_cases same : d = m
  · subst same
    exact ⟨r, by simp [RunState.resolve]⟩
  · obtain ⟨r', result⟩ := h
    exact ⟨r', by simpa [RunState.resolve, Function.update_of_ne same] using result⟩

theorem resolve_results (other : d ≠ n) : (s.resolve n r).results d = s.results d := by
  simp [resolve, Function.update_of_ne other]

theorem failed_resolve (other : d ≠ n) : (s.resolve n r).Failed d ↔ s.Failed d := by
  simp only [Failed, resolve_results other, blocks, resolve_graph]

theorem ran_resolve (other : d ≠ n) : (s.resolve n r).Ran d ↔ s.Ran d := by
  simp only [Ran, resolve_results other]

theorem resolved_iff_of_ne (other : d ≠ n) : (s.resolve n r).Resolved d ↔ s.Resolved d := by
  simp only [Resolved, resolve_results other]

/-- What settles without dispatching: nothing, or the skip or the override of a pending node. -/
def Settles (s : RunState π) (n : ℕ) (t : RunState π) : Prop :=
  t = s ∨ ∃ r : NodeResult, t = s.resolve n r ∧ (r.status = .skipped ∨ r.overridden ≠ none) ∧
    ((∃ d ∈ s.graph.hard n, s.Failed d) ∨ ∃ nd, s.graph.node n = some nd ∧ nd.override ≠ none)

theorem skip_settles (s : RunState π) (n : ℕ) : s.Settles n (s.skip n) := by
  simp only [skip]
  split
  · exact .inl rfl
  · rename_i causes _
    have blocked : s.blockers n ≠ [] := by assumption
    obtain ⟨r, mem⟩ := List.exists_mem_of_ne_nil _ blocked
    obtain ⟨d, hard, result, blocks⟩ := mem_blockers.1 mem
    exact .inr ⟨_, rfl, .inl rfl, .inl ⟨d, hard, r, result, blocks⟩⟩

theorem skip_eq_self (mem : n ∈ s.pending) (h : s.skip n = s) : s.blockers n = [] := by
  by_contra blocked
  obtain ⟨r, moved⟩ : ∃ r, s.skip n = s.resolve n r := by
    cases causes : s.blockers n with
    | nil => exact absurd causes blocked
    | cons => exact ⟨_, by simp only [skip, causes]; rfl⟩
  have shorter : (s.skip n).pending.length < s.pending.length := by
    rw [moved, resolve_pending, List.length_erase_of_mem mem]
    have := List.length_pos_of_mem mem
    omega
  rw [h] at shorter
  exact Nat.lt_irrefl _ shorter

theorem overrideNode_settles (s : RunState π) (n : ℕ) : s.Settles n (s.overrideNode n) := by
  simp only [overrideNode]
  split
  · rename_i ov override
    obtain ⟨nd, node, overridden⟩ := Option.bind_eq_some_iff.1 override
    split
    · exact .inr ⟨_, rfl, .inr (by simp), .inr ⟨nd, node, by simp [overridden]⟩⟩
    · exact .inl rfl
  · exact .inl rfl

namespace Sound

theorem settles (h : s.Sound) (mem : n ∈ s.pending) (hs : s.Settles n t) : t.Sound := by
  rcases hs with rfl | ⟨r, rfl, notRan, why⟩
  · exact h
  obtain ⟨open_, idle⟩ := h.pending_open n mem
  have others {m : ℕ} (going : (s.resolve n r).Ran m ∨ s.Running m) : m ≠ n ∧ (s.Ran m ∨ s.Running m) := by
    have other : m ≠ n := by
      rintro rfl
      rcases going with ⟨r', result, status, overridden⟩ | ⟨task, running⟩
      · obtain rfl : r = r' := by simpa [resolve] using result
        rcases notRan with skipped | replaced
        · exact status skipped
        · exact replaced overridden
      · simp [idle] at running
    exact ⟨other, going.imp_left (ran_resolve other).1⟩
  have failed {d : ℕ} (f : s.Failed d) : (s.resolve n r).Failed d := by
    have other : d ≠ n := by
      rintro rfl
      obtain ⟨r', result, -⟩ := f
      simp [open_] at result
    exact (failed_resolve other).2 f
  refine ⟨h.hard_deps, fun m mem' => ?_, fun m resolved => ?_, h.pending_nodup.erase n, fun m mem' => ?_,
    fun m running => ?_, fun nd node => ?_, fun m going d dep => ?_, fun m going d hard => ?_,
    fun m going => h.free m (others going).2, fun m resolved => ?_⟩
  · exact h.nodes_only m (mem'.imp_left List.mem_of_mem_erase)
  · by_cases same : m = n
    · exact h.nodes_only m (.inl (same ▸ mem))
    · exact h.resolved_nodes m ((resolved_iff_of_ne same).1 resolved)
  · obtain ⟨other, mem'⟩ := h.pending_nodup.mem_erase_iff.1 mem'
    rw [resolve_results other]
    exact h.pending_open m mem'
  · rw [resolve_results (others (.inr running)).1]
    exact h.running_open m running
  · by_cases same : nd.id = n
    · exact .inr (.inr ⟨r, by simp [same, resolve]⟩)
    · rcases h.known nd node with mem' | running | resolved
      · exact .inl (h.pending_nodup.mem_erase_iff.2 ⟨same, mem'⟩)
      · exact .inr (.inl running)
      · exact .inr (.inr (resolved.resolve n r))
  · exact (h.waited m (others going).2 d dep).resolve n r
  · have waited := h.waited m (others going).2 d (h.hard_deps m d hard)
    have other : d ≠ n := by
      rintro rfl
      obtain ⟨r', result⟩ := waited
      simp [open_] at result
    rw [failed_resolve other]
    exact h.required m (others going).2 d hard
  · by_cases same : m = n
    · subst same
      rcases why with ⟨d, hard, f⟩ | override
      · exact .inr (.inl ⟨d, hard, failed f⟩)
      · exact .inr (.inr override)
    · rcases h.given_up m ((resolved_iff_of_ne same).1 resolved) with ran | ⟨d, hard, f⟩ | override
      · exact .inl ((ran_resolve same).2 ran)
      · exact .inr (.inl ⟨d, hard, failed f⟩)
      · exact .inr (.inr override)

end Sound

/-! ## Settling -/

/-- Settling touches neither the graph nor the tasks, nor what has run. -/
structure Frame (s t : RunState π) : Prop where
  graph : t.graph = s.graph
  running : t.running = s.running
  ran : ∀ n, t.Ran n ↔ s.Ran n
  results : ∀ n r, s.results n = some r → t.results n = some r
  shorter : t.pending.length ≤ s.pending.length

theorem Frame.refl (s : RunState π) : Frame s s :=
  ⟨rfl, rfl, fun _ => .rfl, fun _ _ => id, Nat.le_refl _⟩

theorem Frame.trans {u : RunState π} (h : Frame s t) (h' : Frame t u) : Frame s u :=
  ⟨h'.graph.trans h.graph, h'.running.trans h.running, fun n => (h'.ran n).trans (h.ran n),
    fun n r => h'.results n r ∘ h.results n r, Nat.le_trans h'.shorter h.shorter⟩

theorem Settles.frame (h : s.Settles n t) (open_ : s.results n = none) : Frame s t := by
  rcases h with rfl | ⟨r, rfl, notRan, -⟩
  · exact .refl _
  · refine ⟨rfl, rfl, fun m => ?_, fun m r' result => ?_, List.length_erase_le⟩
    swap
    · have other : m ≠ n := by
        rintro rfl
        simp [open_] at result
      rwa [resolve_results other]
    by_cases same : m = n
    · subst same
      have resolved : (s.resolve m r).results m = some r := by simp [resolve]
      simp only [Ran, resolved, open_, Option.some.injEq, exists_eq_left', reduceCtorEq, false_and, exists_false,
        iff_false, not_and]
      exact fun status overridden => notRan.elim status (· overridden)
    · exact ran_resolve same

theorem Settles.mem {m : ℕ} (h : s.Settles n t) (other : m ≠ n) (mem : m ∈ s.pending) : m ∈ t.pending := by
  rcases h with rfl | ⟨r, rfl, -⟩
  · exact mem
  · exact (List.mem_erase_of_ne other).2 mem

/-- A pass over pending nodes keeps the invariant, and has done nothing if as many are pending. -/
theorem Sound.pass {f : RunState π → ℕ → RunState π} (hf : ∀ s n, Settles s n (f s n)) (l : List ℕ) :
    ∀ s : RunState π, s.Sound → l.Nodup → (∀ n ∈ l, n ∈ s.pending) →
      (l.foldl f s).Sound ∧ Frame s (l.foldl f s) ∧
        ((l.foldl f s).pending.length = s.pending.length → l.foldl f s = s ∧ ∀ n ∈ l, f s n = s) := by
  induction l with
  | nil => exact fun s h _ _ => ⟨h, .refl s, fun _ => ⟨rfl, by simp⟩⟩
  | cons n l ih =>
    intro s h nodup mem
    obtain ⟨fresh, nodup⟩ := List.nodup_cons.1 nodup
    have here := h.settles (mem n (by simp)) (hf s n)
    obtain ⟨sound, frame, still⟩ := ih (f s n) here nodup fun m hm => (hf s n).mem
      (by rintro rfl; exact fresh hm) (mem m (by simp [hm]))
    refine ⟨sound, ((hf s n).frame (h.pending_open n (mem n (by simp))).1).trans frame, fun same => ?_⟩
    have unmoved : f s n = s := by
      rcases hf s n with eq | ⟨r, eq, -⟩
      · exact eq
      · have shorter : (f s n).pending.length < s.pending.length := by
          rw [eq, resolve_pending, List.length_erase_of_mem (mem n (by simp))]
          have := List.length_pos_of_mem (mem n (by simp))
          omega
        have := frame.shorter
        rw [List.foldl_cons] at same
        omega
    rw [List.foldl_cons, unmoved] at same ⊢
    rw [unmoved] at still
    obtain ⟨eq, all⟩ := still same
    exact ⟨eq, by simpa [unmoved] using all⟩

theorem Sound.skipLoop (fuel : ℕ) : ∀ s : RunState π, s.Sound → s.pending.length ≤ fuel →
    (skipLoop fuel s).Sound ∧ (skipLoop fuel s).Settled ∧ Frame s (skipLoop fuel s) := by
  induction fuel with
  | zero =>
    intro s h bound
    have nothing : s.pending = [] := List.length_eq_zero_iff.1 (Nat.le_zero.1 bound)
    exact ⟨h, by simp [Settled, RunState.skipLoop, nothing], .refl s⟩
  | succ fuel ih =>
    intro s h bound
    obtain ⟨sound, frame, still⟩ := Sound.pass skip_settles s.pending s h h.pending_nodup fun _ => id
    simp only [RunState.skipLoop]
    split
    · rename_i same
      obtain ⟨eq, all⟩ := still (by rw [← skipPass, same])
      rw [skipPass, eq]
      exact ⟨h, fun n mem => skip_eq_self mem (all n mem), .refl s⟩
    · rename_i moved
      have shorter : s.skipPass.pending.length < s.pending.length := by
        refine Nat.lt_of_le_of_ne frame.shorter fun same => moved ?_
        rw [skipPass, (still same).1]
      obtain ⟨sound', settled, frame'⟩ := ih s.skipPass sound (by omega)
      exact ⟨sound', settled, frame.trans frame'⟩

theorem Sound.resolveSkips (h : s.Sound) : s.resolveSkips.Sound ∧ s.resolveSkips.Settled ∧ Frame s s.resolveSkips :=
  Sound.skipLoop _ s h (Nat.le_refl _)

theorem overrideNode_eq_self (mem : n ∈ s.pending) (h : s.overrideNode n = s) (ready : s.ready n = true) (nd : Node π)
    (node : s.graph.node n = some nd) : nd.override = none := by
  cases override : nd.override with
  | none => rfl
  | some ov =>
    exfalso
    have shorter : (s.overrideNode n).pending.length < s.pending.length := by
      simp only [overrideNode, node, Option.bind_some, override, ready, if_true, resolve_pending,
        List.length_erase_of_mem mem]
      have := List.length_pos_of_mem mem
      omega
    rw [h] at shorter
    exact Nat.lt_irrefl _ shorter

theorem Sound.settleLoop (fuel : ℕ) : ∀ s : RunState π, s.Sound → s.pending.length < fuel →
    (settleLoop fuel s).Sound ∧ (settleLoop fuel s).Settled ∧
      ((settleLoop fuel s).stop = true ∨ (settleLoop fuel s).Unforced) ∧ Frame s (settleLoop fuel s) := by
  induction fuel with
  | zero => exact fun s _ bound => absurd bound (Nat.not_lt_zero _)
  | succ fuel ih =>
    intro s h bound
    obtain ⟨sound, settled, frame⟩ := h.resolveSkips
    obtain ⟨sound', frame', still⟩ := Sound.pass overrideNode_settles _ _ sound sound.pending_nodup fun _ => id
    simp only [RunState.settleLoop]
    split
    · rename_i stop
      exact ⟨sound, settled, .inl stop, frame⟩
    · split
      · rename_i same
        obtain ⟨eq, all⟩ := still (by rw [← overridePass, same])
        rw [overridePass, eq]
        exact ⟨sound, settled, .inr fun n mem => overrideNode_eq_self mem (all n mem), frame⟩
      · rename_i moved
        have shorter : s.resolveSkips.overridePass.pending.length < s.resolveSkips.pending.length := by
          refine Nat.lt_of_le_of_ne frame'.shorter fun same => moved ?_
          rw [overridePass, (still same).1]
        have bound' := frame.shorter
        obtain ⟨sound'', settled'', unforced, frame''⟩ := ih _ sound' (by rw [← overridePass]; omega)
        exact ⟨sound'', settled'', unforced, (frame.trans frame').trans frame''⟩

/-- **Settling leaves nothing pending that is blocked.** -/
theorem Sound.settle (h : s.Sound) : s.settle.Sound ∧ s.settle.Settled ∧
    (s.settle.stop = true ∨ s.settle.Unforced) ∧ Frame s s.settle :=
  Sound.settleLoop _ s h (Nat.lt_succ_self _)

/-! ## Starting and recording tasks -/

theorem Sound.startTaken (h : s.Sound) (settled : s.Settled) (unforced : s.Unforced) : s.startTaken.Sound ∧ s.startTaken.Settled := by
  have started {m : ℕ} (g : s.startTaken.Running m) : s.Running m ∨ m ∈ s.pending ∧ s.ready m = true := by
    obtain ⟨task, running⟩ := g
    by_cases taken : m ∈ s.pending ∧ s.ready m = true
    · exact .inr taken
    · exact .inl ⟨task, by simpa [RunState.startTaken, taken] using running⟩
  have going {m : ℕ} (g : s.startTaken.Ran m ∨ s.startTaken.Running m) :
      (s.Ran m ∨ s.Running m) ∨ m ∈ s.pending ∧ s.ready m = true := by
    rcases g with ran | running
    · exact .inl (.inl ran)
    · exact (started running).imp_left .inr
  refine ⟨⟨h.hard_deps, fun m mem => ?_, h.resolved_nodes, h.pending_nodup.filter _, fun m mem => ?_,
    fun m running => ?_, fun nd node => ?_, fun m g d dep => ?_, fun m g d hard => ?_, fun m g => ?_, h.given_up⟩,
    fun m mem => ?_⟩
  · rcases mem with mem | running
    · exact h.nodes_only m (.inl (List.mem_filter.1 mem).1)
    · exact h.nodes_only m ((started running).symm.imp_left And.left)
  · obtain ⟨mem, unready⟩ := List.mem_filter.1 mem
    have idle := (h.pending_open m mem).2
    exact ⟨(h.pending_open m mem).1, by simpa [RunState.startTaken, idle] using fun _ => by simpa using unready⟩
  · rcases started running with running | taken
    · exact h.running_open m running
    · exact (h.pending_open m taken.1).1
  · rcases h.known nd node with mem | ⟨task, running⟩ | resolved
    · cases ready : s.ready nd.id with
      | true => exact .inr (.inl ⟨.created, by simp [RunState.startTaken, mem, ready]⟩)
      | false => exact .inl (List.mem_filter.2 ⟨mem, by simp [ready]⟩)
    · refine .inr (.inl ?_)
      by_cases taken : nd.id ∈ s.pending ∧ s.ready nd.id = true
      · exact ⟨.created, by simp [RunState.startTaken, taken]⟩
      · exact ⟨task, by simpa [RunState.startTaken, taken] using running⟩
    · exact .inr (.inr resolved)
  · rcases going g with old | ⟨-, ready⟩
    · exact h.waited m old d dep
    · exact Option.isSome_iff_exists.1 (List.all_eq_true.1 ready d dep)
  · rcases going g with old | ⟨mem, -⟩
    · exact h.required m old d hard
    · exact blockers_eq_nil.1 (settled m mem) d hard
  · rcases going g with old | ⟨mem, ready⟩
    · exact h.free m old
    · exact unforced m mem ready
  · exact settled m (List.mem_filter.1 mem).1

theorem Sound.startReady (h : s.Sound) : s.startReady.Sound ∧ s.startReady.Settled := by
  obtain ⟨sound, settled, unforced, -⟩ := h.settle
  simp only [RunState.startReady]
  split
  · exact ⟨sound, settled⟩
  · rename_i goes
    exact sound.startTaken settled (unforced.resolve_left goes)

/-- What is started is new, and what was in the run stays. -/
structure Starts (s t : RunState π) : Prop where
  graph : t.graph = s.graph
  ran : ∀ n, t.Ran n ↔ s.Ran n
  results : ∀ n r, s.results n = some r → t.results n = some r
  kept : ∀ n task, s.running n = some task → t.running n = some task
  fresh : ∀ n task, t.running n = some task → s.running n = some task ∨ task = .created

theorem Sound.starts (h : s.Sound) : Starts s s.startReady := by
  obtain ⟨sound, -, -, frame⟩ := h.settle
  simp only [RunState.startReady]
  split
  · exact ⟨frame.graph, frame.ran, frame.results, fun _ _ => frame.running ▸ id,
      fun _ _ r => .inl (frame.running ▸ r)⟩
  · refine ⟨frame.graph, frame.ran, frame.results, fun n task running => ?_, fun n task running => ?_⟩
    · rw [← frame.running] at running
      have idle : n ∉ s.settle.pending := fun mem => by simp [(sound.pending_open n mem).2] at running
      simpa [RunState.startTaken, idle] using running
    · by_cases taken : n ∈ s.settle.pending ∧ s.settle.ready n = true
      · exact .inr (by simpa [RunState.startTaken, taken] using running.symm)
      · rw [← frame.running]
        exact .inl (by simpa [RunState.startTaken, taken] using running)

/-- A task that is in the run goes on. -/
theorem Sound.setRunning {task task' : NodeTask} (h : s.Sound) (running : s.running n = some task) :
    Sound { s with running := Function.update s.running n (some task') } := by
  have same (m : ℕ) : Running { s with running := Function.update s.running n (some task') } m ↔ s.Running m := by
    by_cases eq : m = n
    · subst eq
      simp [Running, running]
    · simp [Running, Function.update_of_ne eq]
  have idle {m : ℕ} (mem : m ∈ s.pending) : m ≠ n := by
    rintro rfl
    simp [(h.pending_open m mem).2] at running
  exact
    { h with
      nodes_only := fun m => (h.nodes_only m ·) ∘ Or.imp_right (same m).1
      pending_open := fun m mem => ⟨(h.pending_open m mem).1, by
        simpa [Function.update_of_ne (idle mem)] using (h.pending_open m mem).2⟩
      running_open := fun m r => h.running_open m ((same m).1 r)
      known := fun nd node => (h.known nd node).imp_right (Or.imp_left (same nd.id).2)
      waited := fun m g => h.waited m (g.imp_right (same m).1)
      required := fun m g => h.required m (g.imp_right (same m).1)
      free := fun m g => h.free m (g.imp_right (same m).1) }

theorem result_ran (outcome : TaskEnd) : (result outcome).status ≠ .skipped ∧ (result outcome).overridden = none := by
  cases outcome <;> simp [result]

/-- The end of a task is recorded. -/
theorem Sound.record {task : NodeTask} (h : s.Sound) (running : s.running n = some task) (outcome : TaskEnd) :
    (s.record n outcome).Sound := by
  have open_ := h.running_open n ⟨task, running⟩
  have results {m : ℕ} (other : m ≠ n) : (s.record n outcome).results m = s.results m := by
    simp [RunState.record, Function.update_of_ne other]
  have ended : (s.record n outcome).results n = some (result outcome) := by simp [RunState.record]
  have resolved {m : ℕ} (r : s.Resolved m) : m ≠ n := by
    rintro rfl
    obtain ⟨r, result⟩ := r
    simp [open_] at result
  have runs {m : ℕ} : (s.record n outcome).Running m ↔ m ≠ n ∧ s.Running m := by
    by_cases same : m = n
    · simp [Running, RunState.record, same]
    · simp [Running, RunState.record, same]
  have going {m : ℕ} (g : (s.record n outcome).Ran m ∨ (s.record n outcome).Running m) : s.Ran m ∨ s.Running m := by
    rcases g with ⟨r, ran⟩ | running'
    · by_cases same : m = n
      · exact .inr (same ▸ ⟨task, running⟩)
      · exact .inl ⟨r, by rw [← results same]; exact ran⟩
    · exact .inr (runs.1 running').2
  have failed {m : ℕ} (other : m ≠ n) : (s.record n outcome).Failed m ↔ s.Failed m := by
    simp only [Failed, results other]
    exact Iff.rfl
  refine ⟨h.hard_deps, fun m g => ?_, fun m g => ?_, h.pending_nodup, fun m mem => ?_, fun m g => ?_,
    fun nd node => ?_, fun m g d dep => ?_, fun m g d hard => ?_, fun m g => h.free m (going g), fun m g => ?_⟩
  · exact h.nodes_only m (g.imp_right fun g => (runs.1 g).2)
  · by_cases same : m = n
    · exact h.nodes_only m (.inr ⟨task, same ▸ running⟩)
    · obtain ⟨r, res⟩ := g
      exact h.resolved_nodes m ⟨r, (results same).symm.trans res⟩
  · have other : m ≠ n := by
      rintro rfl
      simp [(h.pending_open m mem).2] at running
    rw [results other]
    exact ⟨(h.pending_open m mem).1, by
      simpa [RunState.record, Function.update_of_ne other] using (h.pending_open m mem).2⟩
  · rw [results (runs.1 g).1]
    exact h.running_open m (runs.1 g).2
  · by_cases same : nd.id = n
    · exact .inr (.inr ⟨RunState.result outcome, by rw [same]; exact ended⟩)
    · rcases h.known nd node with mem | running' | ⟨r, res⟩
      · exact .inl mem
      · exact .inr (.inl (runs.2 ⟨same, running'⟩))
      · exact .inr (.inr ⟨r, (results same).trans res⟩)
  · obtain ⟨r, res⟩ := h.waited m (going g) d dep
    exact ⟨r, (results (resolved ⟨r, res⟩)).trans res⟩
  · rw [failed (resolved (h.waited m (going g) d (h.hard_deps m d hard)))]
    exact h.required m (going g) d hard
  · by_cases same : m = n
    · exact .inl ⟨_, same ▸ ended, result_ran outcome⟩
    · obtain ⟨r, res⟩ := g
      rcases h.given_up m ⟨r, (results same).symm.trans res⟩ with ⟨r, ran⟩ | ⟨d, hard, f⟩ | override
      · exact .inl ⟨r, by rw [results same]; exact ran⟩
      · have ⟨r', res', _⟩ := f
        exact .inr (.inl ⟨d, hard, (failed (resolved ⟨r', res'⟩)).2 f⟩)
      · exact .inr (.inr override)

/-- What is recorded had ended, and has run from there on. -/
structure Records (s t : RunState π) : Prop where
  graph : t.graph = s.graph
  pending : t.pending = s.pending
  results : ∀ n r, s.results n = some r → t.results n = some r
  kept : ∀ n, s.Ran n → t.Ran n
  ran : ∀ n, t.Ran n → s.Ran n ∨ ∃ outcome, s.running n = some (.ended outcome)
  running : ∀ n task, t.running n = some task → s.running n = some task
  going : ∀ n task, s.running n = some task → t.running n = some task ∨ t.Ran n

theorem Records.refl (s : RunState π) : Records s s :=
  ⟨rfl, rfl, fun _ _ => id, fun _ => id, fun _ => .inl, fun _ _ => id, fun _ _ => .inl⟩

theorem Records.trans {u : RunState π} (h : Records s t) (h' : Records t u) : Records s u where
  graph := h'.graph.trans h.graph
  pending := h'.pending.trans h.pending
  results n r := h'.results n r ∘ h.results n r
  kept n := h'.kept n ∘ h.kept n
  ran n ran := (h'.ran n ran).elim (h.ran n) fun ⟨outcome, ended⟩ => .inr ⟨outcome, h.running n _ ended⟩
  running n task := h.running n task ∘ h'.running n task
  going n task running := (h.going n task running).elim (h'.going n task) fun ran => .inr (h'.kept n ran)

theorem Sound.recordEnded (h : s.Sound) (nd : Node π) : (s.recordEnded nd).Sound ∧ Records s (s.recordEnded nd) := by
  simp only [RunState.recordEnded]
  split
  · rename_i outcome ended
    have open_ := h.running_open nd.id ⟨_, ended⟩
    have here : (s.record nd.id outcome).Ran nd.id :=
      ⟨result outcome, by simp [RunState.record], result_ran outcome⟩
    have same {m : ℕ} (other : m ≠ nd.id) : (s.record nd.id outcome).Ran m ↔ s.Ran m := by
      simp [Ran, RunState.record, Function.update_of_ne other]
    refine ⟨h.record ended outcome, rfl, rfl, fun m r result => ?_, fun m ran => ?_, fun m ran => ?_,
      fun m task running => ?_, fun m task running => ?_⟩
    · have other : m ≠ nd.id := by
        rintro rfl
        simp [open_] at result
      simpa [RunState.record, Function.update_of_ne other] using result
    · have other : m ≠ nd.id := by
        rintro rfl
        obtain ⟨r, result, -⟩ := ran
        simp [open_] at result
      exact (same other).2 ran
    · by_cases eq : m = nd.id
      · exact .inr ⟨outcome, by rw [eq]; exact ended⟩
      · exact .inl ((same eq).1 ran)
    · by_cases eq : m = nd.id
      · simp [RunState.record, eq] at running
      · simpa [RunState.record, Function.update_of_ne eq] using running
    · by_cases eq : m = nd.id
      · exact .inr (by rw [eq]; exact here)
      · exact .inl (by simpa [RunState.record, Function.update_of_ne eq] using running)
  · exact ⟨h, .refl s⟩

theorem Sound.recordEach (nodes : List (Node π)) : ∀ {s : RunState π}, s.Sound →
    (nodes.foldl RunState.recordEnded s).Sound ∧ Records s (nodes.foldl RunState.recordEnded s) := by
  induction nodes with
  | nil => exact fun {s} h => ⟨h, .refl s⟩
  | cons nd nodes ih =>
    intro s h
    obtain ⟨sound, records⟩ := h.recordEnded nd
    exact (ih sound).imp_right records.trans

theorem Sound.recordAll (h : s.Sound) : s.recordAll.Sound ∧ Records s s.recordAll :=
  h.recordEach s.graph.nodes

/-- Every task that has ended is recorded as it ended. -/
theorem Sound.recordAll_results {outcome : TaskEnd} (h : s.Sound) (ended : s.running n = some (.ended outcome)) :
    s.recordAll.results n = some (result outcome) := by
  have all (l : List (Node π)) : ∀ s : RunState π, s.Sound → s.running n = some (.ended outcome) →
      n ∈ l.map Node.id → (l.foldl RunState.recordEnded s).results n = some (result outcome) := by
    induction l with
    | nil => simp
    | cons nd l ih =>
      intro s h ended mem
      obtain ⟨sound, records⟩ := h.recordEnded nd
      by_cases same : nd.id = n
      · refine (sound.recordEach l).2.results n _ ?_
        simp [RunState.recordEnded, same, ended, RunState.record]
      · have still : (s.recordEnded nd).running n = some (.ended outcome) := by
          unfold RunState.recordEnded
          split
          · simpa [RunState.record, Function.update_of_ne (Ne.symm same)] using ended
          · exact ended
        exact ih _ sound still (by simpa [Ne.symm same] using mem)
  obtain ⟨nd, node, rfl⟩ := h.nodes_only n (.inr ⟨_, ended⟩)
  exact all _ s h ended (List.mem_map_of_mem node)

/-- Recording leaves no task that has ended. -/
theorem Sound.not_ended_recordAll (h : s.Sound) (n : ℕ) (outcome : TaskEnd) :
    s.recordAll.running n ≠ some (.ended outcome) := by
  intro ended
  obtain ⟨sound, records⟩ := h.recordAll
  have recorded := h.recordAll_results (records.running n _ ended)
  simp [sound.running_open n ⟨_, ended⟩] at recorded

theorem sound_init {g : Graph π} (ids : (g.nodes.map Node.id).Nodup) (hard : ∀ n, ∀ d ∈ g.hard n, d ∈ g.deps n) :
    (init g).Sound := by
  have idle (m : ℕ) : ¬ ((init g).Ran m ∨ (init g).Running m) := by simp [Ran, Running, init]
  exact
    { hard_deps := hard
      nodes_only := fun m mem => by
        rcases mem with mem | running
        · obtain ⟨nd, node, id⟩ := List.mem_map.1 mem
          exact ⟨nd, node, id⟩
        · exact absurd (.inr running) (idle m)
      resolved_nodes := fun m ⟨r, result⟩ => by simp [init] at result
      pending_nodup := ids
      pending_open := fun _ _ => ⟨rfl, rfl⟩
      running_open := fun m running => absurd (.inr running) (idle m)
      known := fun nd node => .inl (List.mem_map_of_mem node)
      waited := fun m going => absurd going (idle m)
      required := fun m going => absurd going (idle m)
      free := fun m going => absurd going (idle m)
      given_up := fun m ⟨r, result⟩ => by simp [init] at result }

end RunState

end SensorKit.Common
