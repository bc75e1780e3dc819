import SensorKit.Common.DagSafety

/-!
# The turns of settling

Settling takes the pending nodes in turns, each of which may skip a node or record its override. A run
that is not cancelled is a run of such turns and of tasks that end, so what is recorded is right
if each turn and each task records what is right.
-/

namespace SensorKit.Common

open Lib

variable {π : Type} {labels : List RunLabel}

/-- A turn of `skip_pass` or of `override_pass`. -/
inductive Turn where
  | skip (nid : ℕ)
  | override (nid : ℕ)
deriving DecidableEq, Repr

namespace RunState

variable {g : Graph π} {s t : RunState π} {n : ℕ}

/-- A turn of a node that is pending. -/
def turn (s : RunState π) : Turn → Option (RunState π)
  | .skip nid => if nid ∈ s.pending then some (s.skip nid) else none
  | .override nid => if nid ∈ s.pending then some (s.overrideNode nid) else none

/-- The turns of `resolve_skips`. -/
def skipLoopTurns : ℕ → RunState π → List Turn
  | 0, _ => []
  | fuel + 1, s =>
    s.pending.map .skip ++ if s.skipPass.pending = s.pending then [] else skipLoopTurns fuel s.skipPass

/-- The turns of `settle`'s loop. -/
def settleLoopTurns : ℕ → RunState π → List Turn
  | 0, _ => []
  | fuel + 1, s =>
    let settled := s.resolveSkips
    skipLoopTurns s.pending.length s ++ if settled.stop then [] else
      settled.pending.map .override ++
        if settled.overridePass.pending = settled.pending then [] else settleLoopTurns fuel settled.overridePass

/-- The turns of `settle`. -/
def settleTurns (s : RunState π) : List Turn :=
  settleLoopTurns (s.pending.length + 1) s

theorem exec_pass {f : RunState π → ℕ → RunState π} {c : ℕ → Turn} (hf : ∀ s n, Settles s n (f s n))
    (hc : ∀ s n, n ∈ s.pending → turn s (c n) = some (f s n)) (l : List ℕ) :
    ∀ s : RunState π, l.Nodup → (∀ n ∈ l, n ∈ s.pending) → exec turn s (l.map c) = some (l.foldl f s) := by
  induction l with
  | nil => exact fun s _ _ => rfl
  | cons n l ih =>
    intro s nodup mem
    obtain ⟨fresh, nodup⟩ := List.nodup_cons.1 nodup
    rw [List.map_cons, List.foldl_cons, exec_cons, hc s n (mem n (by simp)), Option.bind_some]
    refine ih (f s n) nodup fun m hm => (hf s n).mem ?_ (mem m (by simp [hm]))
    rintro rfl
    exact fresh hm

theorem exec_skipPass (h : s.Sound) : exec turn s (s.pending.map .skip) = some s.skipPass :=
  exec_pass (c := .skip) skip_settles (fun _ _ mem => if_pos mem) s.pending s h.pending_nodup fun _ => id

theorem exec_overridePass (h : s.Sound) : exec turn s (s.pending.map .override) = some s.overridePass :=
  exec_pass (c := .override) overrideNode_settles (fun _ _ mem => if_pos mem) s.pending s h.pending_nodup fun _ => id

theorem exec_skipLoop (fuel : ℕ) : ∀ s : RunState π, s.Sound →
    exec turn s (skipLoopTurns fuel s) = some (skipLoop fuel s) := by
  induction fuel with
  | zero => exact fun s _ => rfl
  | succ fuel ih =>
    intro s h
    have sound : s.skipPass.Sound := (Sound.pass skip_settles s.pending s h h.pending_nodup fun _ => id).1
    rw [skipLoopTurns, skipLoop, exec_append, exec_skipPass h, Option.bind_some]
    split_ifs
    · rfl
    · exact ih _ sound

theorem exec_settleLoop (fuel : ℕ) : ∀ s : RunState π, s.Sound →
    exec turn s (settleLoopTurns fuel s) = some (settleLoop fuel s) := by
  induction fuel with
  | zero => exact fun s _ => rfl
  | succ fuel ih =>
    intro s h
    have skips := h.resolveSkips.1
    have sound : s.resolveSkips.overridePass.Sound :=
      (Sound.pass overrideNode_settles _ _ skips skips.pending_nodup fun _ => id).1
    rw [settleLoopTurns, settleLoop]
    rw [exec_append, exec_skipLoop _ s h, Option.bind_some, ← resolveSkips]
    split_ifs
    · rfl
    · rw [exec_append, exec_overridePass skips, Option.bind_some]
      rfl
    · rw [exec_append, exec_overridePass skips, Option.bind_some]
      exact ih _ sound

/-- **Settling is a run of turns.** -/
theorem exec_settle (h : s.Sound) : exec turn s s.settleTurns = some s.settle :=
  exec_settleLoop _ s h

theorem Sound.turn {a : Turn} (h : s.Sound) (ht : s.turn a = some t) : t.Sound ∧ Frame s t := by
  cases a with
  | skip nid =>
    obtain ⟨mem, eq⟩ := Option.ite_none_right_eq_some.1 ht
    cases eq
    exact ⟨h.settles mem (skip_settles s nid), (skip_settles s nid).frame (h.pending_open nid mem).1⟩
  | override nid =>
    obtain ⟨mem, eq⟩ := Option.ite_none_right_eq_some.1 ht
    cases eq
    exact ⟨h.settles mem (overrideNode_settles s nid), (overrideNode_settles s nid).frame (h.pending_open nid mem).1⟩

theorem stop_turn {a : Turn} (ht : s.turn a = some t) : t.stop = s.stop := by
  have same {n : ℕ} (h : s.Settles n t) : t.stop = s.stop := by
    rcases h with rfl | ⟨r, rfl, -⟩ <;> rfl
  cases a with
  | skip nid =>
    obtain ⟨-, eq⟩ := Option.ite_none_right_eq_some.1 ht
    exact same (Option.some.inj eq ▸ skip_settles s nid)
  | override nid =>
    obtain ⟨-, eq⟩ := Option.ite_none_right_eq_some.1 ht
    exact same (Option.some.inj eq ▸ overrideNode_settles s nid)

theorem stop_settle (h : s.Sound) : s.settle.stop = s.stop :=
  exec_invariant (I := fun t => t.stop = s.stop) (exec_settle h) okAlong_always rfl
    fun _ _ _ same _ ht => (stop_turn ht).trans same

/-- What recording the end of each task keeps, recording all that have ended keeps. -/
theorem recordAll_induction {I : RunState π → Prop} (h : I s)
    (hrecord : ∀ s n outcome, I s → s.running n = some (.ended outcome) → I (s.record n outcome)) : I s.recordAll := by
  refine List.foldlRecOn s.graph.nodes RunState.recordEnded h fun s hs nd _ => ?_
  unfold recordEnded
  split
  · exact hrecord s nd.id _ hs ‹_›
  · exact hs

/-! ## Right results -/

section Right

variable (out : ℕ → TaskEnd) (right : ℕ → NodeResult → Prop) (turnOk : RunState π → Turn → Prop)

/-- What is recorded is right. -/
def Right (s : RunState π) : Prop :=
  ∀ n r, s.results n = some r → right n r

/-- The tasks that have ended have ended as their nodes do, and have not stopped the run. -/
structure Fixes (g : Graph π) (s : RunState π) : Prop where
  graph : s.graph = g
  sound : s.Sound
  ended : ∀ n outcome, s.running n = some (.ended outcome) → outcome = out n
  goes : s.stop = false

variable {out right turnOk}

theorem Right.of_results (h : t.Right right) (kept : ∀ n r, s.results n = some r → t.results n = some r) :
    s.Right right :=
  fun n r result => h n r (kept n r result)

namespace Fixes

section

variable (ids : (g.nodes.map Node.id).Nodup)
  (unstopped : ∀ nd ∈ g.nodes, (result (out nd.id)).status = .failed → nd.onFailure ≠ .stop) (h : s.Fixes out g)
include ids unstopped h

theorem record {n : ℕ} {outcome : TaskEnd} (ended : s.running n = some (.ended outcome)) :
    (s.record n outcome).Fixes out g := by
  refine ⟨h.graph, h.sound.record ended outcome, fun m outcome' running => ?_, ?_⟩
  · by_cases same : m = n
    · simp [RunState.record, same] at running
    · exact h.ended m outcome' (by simpa [RunState.record, Function.update_of_ne same] using running)
  · obtain rfl := h.ended n outcome ended
    obtain ⟨nd, node, rfl⟩ := h.sound.nodes_only n (.inr ⟨_, ended⟩)
    obtain rfl := h.graph
    simp only [RunState.record, h.goes, Bool.false_or, Graph.node_eq_some ids node, Option.any_some]
    have safe := unstopped nd node
    simpa using safe

theorem recordAll : s.recordAll.Fixes out g :=
  recordAll_induction h fun _ _ _ h ended => h.record ids unstopped ended

end

theorem turn {a : Turn} (h : s.Fixes out g) (ht : s.turn a = some t) : t.Fixes out g := by
  obtain ⟨sound, frame⟩ := h.sound.turn ht
  refine ⟨frame.graph.trans h.graph, sound, fun n outcome ended => ?_, (stop_turn ht).trans h.goes⟩
  exact h.ended n outcome (frame.running ▸ ended)

theorem startReady (h : s.Fixes out g) : s.startReady.Fixes out g := by
  have starts := h.sound.starts
  refine ⟨starts.graph.trans h.graph, h.sound.startReady.1, fun n outcome ended => ?_, ?_⟩
  · exact h.ended n outcome ((starts.fresh n _ ended).resolve_right (by simp))
  · have goes : s.settle.stop = false := (stop_settle h.sound).trans h.goes
    simp [RunState.startReady, goes, startTaken]

end Fixes

theorem Fixes.init (ids : (g.nodes.map Node.id).Nodup) (hard : ∀ n, ∀ d ∈ g.hard n, d ∈ g.deps n) :
    (RunState.init g).Fixes out g :=
  ⟨rfl, sound_init ids hard, fun n outcome ended => by simp [RunState.init] at ended, rfl⟩

/-- Starting the ready nodes records nothing. -/
theorem results_startReady (s : RunState π) : s.startReady.results = s.settle.results := by
  unfold startReady
  split <;> rfl

/-- Right results stay right where each task and each turn records what is right. -/
theorem Right.recordAll (ids : (g.nodes.map Node.id).Nodup)
    (unstopped : ∀ nd ∈ g.nodes, (result (out nd.id)).status = .failed → nd.onFailure ≠ .stop)
    (hrun : ∀ (s : RunState π) n, s.Fixes out g → s.Right right → s.Running n → right n (result (out n)))
    (h : s.Fixes out g) (here : s.Right right) : s.recordAll.Right right := by
  refine (recordAll_induction (I := fun s => s.Fixes out g ∧ s.Right right) ⟨h, here⟩
    fun s n outcome h ended => ⟨h.1.record ids unstopped ended, fun m r recorded => ?_⟩).2
  by_cases same : m = n
  · subst same
    obtain rfl : result outcome = r := by simpa [RunState.record] using recorded
    rw [h.1.ended m outcome ended]
    exact hrun s m h.1 h.2 ⟨_, ended⟩
  · exact h.2 m r (by simpa [RunState.record, Function.update_of_ne same] using recorded)

end Right

end RunState

namespace Execution

open RunState

variable {g : Graph π} {e f : Execution π} {out : ℕ → TaskEnd} {right : ℕ → NodeResult → Prop}
  {turnOk : RunState π → Turn → Prop}

/-- No cancellation reaches the run, and each task ends as its node does. -/
def Fixed (out : ℕ → TaskEnd) : Execution π → RunLabel → Prop :=
  fun _ label => (∀ absorbed, label ≠ .cancel absorbed) ∧ ∀ n outcome, label = .ends n outcome → outcome = out n

/-- The turns of the step meet the condition. -/
def StepTurnsOk (turnOk : RunState π → Turn → Prop) : Execution π → RunLabel → Prop :=
  fun e label => label = .wake → okAlong RunState.turn turnOk e.state.recordAll e.state.recordAll.settleTurns

/-- The turns of the run meet the condition. -/
structure TurnsOk (turnOk : RunState π → Turn → Prop) (g : Graph π) (labels : List RunLabel) : Prop where
  first : okAlong RunState.turn turnOk (init g) (init g).settleTurns
  steps : okAlong Execution.step (StepTurnsOk turnOk) (start g) labels

/-- The head of the loop records what settling records, unless the run has stopped. -/
theorem proceed_results (h : e.state.Fixes out g) : (proceed e).state.results = e.state.settle.results := by
  have goes := h.startReady.goes
  rw [← results_startReady]
  simp only [proceed]
  split_ifs with active stuck
  · rfl
  · rfl
  · have nothing : e.state.startReady.pending = [] := by
      by_contra pending
      exact stuck ⟨pending, by simp [goes]⟩
    simp [resolveSkips, nothing, skipLoop, cancelPending]

/-- A run with fixed outcomes. -/
def Follows (out : ℕ → TaskEnd) (g : Graph π) (e : Execution π) : Prop :=
  (Waits g e ∧ e.state.Fixes out g) ∨ Complete g e

theorem Fixes.proceed (h : e.state.Fixes out g) (next : Waits g (proceed e) ∨ Complete g (proceed e)) :
    Follows out g (proceed e) := by
  refine next.imp_left fun waits => ⟨waits, ?_⟩
  rcases proceed_cases h.sound with ⟨⟨ending, finished⟩, -⟩ | eq
  · exact absurd finished (waits.going ending)
  · rw [eq]
    exact h.startReady

theorem follows_start (valid : g.Valid) : Follows out g (start g) :=
  Fixes.proceed (.init valid.ids valid.hard_deps) (waits_start valid)

theorem Follows.step {label : RunLabel} (valid : g.Valid)
    (unstopped : ∀ nd ∈ g.nodes, (result (out nd.id)).status = .failed → nd.onFailure ≠ .stop)
    (h : Follows out g e) (fixed : Fixed out e label) (hs : e.step label = some f) : Follows out g f := by
  rcases h with ⟨waits, fixes⟩ | done
  swap
  · simp [done.stops] at hs
  have next := (waits.step valid fixed.1 hs).1
  cases takes_of_step hs with
  | @dispatch n waiting created =>
    refine next.imp_left fun waits => ⟨waits, fixes.graph, waits.sound, fun m outcome ended => ?_, fixes.goes⟩
    by_cases same : m = n
    · simp [setTask, same] at ended
    · exact fixes.ended m outcome (by simpa [setTask, Function.update_of_ne same] using ended)
  | @ends n task outcome running called =>
    refine next.imp_left fun waits => ⟨waits, fixes.graph, waits.sound, fun m outcome' ended => ?_, fixes.goes⟩
    by_cases same : m = n
    · obtain rfl : outcome = outcome' := by simpa [setTask, same] using ended
      rw [same]
      exact fixed.2 n outcome rfl
    · exact fixes.ended m outcome' (by simpa [setTask, Function.update_of_ne same] using ended)
  | wake => exact Fixes.proceed (fixes.recordAll valid.ids unstopped) next
  | cancel => exact absurd rfl (fixed.1 _)
  | drained draining => cases waits.waiting.symm.trans draining

/-- A step that is no wake records nothing. -/
theorem results_of_step {label : RunLabel} (waits : Waits g e) (fixed : Fixed out e label) (other : label ≠ .wake)
    (hs : e.step label = some f) : f.state.results = e.state.results := by
  cases takes_of_step hs with
  | wake => exact absurd rfl other
  | drained draining => cases waits.waiting.symm.trans draining
  | _ => rfl

/-- What a wake records is what the ends of the tasks and the turns that follow record. -/
theorem wake_results (valid : g.Valid)
    (unstopped : ∀ nd ∈ g.nodes, (result (out nd.id)).status = .failed → nd.onFailure ≠ .stop)
    (h : e.state.Fixes out g) (hs : e.step .wake = some f) : f.state.results = e.state.recordAll.settle.results := by
  simp only [Execution.step, Option.ite_none_right_eq_some] at hs
  obtain ⟨-, hs⟩ := hs
  cases hs
  exact proceed_results (e := { e with state := e.state.recordAll }) (h.recordAll valid.ids unstopped)

/-- Settling records what is right if its turns do. -/
theorem right_settle {s : RunState π}
    (hturn : ∀ s a t, s.Fixes out g → s.Right right → turnOk s a → s.turn a = some t → t.Right right)
    (h : s.Fixes out g) (here : s.Right right) (ok : okAlong RunState.turn turnOk s s.settleTurns) :
    s.settle.Right right := by
  refine (exec_invariant (I := fun s => s.Fixes out g ∧ s.Right right) (exec_settle h.sound) ok ⟨h, here⟩
    fun s a t hs ok ht => ?_).2
  exact ⟨hs.1.turn ht, hturn s a t hs.1 hs.2 ok ht⟩

section

variable (valid : g.Valid) (unstopped : ∀ nd ∈ g.nodes, (result (out nd.id)).status = .failed → nd.onFailure ≠ .stop)
include valid unstopped

/-- **Right results.** If turns that meet the condition and each task record what is right, a run whose
turns meet the condition has recorded what is right. -/
theorem right_of_turnsOk
    (hsettle : ∀ s : RunState π, s.Fixes out g → s.Right right → okAlong RunState.turn turnOk s s.settleTurns →
      s.settle.Right right)
    (hrun : ∀ (s : RunState π) n, s.Fixes out g → s.Right right → s.Running n → right n (result (out n)))
    (fixed : okAlong Execution.step (Fixed out) (start g) labels) (ok : TurnsOk turnOk g labels)
    (run : exec Execution.step (start g) labels = some e) : e.state.Right right := by
  have begun : (start g).state.Right right := by
    have init : (init g).Fixes out g := .init valid.ids valid.hard_deps
    unfold Right
    rw [start, proceed_results (e := { state := .init g }) init]
    exact hsettle _ init (fun n r result => by simp [RunState.init] at result) ok.first
  refine (exec_invariant (I := fun e => Follows out g e ∧ e.state.Right right) run (okAlong_and fixed ok.steps)
    ⟨follows_start valid, begun⟩ fun e label f h met hs => ⟨h.1.step valid unstopped met.1 hs, ?_⟩).2
  rcases h.1 with ⟨waits, fixes⟩ | done
  swap
  · simp [done.stops] at hs
  unfold Right
  by_cases woken : label = .wake
  · subst woken
    rw [wake_results valid unstopped fixes hs]
    exact hsettle _ (fixes.recordAll valid.ids unstopped) (.recordAll valid.ids unstopped hrun fixes h.2)
      (met.2 rfl)
  · rw [results_of_step waits met.1 woken hs]
    exact h.2

/-- A condition that right results give, where every turn and task records what is right. -/
theorem turnsOk_of_kept
    (hturn : ∀ s a t, s.Fixes out g → s.Right right → s.turn a = some t → t.Right right ∧ turnOk s a)
    (hrun : ∀ (s : RunState π) n, s.Fixes out g → s.Right right → s.Running n → right n (result (out n)))
    (fixed : okAlong Execution.step (Fixed out) (start g) labels)
    (run : exec Execution.step (start g) labels = some e) : TurnsOk turnOk g labels := by
  have settles (s : RunState π) (h : s.Fixes out g) (here : s.Right right) :
      s.settle.Right right ∧ okAlong RunState.turn turnOk s s.settleTurns := by
    have any : okAlong RunState.turn always s s.settleTurns := okAlong_always
    refine ⟨right_settle (fun s a t h here _ ht => (hturn s a t h here ht).1) h here any, ?_⟩
    exact okAlong_of_invariant (I := fun s => s.Fixes out g ∧ s.Right right) (exec_settle h.sound) okAlong_always
      ⟨h, here⟩ fun s a t hs _ ht => ⟨⟨hs.1.turn ht, (hturn s a t hs.1 hs.2 ht).1⟩, (hturn s a t hs.1 hs.2 ht).2⟩
  have init : (init g).Fixes out g := .init valid.ids valid.hard_deps
  have begun := settles (RunState.init g) init fun n r result => by simp [RunState.init] at result
  have first : (start g).state.Right right := by
    unfold Right
    rw [start, proceed_results (e := { state := .init g }) init]
    exact begun.1
  refine ⟨begun.2, okAlong_of_invariant (I := fun e => Follows out g e ∧ e.state.Right right) run fixed
    ⟨follows_start valid, first⟩ fun e label f h met hs => ?_⟩
  rcases h.1 with ⟨waits, fixes⟩ | done
  swap
  · simp [done.stops] at hs
  have recorded := settles e.state.recordAll (fixes.recordAll valid.ids unstopped)
    (.recordAll valid.ids unstopped hrun fixes h.2)
  refine ⟨⟨h.1.step valid unstopped met hs, ?_⟩, fun _ => recorded.2⟩
  unfold Right
  by_cases woken : label = .wake
  · subst woken
    rw [wake_results valid unstopped fixes hs]
    exact recorded.1
  · rw [results_of_step waits met woken hs]
    exact h.2

end

/-- If what settling has recorded is right, so was what it began with, and each turn met a condition that
right turns meet. -/
theorem turns_of_right_settle {s : RunState π}
    (hback : ∀ s a t, s.Fixes out g → s.Right right → t.Right right → s.turn a = some t → turnOk s a)
    (h : s.Fixes out g) (there : s.settle.Right right) :
    s.Right right ∧ okAlong RunState.turn turnOk s s.settleTurns := by
  refine okAlong_of_end (J := fun s => s.Fixes out g) (I := fun s => s.Right right) (exec_settle h.sound)
    okAlong_always h (fun _ _ _ h _ ht => h.turn ht) (fun s a t h _ ht there => ?_) there
  have here : s.Right right := there.of_results (h.sound.turn ht).2.results
  exact ⟨here, hback s a t h here there ht⟩

/-- **Only right turns give right results.** -/
theorem turnsOk_of_right (valid : g.Valid)
    (unstopped : ∀ nd ∈ g.nodes, (result (out nd.id)).status = .failed → nd.onFailure ≠ .stop)
    (hback : ∀ s a t, s.Fixes out g → s.Right right → t.Right right → s.turn a = some t → turnOk s a)
    (fixed : okAlong Execution.step (Fixed out) (start g) labels)
    (run : exec Execution.step (start g) labels = some e) (there : e.state.Right right) : TurnsOk turnOk g labels := by
  have back (e : Execution π) (label : RunLabel) (f : Execution π) (h : Follows out g e) (met : Fixed out e label)
      (hs : e.step label = some f) (there : f.state.Right right) :
      e.state.Right right ∧ StepTurnsOk turnOk e label := by
    rcases h with ⟨waits, fixes⟩ | done
    swap
    · simp [done.stops] at hs
    have kept := (waits.step valid met.1 hs).2.1
    refine ⟨there.of_results kept, fun woken => ?_⟩
    subst woken
    unfold Right at there
    rw [wake_results valid unstopped fixes hs] at there
    exact (turns_of_right_settle hback (fixes.recordAll valid.ids unstopped) there).2
  obtain ⟨begun, steps⟩ := okAlong_of_end (I := fun e => e.state.Right right) run fixed (follows_start valid)
    (fun _ _ _ h met hs => h.step valid unstopped met hs) back there
  refine ⟨?_, steps⟩
  have init : (init g).Fixes out g := .init valid.ids valid.hard_deps
  unfold Right at begun
  rw [start, proceed_results (e := { state := .init g }) init] at begun
  exact (turns_of_right_settle hback init begun).2

end Execution

end SensorKit.Common
