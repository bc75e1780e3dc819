import SensorKit.Core.ControllerHandlers
import SensorKit.Core.ControllerSettlement

/-!
# Lifecycle results

The finish that a lifecycle run records when it settles decides what the controller holds to be true: the
target and the submitted input of a success, an ERROR or an UNKNOWN latch otherwise. The handler's return,
the wait for confirmation and the reports until settlement each had their say in that finish.
-/

namespace SensorKit.Core

open Lib

variable {K : Type}

namespace ControllerStateResolver

variable (r : ControllerStateResolver K)

/-- A latch holds UNKNOWN or ERROR. -/
def Latches : Prop :=
  ∀ latch, r.latch = some latch → latch.state = .unknown ∨ latch.state = .error

variable {r}

theorem latches_hold {state : InternalControllerState} (context : K) (h : state = .unknown ∨ state = .error) :
    (r.hold state context).Latches := by
  intro latch held
  cases held
  exact h

theorem latches_init (context : K) (latched : Bool) : (init context latched).Latches := by
  unfold init
  dsimp only
  split
  · exact latches_hold context (.inl rfl)
  · intro latch held
    cases held

theorem latches_recordObserved (h : r.Latches) (state : InternalControllerState) (context : Option K) :
    (r.recordObserved state context).Latches := by
  unfold recordObserved
  split
  · exact latches_hold _ (.inl rfl)
  · exact latches_hold _ (.inr rfl)
  · exact h
  · exact h

theorem latches_recordFinish (h : r.Latches) (target : Option InternalControllerState) (submitted : K)
    (finish : TaskFinishInfo) (began : Bool) : (r.recordFinish target submitted finish began).Latches := by
  unfold recordFinish
  dsimp only
  split
  · exact h
  · cases target <;> intro latch held <;> cases held
  · exact latches_hold _ (.inl rfl)
  · exact latches_hold _ (.inr rfl)

/-- While a latch is held it is the settled state. -/
theorem settled_of_latched (h : r.Latches) (latched : r.latch ≠ none) :
    r.settled.state = .unknown ∨ r.settled.state = .error := by
  obtain ⟨latch, held⟩ := Option.ne_none_iff_exists'.1 latched
  have settled : r.settled = latch.toStateWithInput := by simp only [settled, held]
  rw [settled]
  exact h latch held

/-- No report lets go of a latch. -/
theorem latched_recordObserved (latched : r.latch ≠ none) (state : InternalControllerState) (context : Option K) :
    (r.recordObserved state context).latch ≠ none := by
  unfold recordObserved
  split
  · simp [hold]
  · simp [hold]
  · exact latched
  · exact latched

/-- Only a success does. -/
theorem latched_recordFinish {finish : TaskFinishInfo} (latched : r.latch ≠ none) (unsuccessful : finish ≠ {})
    (target : Option InternalControllerState) (submitted : K) (began : Bool) :
    (r.recordFinish target submitted finish began).latch ≠ none := by
  unfold recordFinish
  dsimp only
  split
  · exact latched
  · rename_i error aborted
    obtain ⟨aborted', error'⟩ := finish
    exact absurd (by rw [show aborted' = false from aborted, show error' = none from error]) unsuccessful
  · simp [hold]
  · simp [hold]

end ControllerStateResolver

namespace Controller

variable {s t u : Controller K} {n : ℕ} {r r' : TaskRun K}

/-! ## What a settlement leaves -/

/-- What the settlement of a run that is recorded as `r` leaves. -/
structure SettlesAsRecorded (s t : Controller K) (r : TaskRun K) : Prop where
  /-- A task that is none of the lifecycle's changes nothing. -/
  other : r.lifecycle = false → t.states = s.states
  /-- A success leaves the target with the submitted input, and no latch. -/
  succeeded : r.lifecycle = true → r.finishInfo = {} → t.states.latch = none ∧
    ∀ target, r.task.targetState = some target → t.states.settled = ⟨target, r.submittedContext⟩
  failed : r.lifecycle = true → r.finishInfo.error.isSome = true →
    ∃ latch, t.states.latch = some latch ∧ latch.state = .error
  aborted : r.lifecycle = true → r.started = true → r.finishInfo.error = none → r.finishInfo.aborted = true →
    ∃ latch, t.states.latch = some latch ∧ latch.state = .unknown
  /-- A task that never began leaves everything as it was. -/
  unbegun : r.started = false → r.finishInfo.error = none → r.finishInfo.aborted = true → t.states = s.states

section Settle

variable [DecidableEq K]

/-- Settling a lifecycle run records its finish, with the mismatch that it found. -/
theorem settle_states (lifecycle : r.lifecycle = true) : (s.settle r).2.1 =
    s.states.recordFinish r.task.targetState r.submittedContext (s.settle r).1.finishInfo r.started := by
  simp only [settle, lifecycle, if_true]

theorem settle_record (s : Controller K) (r : TaskRun K) : (s.settle r).1.task = r.task ∧
    (s.settle r).1.submittedContext = r.submittedContext ∧ (s.settle r).1.started = r.started := by
  unfold settle
  split <;> exact ⟨rfl, rfl, rfl⟩

/-- **A success is confirmed**: no latch since the handler returned, and no other state reported. -/
theorem settled_of_success (lifecycle : r.lifecycle = true) (success : (s.settle r).1.finishInfo = {}) :
    (s.settle r).2.1.latch = none ∧
      ∀ target, r.task.targetState = some target → (s.settle r).2.1.settled = ⟨target, r.submittedContext⟩ := by
  have states := settle_states (s := s) lifecycle
  rw [success] at states
  have recorded : r.finishInfo = {} ∧ s.mismatch r = none := by
    simp only [settle, lifecycle, if_true] at success
    cases mismatch : s.mismatch r with
    | none => exact ⟨by simpa [mismatch] using success, rfl⟩
    | some message => simp [mismatch] at success
  rw [states]
  cases target : r.task.targetState with
  | none => exact ⟨rfl, by simp⟩
  | some target' =>
    refine ⟨rfl, fun _ same => ?_⟩
    cases same
    obtain ⟨finish, mismatch⟩ := recorded
    simp only [Controller.mismatch, finish, if_true, target] at mismatch
    split at mismatch
    · cases mismatch
    · rename_i found
      cases found
      split at mismatch
      · rename_i confirms
        unfold ControllerStateResolver.confirms at confirms
        rcases of_decide_eq_true confirms with unobserved | observed
        · simp [ControllerStateResolver.recordFinish, ControllerStateResolver.recordSuccess,
            ControllerStateResolver.settled, unobserved]
        · simp [ControllerStateResolver.recordFinish, ControllerStateResolver.recordSuccess,
            ControllerStateResolver.settled, observed]
      · cases mismatch
    · rename_i absent
      cases absent

theorem settlesAsRecorded (states : t.states = (s.settle r).2.1) (same : (s.settle r).1.SameRecord r') :
    SettlesAsRecorded s t r' := by
  obtain ⟨task, context, started⟩ := settle_record s r
  have task := same.task.trans task
  have context := same.submittedContext.trans context
  have started := same.started.trans started
  have lifecycle : r'.lifecycle = r.lifecycle := by
    unfold TaskRun.lifecycle
    rw [task]
  constructor
  · intro other
    rw [states]
    simp [settle, ← lifecycle, other]
  · intro within success
    rw [lifecycle] at within
    rw [same.finishInfo] at success
    rw [states, task, context]
    exact settled_of_success within success
  · intro within failed
    rw [lifecycle] at within
    rw [states, settle_states within, ← same.finishInfo]
    obtain ⟨message, error⟩ := Option.isSome_iff_exists.1 failed
    unfold ControllerStateResolver.recordFinish
    rw [error]
    exact ⟨_, rfl, rfl⟩
  · intro within began error aborted
    rw [lifecycle] at within
    rw [states, settle_states within, ← same.finishInfo, ← started]
    unfold ControllerStateResolver.recordFinish
    rw [error, aborted, began]
    exact ⟨_, rfl, rfl⟩
  · intro unbegun error aborted
    rw [states]
    cases within : r.lifecycle with
    | false => simp [settle, within]
    | true =>
      rw [settle_states within, ← same.finishInfo, ← started]
      unfold ControllerStateResolver.recordFinish
      rw [error, aborted, unbegun]

/-! ## Whole runs -/

variable {taskHandlers : List String} {recovered : ControllerState K} {legacy : Bool}
  {ok : Controller K → ControllerLabel K → Prop}

theorem latches_of_run (run : Reaches step ok (started taskHandlers recovered legacy) s) : s.states.Latches := by
  refine run.invariant₂ (I := fun s => s.Ordered ∧ s.Consistent) (J := fun s => s.states.Latches)
    (fun _ r => ⟨ordered_of_run r, consistent_of_run r⟩) (ControllerStateResolver.latches_init _ _)
    fun t label u consistent latches _ hs => ?_
  cases resolves_of_step consistent.1 consistent.2 hs with
  | same undisturbed =>
    rw [undisturbed.states]
    exact latches
  | reported state context states =>
    rw [states]
    exact ControllerStateResolver.latches_recordObserved latches state context
  | settled n r r' _ _ _ _ states =>
    rw [states]
    cases within : r.lifecycle with
    | false => simpa [settle, within] using latches
    | true =>
      rw [settle_states within]
      exact ControllerStateResolver.latches_recordFinish latches _ _ _ _

/-- A step that settles a run leaves what its record says. -/
theorem settles_of_step {label : ControllerLabel K} (o : s.Ordered) (c : s.Consistent) (hs : s.step label = some t)
    (settles : Settles s t n r') : SettlesAsRecorded s t r' := by
  obtain ⟨⟨r₀, run₀, unfinished⟩, run', phase⟩ := settles
  have unsettled (kept : s.Settled t n) : False := by
    obtain ⟨r, run, finished, -⟩ := kept r' run' phase
    obtain rfl : r = r₀ := Option.some.inj (run.symm.trans run₀)
    exact unfinished finished
  cases resolves_of_step o c hs with
  | same undisturbed => exact (unsettled (undisturbed.runs n)).elim
  | reported state context states runs => exact (unsettled (runs n)).elim
  | settled m rm rm' run _ runm' _ states same others =>
    by_cases here : n = m
    · subst here
      obtain rfl : rm' = r' := Option.some.inj (runm'.symm.trans run')
      exact settlesAsRecorded states same
    · exact (unsettled (others n here)).elim

/-- The settlement of a run lies behind a finished one, with the same record. -/
theorem exists_settlement (run : Reaches step always (started taskHandlers recovered legacy) u) :
    ∀ n r, u.runs n = some r → r.phase = .finished →
      ∃ s label t r', Reaches step always (started taskHandlers recovered legacy) s ∧ s.step label = some t ∧
        Reaches step always t u ∧ Settles s t n r' ∧ r'.SameRecord r := by
  induction run with
  | refl => intro n r known; simp [started] at known
  | @tail s t label before _ hs ih =>
    intro n r known finished
    have kept (settled : s.Settled t n) : ∃ s' label' t' r', Reaches step always (started taskHandlers recovered legacy) s' ∧
        s'.step label' = some t' ∧ Reaches step always t' t ∧ Settles s' t' n r' ∧ r'.SameRecord r := by
      obtain ⟨r₀, run₀, finished₀, same₀⟩ := settled r known finished
      obtain ⟨s', label', t', r', reached, stepped, onward, settles, same⟩ := ih n r₀ run₀ finished₀
      exact ⟨s', label', t', r', reached, stepped, .tail onward trivial hs, settles, same.trans same₀⟩
    cases resolves_of_step (ordered_of_run before) (consistent_of_run before) hs with
    | same undisturbed => exact kept (undisturbed.runs n)
    | reported state context states runs => exact kept (runs n)
    | settled m rm rm' run unfinished run' phase states same others =>
      by_cases here : n = m
      · subst here
        obtain rfl : rm' = r := Option.some.inj (run'.symm.trans known)
        exact ⟨s, label, t, rm', before, hs, .refl _, ⟨⟨rm, run, unfinished⟩, run', phase⟩, rfl, rfl, rfl, rfl⟩
      · exact kept (others n here)

/-- The step records no success of a lifecycle run. -/
def NoSuccess (s : Controller K) (label : ControllerLabel K) : Prop :=
  ∀ t n r, s.step label = some t → Settles s t n r → r.lifecycle = true → r.finishInfo ≠ {}

/-- A latch stays until a lifecycle run succeeds. -/
theorem latched_of_step {label : ControllerLabel K} (o : s.Ordered) (c : s.Consistent) (latched : s.states.latch ≠ none)
    (unsuccessful : NoSuccess s label) (hs : s.step label = some t) : t.states.latch ≠ none := by
  cases resolves_of_step o c hs with
  | same undisturbed => rwa [undisturbed.states]
  | reported state context states =>
    rw [states]
    exact ControllerStateResolver.latched_recordObserved latched state context
  | settled n r r' run unfinished run' phase states same =>
    have settles : Settles s t n r' := ⟨⟨r, run, unfinished⟩, run', phase⟩
    rw [states]
    cases within : r.lifecycle with
    | false => simpa [settle, within] using latched
    | true =>
      have within' : r'.lifecycle = true := by
        rw [same.lifecycle, TaskRun.lifecycle, (settle_record s r).1]
        exact within
      rw [settle_states within, ← same.finishInfo]
      have recorded : r'.finishInfo ≠ {} := unsuccessful t n r' hs settles within'
      exact ControllerStateResolver.latched_recordFinish latched recorded _ _ _

/-- What the controller promises of its lifecycle runs, in a state `u` that it reaches from `start`. -/
structure LifecycleResults (start u : Controller K) : Prop where
  /-- A run that settles next leaves what its finish says. -/
  settles : ∀ label t n r, u.step label = some t → Settles u t n r → SettlesAsRecorded u t r
  /-- A run with a target that succeeded found it settled right after its settlement, and no latch. -/
  succeeds : ∀ n r target, u.runs n = some r → r.task.targetState = some target → r.stage = .done .succeeded →
    ∃ s label t r', Reaches step always start s ∧ s.step label = some t ∧ Reaches step always t u ∧
      Settles s t n r' ∧ r'.SameRecord r ∧ t.states.latch = none ∧ t.states.settled = ⟨target, r.submittedContext⟩
  /-- A latch holds the settled state at UNKNOWN or ERROR until a lifecycle run succeeds. -/
  latched : u.states.latch ≠ none → ∀ v, Reaches step NoSuccess u v →
    v.states.latch ≠ none ∧ (v.states.settled.state = .unknown ∨ v.states.settled.state = .error)

/-- **Lifecycle results and latches**, in every state that a controller reaches. -/
theorem lifecycleResults (run : Reaches step always (started taskHandlers recovered legacy) u) :
    LifecycleResults (started taskHandlers recovered legacy) u := by
  refine ⟨fun label t n r hs settles => ?_, fun n r target known targeted succeeded => ?_, fun latched v onward => ?_⟩
  · exact settles_of_step (ordered_of_run run) (consistent_of_run run) hs settles
  · have record := (consistent_of_run run).runs n r known
    simp only [TaskRun.Consistent, succeeded] at record
    obtain ⟨phase, finish⟩ := record
    obtain ⟨s, label, t, r', before, hs, after, settles, same⟩ := exists_settlement run n r known phase
    have recorded := settles_of_step (ordered_of_run before) (consistent_of_run before) hs settles
    have within : r'.lifecycle = true := by
      unfold TaskRun.lifecycle
      rw [← same.task, targeted]
      rfl
    obtain ⟨free, settled⟩ := recorded.succeeded within (same.finishInfo.symm.trans (finish trivial).1)
    refine ⟨s, label, t, r', before, hs, after, settles, same, free, ?_⟩
    rw [settled target (same.task ▸ targeted), same.submittedContext]
  · have whole : Reaches step always (started taskHandlers recovered legacy) v :=
      run.trans (onward.mono fun _ _ _ => trivial)
    have held : v.states.latch ≠ none := by
      have all : (Reaches step always (started taskHandlers recovered legacy) v) ∧ v.states.latch ≠ none := by
        refine onward.invariant
          (I := fun v => Reaches step always (started taskHandlers recovered legacy) v ∧ v.states.latch ≠ none)
          ⟨run, latched⟩ fun s label t held unsuccessful hs => ?_
        obtain ⟨reached, held⟩ := held
        exact ⟨.tail reached trivial hs,
          latched_of_step (ordered_of_run reached) (consistent_of_run reached) held unsuccessful hs⟩
      exact all.2
    exact ⟨held, ControllerStateResolver.settled_of_latched (latches_of_run whole) held⟩

end Settle

/-- An initialization fails, and the controller then reports that it operates. -/
def failedInit : List (ControllerLabel Unit) :=
  [.arrive (.admission ⟨{ taskType := "init", targetState := some .operate }, (), false⟩), .enter, .published .succeeded,
    .begin 0, .enter, .published .succeeded, .handled 0 (.failed "fault"), .finish 0, .enter, .published .succeeded,
    .ends 0, .arrive (.report .operate (some ())), .enter]

theorem lifecycleResults_example : ∃ u : Controller Unit, u.states.settled.state = .error ∧
    u.states.observed = some ⟨.operate, ()⟩ ∧ LifecycleResults (exampleController ["init"]) u := by
  have run : Reaches step always (exampleController ["init"])
      ((exec step (exampleController ["init"]) failedInit).get (by decide +kernel)) :=
    reaches_of_exec (Option.some_get _).symm okAlong_always
  exact ⟨_, by decide +kernel, by decide +kernel, lifecycleResults run⟩

end Controller

end SensorKit.Core
