import SensorKit.Core.ServiceContext

/-!
# Each attached implementation is detached once

The service task takes one list of what it detaches. An implementation is on it just if its initialization has completed by
then.
-/

namespace SensorKit.Core

open Lib

namespace ServiceContext

variable {context context' : ServiceContext} {i k : ℕ} {registration : Registration} {phase : RegisterPhase}
  {task : ServiceTask} {label : ServiceLabel} {labels : List ServiceLabel}

/-- `_run_detach` has taken its list. -/
def DetachRun (context : ServiceContext) : Prop :=
  match context.task with
  | .detaching | .leavingGroup true | .closingListeners true | .detachingLast | .ended => True
  | .notStarted | .refreshing | .leavingGroup false | .closingListeners false => False

instance (context : ServiceContext) : Decidable context.DetachRun := by
  unfold DetachRun
  split <;> infer_instance

/-- Once the list is taken, each implementation that is initialized has been detached once. -/
def Accounted (context : ServiceContext) : Prop :=
  context.DetachRun → ∀ (i : ℕ) (registration : Registration), context.registrations[i]? = some registration →
    registration.Initialized → registration.detachCalls = 1

/-- No initialization completes after the list is taken. -/
def InitializesInTime (context : ServiceContext) : ServiceLabel → Prop
  | .initialized _ true => ¬ context.DetachRun
  | _ => True

/-- No initialization completes after the list is taken, and no attach after the service task has ended. -/
def InTime (context : ServiceContext) : ServiceLabel → Prop
  | .initialized _ true => ¬ context.DetachRun
  | .attached _ true => context.task ≠ .ended
  | _ => True

instance (context : ServiceContext) (label : ServiceLabel) : Decidable (context.InTime label) := by
  unfold InTime
  split <;> infer_instance

theorem inTime_iff : context.InTime label ↔
    context.InitializesInTime label ∧ ∀ i, label = .attached i true → context.task ≠ .ended := by
  cases label with
  | initialized i ok => cases ok <;> exact ⟨fun free => ⟨free, fun _ same => by cases same⟩, fun both => both.1⟩
  | attached i ok =>
    cases ok with
    | true => exact ⟨fun open_ => ⟨trivial, fun _ _ => open_⟩, fun both => both.2 i rfl⟩
    | false => exact ⟨fun free => ⟨free, fun _ same => by cases same⟩, fun both => both.1⟩
  | _ => exact ⟨fun free => ⟨free, fun _ same => by cases same⟩, fun both => both.1⟩

/-- The implementations that are tracked are those whose initialization has completed, and only these are detached. -/
structure Sound (context : ServiceContext) : Prop where
  tracked : ∀ (i : ℕ) (registration : Registration), context.registrations[i]? = some registration →
    context.impls.count i = if registration.Initialized then 1 else 0
  known : ∀ i ∈ context.impls, i < context.registrations.length
  fresh : ¬ context.DetachRun → ∀ (i : ℕ) (registration : Registration), context.registrations[i]? = some registration →
    registration.detachCalls = 0
  untouched : ∀ (i : ℕ) (registration : Registration), context.registrations[i]? = some registration →
    ¬ registration.Initialized → registration.detachCalls = 0

theorem sound_start : Sound {} where
  tracked _ _ there := by cases there
  known _ mem := by cases mem
  fresh _ _ _ there := by cases there
  untouched _ _ there := by cases there

theorem setPhase_eq (there : context.registrations[i]? = some registration) : context.setPhase i phase =
    { context with registrations := context.registrations.set i { registration with phase } } := by
  unfold setPhase
  rw [there]

section

variable (h : Sound context)
include h

/-- A registration goes on, without its initialization completing. -/
theorem Sound.rephase (there : context.registrations[i]? = some registration)
    (same : Registration.Initialized { registration with phase } ↔ registration.Initialized) :
    Sound (context.setPhase i phase) ∧ (Accounted (context.setPhase i phase) ↔ Accounted context) := by
  rw [setPhase_eq there]
  refine ⟨⟨fun k other found => ?_, fun k mem => ?_, fun free k other found => ?_, fun k other found not => ?_⟩, ?_⟩
  · rcases found_set found with ⟨rfl, rfl⟩ | ⟨-, found⟩
    · exact (h.tracked _ _ there).trans (if_congr same.symm rfl rfl)
    · exact h.tracked k other found
  · show k < (context.registrations.set i _).length
    rw [List.length_set]
    exact h.known k mem
  · rcases found_set found with ⟨rfl, rfl⟩ | ⟨-, found⟩
    · show registration.detachCalls = 0
      exact h.fresh free k registration there
    · exact h.fresh free k other found
  · rcases found_set found with ⟨rfl, rfl⟩ | ⟨-, found⟩
    · show registration.detachCalls = 0
      exact h.untouched k registration there fun before => not (same.2 before)
    · exact h.untouched k other found not
  · refine forall_congr' fun run => ⟨fun each k other found initialized => ?_, fun each k other found initialized => ?_⟩
    · by_cases here : k = i
      · subst here
        cases there.symm.trans found
        exact each k { registration with phase } (set_found there) (same.2 initialized)
      · exact each k other (found_set_of_ne found here) initialized
    · rcases found_set found with ⟨rfl, rfl⟩ | ⟨-, found⟩
      · show registration.detachCalls = 1
        exact each k registration there (same.1 initialized)
      · exact each k other found initialized

/-- The service task goes on, without taking its list. -/
theorem Sound.retask (same : DetachRun { context with task } ↔ context.DetachRun) :
    Sound { context with task } ∧ (Accounted { context with task } ↔ Accounted context) :=
  ⟨⟨h.tracked, h.known, fun free => h.fresh fun run => free (same.2 run), h.untouched⟩, imp_congr_left same⟩

/-- The service task takes its list. -/
theorem Sound.runDetach (free : ¬ context.DetachRun) (run : DetachRun { context with task }) :
    Sound (context.runDetach task) ∧ (Accounted (context.runDetach task) ↔ Accounted context) := by
  have calls (k : ℕ) (other : Registration) (found : (context.runDetach task).registrations[k]? = some other) :
      ∃ registration, context.registrations[k]? = some registration ∧ other.phase = registration.phase ∧
        other.detachCalls = if registration.Initialized then 1 else 0 := by
    unfold ServiceContext.runDetach at found
    rw [List.getElem?_mapIdx] at found
    obtain ⟨registration, there, rfl⟩ := Option.map_eq_some_iff.1 found
    refine ⟨registration, there, rfl, ?_⟩
    show registration.detachCalls + context.impls.count k = _
    rw [h.fresh free k registration there, h.tracked k registration there, Nat.zero_add]
  have alike {registration other : Registration} (same : other.phase = registration.phase) :
      other.Initialized ↔ registration.Initialized := by
    unfold Registration.Initialized
    rw [same]
  refine ⟨⟨fun k other found => ?_, fun k mem => ?_, fun later => absurd run later, fun k other found not => ?_⟩, ?_⟩
  · obtain ⟨registration, there, same, -⟩ := calls k other found
    exact (h.tracked k registration there).trans (if_congr (alike same).symm rfl rfl)
  · unfold ServiceContext.runDetach
    rw [List.length_mapIdx]
    exact h.known k mem
  · obtain ⟨registration, there, same, called⟩ := calls k other found
    rw [called, if_neg fun before => not ((alike same).2 before)]
  · refine iff_of_true (fun _ k other found initialized => ?_) fun run => absurd run free
    obtain ⟨registration, there, same, called⟩ := calls k other found
    rw [called, if_pos ((alike same).1 initialized)]

/-- An initialization completes: the implementation is tracked, and detached only if the list is still to be taken. -/
theorem Sound.initialized (there : context.registrations[i]? = some registration)
    (before : registration.phase = .initializing) :
    Sound { context.setPhase i .attaching with impls := context.impls ++ [i] } ∧
      (Accounted { context.setPhase i .attaching with impls := context.impls ++ [i] } ↔
        Accounted context ∧ ¬ context.DetachRun) := by
  have uninitialized : ¬ registration.Initialized := by
    unfold Registration.Initialized
    rw [before]
    exact not_false
  have uncalled := h.untouched _ _ there uninitialized
  rw [setPhase_eq there]
  refine ⟨⟨fun k other found => ?_, fun k mem => ?_, fun free k other found => ?_, fun k other found not => ?_⟩, ?_⟩
  · show (context.impls ++ [i]).count k = _
    rw [List.count_append, List.count_singleton]
    rcases found_set found with ⟨rfl, rfl⟩ | ⟨ne, found⟩
    · rw [h.tracked _ _ there, if_neg uninitialized, if_pos (beq_self_eq_true _)]
      rfl
    · have other : ¬ (i == k) = true := fun same => ne (eq_of_beq same).symm
      rw [h.tracked _ _ found, if_neg other]
      rfl
  · show k < (context.registrations.set i _).length
    rw [List.length_set]
    rcases mem_snoc.1 mem with mem | rfl
    · exact h.known k mem
    · exact lt_of_found there
  · rcases found_set found with ⟨rfl, rfl⟩ | ⟨-, found⟩
    · exact uncalled
    · exact h.fresh free k other found
  · rcases found_set found with ⟨rfl, rfl⟩ | ⟨-, found⟩
    · exact uncalled
    · exact h.untouched k other found not
  · constructor
    · intro each
      have free : ¬ context.DetachRun := by
        intro run
        have called := each run _ _ (set_found there) trivial
        rw [show registration.detachCalls = 0 from uncalled] at called
        cases called
      exact ⟨fun run => absurd run free, free⟩
    · rintro ⟨-, free⟩ run
      exact absurd run free

theorem Sound.register {isService acquireLease : Bool}
    (step : context.step (.register isService acquireLease) = some context') :
    Sound context' ∧ (Accounted context' ↔ Accounted context) := by
  cases step
  have fresh : ¬ Registration.Initialized ⟨isService, if acquireLease then .leasing else .initializing, 0⟩ := by
    cases acquireLease <;> exact not_false
  refine ⟨⟨fun k other found => ?_, fun k mem => ?_, fun free k other found => ?_, fun k other found not => ?_⟩, ?_⟩
  · rcases found_snoc found with found | ⟨rfl, rfl⟩
    · exact h.tracked k other found
    · rw [if_neg fresh]
      exact List.count_eq_zero.2 fun mem => Nat.lt_irrefl _ (h.known _ mem)
  · have bound := h.known k mem
    show k < (context.registrations ++ [_]).length
    rw [List.length_append]
    omega
  · rcases found_snoc found with found | ⟨-, rfl⟩
    · exact h.fresh free k other found
    · rfl
  · rcases found_snoc found with found | ⟨-, rfl⟩
    · exact h.untouched k other found not
    · rfl
  · refine forall_congr' fun run => ⟨fun each k other found => each k other (found_snoc_of_found found), ?_⟩
    intro each k other found initialized
    rcases found_snoc found with found | ⟨-, rfl⟩
    · exact each k other found initialized
    · exact absurd initialized fresh

/-- A step keeps each detach accounted for unless an initialization completes too late. -/
theorem Sound.step (step : context.step label = some context') :
    Sound context' ∧ (Accounted context' ↔ Accounted context ∧ context.InitializesInTime label) := by
  have kept (result : Sound context' ∧ (Accounted context' ↔ Accounted context)) (free : context.InitializesInTime label) :
      Sound context' ∧ (Accounted context' ↔ Accounted context ∧ context.InitializesInTime label) :=
    ⟨result.1, result.2.trans (and_iff_left free).symm⟩
  have run_iff {task' : ServiceTask} (at_ : context.task = task') : context.DetachRun ↔ DetachRun { context with task := task' } := by
    unfold DetachRun
    rw [at_]
  cases label with
  | register isService acquireLease => exact kept (h.register step) trivial
  | leased i ok =>
    obtain ⟨registration, there, step⟩ := Option.bind_eq_some_iff.1 step
    split at step
    · rename_i before
      cases step
      refine kept (h.rephase there ?_) trivial
      unfold Registration.Initialized
      rw [before]
      cases ok <;> exact Iff.rfl
    · cases step
  | start i =>
    obtain ⟨registration, there, step⟩ := Option.bind_eq_some_iff.1 step
    split at step
    · rename_i before
      cases step
      exact kept (h.retask (run_iff before.2.2).symm) trivial
    · cases step
  | initialized i ok =>
    obtain ⟨registration, there, step⟩ := Option.bind_eq_some_iff.1 step
    split at step
    · rename_i before
      cases ok with
      | true =>
        cases step
        exact h.initialized there before.1
      | false =>
        cases step
        refine kept (h.rephase there ?_) trivial
        unfold Registration.Initialized
        rw [before.1]
    · cases step
  | attached i ok =>
    obtain ⟨registration, there, step⟩ := Option.bind_eq_some_iff.1 step
    split at step
    · rename_i before
      cases step
      refine kept (h.rephase there ?_) trivial
      unfold Registration.Initialized
      rw [before]
      cases ok <;> exact Iff.rfl
    · cases step
  | shutdown =>
    cases step
    exact kept ⟨⟨h.tracked, h.known, h.fresh, h.untouched⟩, Iff.rfl⟩ trivial
  | refreshReturns =>
    simp only [ServiceContext.step] at step
    split at step
    · rename_i before
      cases step
      exact kept (h.runDetach (fun run => (run_iff before.1).1 run) trivial) trivial
    · cases step
  | refreshRaises =>
    simp only [ServiceContext.step] at step
    split at step
    · rename_i before
      cases step
      exact kept (h.retask (run_iff before).symm) trivial
    · cases step
  | taskFails =>
    simp only [ServiceContext.step] at step
    split at step
    · rename_i before
      cases step
      exact kept (h.retask (run_iff before).symm) trivial
    · cases step
  | detached =>
    simp only [ServiceContext.step] at step
    split at step
    · rename_i before
      cases step
      exact kept (h.retask (run_iff before).symm) trivial
    · rename_i before
      cases step
      exact kept (h.retask (run_iff before).symm) trivial
    · cases step
  | leftGroup =>
    simp only [ServiceContext.step] at step
    split at step
    · rename_i ranDetach before
      cases step
      refine kept (h.retask ((run_iff before).trans ?_).symm) trivial
      cases ranDetach <;> exact Iff.rfl
    · cases step
  | closedListeners =>
    simp only [ServiceContext.step] at step
    split at step
    · rename_i before
      cases step
      exact kept (h.retask (run_iff before).symm) trivial
    · rename_i before
      cases step
      exact kept (h.runDetach (fun run => (run_iff before).1 run) trivial) trivial
    · cases step

end

/-- **Each implementation is detached once**, and none is attached after the service task has ended, in just those runs in
which no initialization completes after the service task has taken its list, and no attach after the task has ended. -/
theorem detached_once_iff (run : exec step {} labels = some context) (ended : context.task = .ended) :
    ((∀ registration ∈ context.registrations, registration.Initialized → registration.detachCalls = 1) ∧
      ∀ pre i post before, labels = pre ++ .attached i true :: post → exec step {} pre = some before →
        before.task ≠ .ended) ↔
      okAlong step InTime {} labels := by
  have taken : context.DetachRun := by
    unfold DetachRun
    rw [ended]
    trivial
  have each : context.Accounted ↔ okAlong step InitializesInTime {} labels := by
    have start : Accounted {} := fun run => run.elim
    exact (iff_okAlong_of_step run sound_start fun s a t h step => h.step step).trans (and_iff_right start)
  have attaches : (∀ pre i post before, labels = pre ++ .attached i true :: post → exec step {} pre = some before →
      before.task ≠ .ended) ↔ okAlong step (fun s label => ∀ i, label = .attached i true → s.task ≠ .ended) {} labels := by
    rw [okAlong_iff]
    constructor
    · rintro law pre label post before split ran i rfl
      exact law pre i post before split ran
    · intro law pre i post before split ran
      exact law pre _ post before split ran i rfl
  have all : okAlong step InTime {} labels ↔ okAlong step InitializesInTime {} labels ∧
      okAlong step (fun s label => ∀ i, label = .attached i true → s.task ≠ .ended) {} labels := by
    constructor
    · intro along
      exact ⟨okAlong_mono (fun _ _ h => (inTime_iff.1 h).1) along, okAlong_mono (fun _ _ h => (inTime_iff.1 h).2) along⟩
    · intro both
      exact okAlong_mono (fun _ _ h => inTime_iff.2 h) (okAlong_and both.1 both.2)
  rw [all, ← each, attaches]
  refine and_congr_left fun _ => ⟨fun calls _ i registration there => calls registration (mem_of_found there), ?_⟩
  intro accounted registration mem
  obtain ⟨i, there⟩ := List.mem_iff_getElem?.1 mem
  exact accounted taken i registration there

theorem detached_once_iff_example : ∃ context, exec step {} [.register true true, .leased 0 true, .start 0, .initialized 0 true,
    .attached 0 true, .register false true, .leased 1 true, .initialized 1 true, .shutdown, .refreshReturns, .attached 1 false,
    .taskFails, .leftGroup, .closedListeners] = some context ∧
    ∀ registration ∈ context.registrations, registration.Initialized → registration.detachCalls = 1 := by
  have ends : (exec step {} [.register true true, .leased 0 true, .start 0, .initialized 0 true, .attached 0 true,
      .register false true, .leased 1 true, .initialized 1 true, .shutdown, .refreshReturns, .attached 1 false, .taskFails,
      .leftGroup, .closedListeners]).map (·.task) = some .ended := by decide +kernel
  obtain ⟨context, run, ended⟩ := Option.map_eq_some_iff.1 ends
  exact ⟨context, run, ((detached_once_iff run ended).2 (by decide +kernel)).1⟩

/-- Two registrations run concurrently; one fails, so the service is shut down, and the other one completes. -/
theorem implementation_left_attached : ¬ ∀ labels context, exec step {} labels = some context → context.task = .ended →
    ∀ registration ∈ context.registrations, registration.Initialized → registration.detachCalls = 1 := by
  intro law
  have ends : (exec step {} [.register true true, .leased 0 true, .start 0, .initialized 0 true, .attached 0 true,
      .register false true, .register false true, .leased 1 true, .leased 2 false, .shutdown, .refreshReturns, .detached,
      .leftGroup, .closedListeners, .initialized 1 true, .attached 1 true]).map (fun context =>
        (context.task, context.registrations[1]?)) = some (.ended, some ⟨false, .attached, 0⟩) := by decide +kernel
  obtain ⟨context, run, final⟩ := Option.map_eq_some_iff.1 ends
  obtain ⟨ended, there⟩ := Prod.mk.inj final
  have called := law _ _ run ended _ (mem_of_found there) trivial
  cases called

end ServiceContext

end SensorKit.Core
