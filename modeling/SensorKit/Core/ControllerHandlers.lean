import SensorKit.Core.ControllerRuns

/-!
# One handler at a time

A handler starts when the publication of its run's start is over. By then every earlier run has
ended, and no later one has been admitted.
-/

namespace SensorKit.Core

open Lib

variable {K : Type}

namespace Controller

/-- The handler of the run is running. -/
def Handles (s : Controller K) (n : ℕ) : Prop :=
  ∃ r, s.runs n = some r ∧ r.stage = .handling

instance (s : Controller K) (n : ℕ) : Decidable (s.Handles n) :=
  decidable_of_iff ((s.runs n).any fun r => r.stage = .handling) (by simp [Handles, Option.any_eq_true])

variable {s t : Controller K} {n m : ℕ}

theorem Ordered.handles_unique (h : s.Ordered) (hn : s.Handles n) (hm : s.Handles m) : n = m := by
  have le {n m : ℕ} (hn : s.Handles n) (hm : s.Handles m) : m ≤ n := by
    obtain ⟨r, run, stage⟩ := hn
    obtain ⟨r', run', stage'⟩ := hm
    by_contra lt
    have ended := h.joined m r' run' (by simp [stage']) (by simp [stage']) n (by omega) r run
    simp [TaskRun.done, stage] at ended
  exact Nat.le_antisymm (le hm hn) (le hn hm)

/-- A run whose start goes out with no cancellation pending is the newest one: a newer run would
have taken its first step by now, and cancelled it. -/
theorem Ordered.last_of_start {events : List (Event K)} {behind : List ℕ} {r : TaskRun K} (h : s.Ordered)
    (pub : s.publication = some ⟨events, .start n behind⟩) (ready : s.ready (.start n behind) = true)
    (run : s.runs n = some r) (deferred : r.deferred = false) : n + 1 = s.admitted := by
  obtain ⟨⟨r₀, run₀, stage⟩, waits⟩ := h.starting events n behind pub
  obtain rfl : r₀ = r := by simpa [run] using run₀.symm
  have lt := (h.admitted n).1 ⟨r₀, run⟩
  by_contra notLast
  obtain ⟨r', run'⟩ := (h.admitted (n + 1)).2 (by omega)
  have flagged : r₀.cancelRequested = false := by
    cases requested : r₀.cancelRequested with
    | false => rfl
    | true => simp [h.publishing n r₀ run stage requested] at deferred
  cases pred : r'.predecessor with
  | none =>
    have ended := h.alone (n + 1) r' run' pred n (Nat.lt_succ_self n) r₀ run
    simp [TaskRun.done, stage] at ended
  | some p =>
    obtain rfl : p = n := by have := h.replaces _ r' p run' pred; omega
    have received : r'.stage = .received := by
      by_contra begun
      simp [h.interrupted _ r' p r₀ run' pred run begun] at flagged
    have begun : r'.stage ≠ .received := by
      have := List.all_eq_true.1 ready (p + 1) (waits _ r' run' received)
      simpa [run'] using this
    exact begun received

/-! ## Where handlers start -/

theorem Handles.congr (h : t.Handles n) (runs : t.runs = s.runs) : s.Handles n :=
  h.imp fun _ ⟨run, stage⟩ => ⟨runs ▸ run, stage⟩

theorem Handles.of_setRun {r r' : TaskRun K} (hr : s.runs m = some r)
    (keeps : r'.stage = .handling → r.stage = .handling) (h : (s.setRun m r').Handles n) : s.Handles n := by
  obtain ⟨r₀, run, stage⟩ := h
  rcases runs_setRun run with ⟨rfl, rfl⟩ | ⟨-, run⟩
  · exact ⟨r, hr, keeps stage⟩
  · exact ⟨r₀, run, stage⟩

theorem Handles.of_attach {r : TaskRun K} (received : r.stage = .received) (h : (s.attach r).release.Handles n) :
    s.Handles n := by
  obtain ⟨r₀, run, stage⟩ := h
  rcases runs_setRun run with ⟨rfl, rfl⟩ | ⟨-, run⟩
  · simp [received] at stage
  · exact ⟨r₀, run, stage⟩

theorem Handles.of_finished {raised : Option String} (h : (s.finished m raised).release.Handles n) : s.Handles n := by
  simp only [finished] at h
  split at h
  · rename_i r run
    split at h
    · exact Handles.of_setRun run (by simp) (h.congr rfl)
    · exact h.congr rfl
  · exact h.congr rfl

theorem Handles.of_recover {next : Next K} {message : String} (h : (s.recover message next).Handles n) : s.Handles n := by
  cases next with
  | attach r prior => exact h.congr rfl
  | start m behind =>
    simp only [recover] at h
    split at h
    · rename_i r run
      exact Handles.of_setRun run (by simp [TaskRun.fail, TaskRun.endBody]) (h.congr rfl)
    · exact h
  | finish m mismatch => exact h.of_finished
  | abort m => exact h.congr rfl
  | release => exact h.congr rfl

variable [DecidableEq K]

theorem Handles.of_cancel (h : (s.cancel m).Handles n) : s.Handles n := by
  rcases s.cancel_cases m with ⟨same, -⟩ | ⟨r, r', lock, run, -, moves, -, eq⟩
  · rwa [same] at h
  · rw [eq] at h
    refine Handles.of_setRun run (fun stage => ?_) (h.congr rfl)
    cases moves with
    | flags => exact stage
    | ends => simp [TaskRun.endBody] at stage
    | defers => exact stage

theorem Handles.of_enter {job : Job K} (h : (s.enter job).Handles n) : s.Handles n := by
  cases job with
  | admission msg =>
    simp only [enter, admitRequest] at h
    split at h
    · exact h.congr rfl
    · split at h
      · split at h
        · exact h.of_attach rfl
        · exact h.congr rfl
      · exact h.of_attach rfl
  | start m =>
    simp only [enter] at h
    split at h
    · split at h
      · rename_i r run stage
        exact Handles.of_setRun run (by simp) (h.congr rfl)
      · exact h
    · exact h
  | finish m =>
    simp only [enter] at h
    split at h
    · split at h
      · rename_i r run finishing
        obtain ⟨info, eq⟩ := Ordered.settle_run s r
        have settled (h : ({ s with states := (s.settle r).2.1 }.setRun m { (s.settle r).1 with phase := .finished }).Handles n) :
            s.Handles n :=
          Handles.of_setRun run (by rw [eq]; exact id) (h.congr rfl)
        simp only [finish] at h
        split at h
        · exact settled h.of_finished
        · exact settled (h.congr rfl)
      · exact h
    · exact h
  | abort requested =>
    simp only [enter, abort] at h
    split at h
    · exact h.congr rfl
    · split at h
      · exact h.congr rfl
      · split at h
        · exact h.congr rfl
        · exact Handles.of_cancel (h.congr rfl)
  | report state context =>
    simp only [enter, report] at h
    split at h <;> exact h.congr rfl
  | enable enabled => exact h.congr rfl
  | updateContext =>
    simp only [enter, updateContext] at h
    split at h
    · split at h <;> exact h.congr rfl
    · exact h.congr rfl

/-- The handler that starts is the one whose start has gone out. -/
theorem Handles.of_proceed {events : List (Event K)} {next : Next K} (o : s.Ordered)
    (pub : s.publication = some ⟨events, next⟩) (h : (s.proceed next).Handles n) (before : ¬ s.Handles n) :
    ∃ behind r, next = .start n behind ∧ s.runs n = some r ∧ r.deferred = false ∧
      (s.proceed next).runs = Function.update s.runs n (some { r with stage := .handling }) := by
  cases next with
  | attach r prior => exact absurd (h.of_attach (o.attaching _ _ _ pub).1) before
  | start m behind =>
    simp only [proceed] at h ⊢
    split at h
    · rename_i r run
      cases deferred : r.deferred with
      | true =>
        rw [deferred] at h
        exact absurd (Handles.of_setRun run (by simp [TaskRun.endBody]) (h.congr rfl)) before
      | false =>
        simp only [deferred, Bool.false_eq_true, if_false] at h
        obtain rfl : n = m := by
          by_contra other
          obtain ⟨r₀, run₀, stage⟩ := h
          exact before ⟨r₀, by simpa [Function.update_of_ne other] using run₀, stage⟩
        exact ⟨behind, r, rfl, run, deferred, by simp [deferred]⟩
    · exact absurd h before
  | finish m mismatch => exact absurd h.of_finished before
  | abort m => exact absurd (Handles.of_cancel (h.congr rfl)) before
  | release => exact absurd (h.congr rfl) before

/-- The step after which the handler of `n` runs ends the publication of its start. -/
theorem start_of_handles {label : ControllerLabel K} (o : s.Ordered) (hs : s.step label = some t)
    (before : ¬ s.Handles n) (after : t.Handles n) :
    ∃ events behind r, s.publication = some ⟨events, .start n behind⟩ ∧ s.ready (.start n behind) = true ∧
      s.runs n = some r ∧ r.deferred = false ∧
      t.runs = Function.update s.runs n (some { r with stage := .handling }) := by
  cases moves_of_step hs with
  | @runner _ m r r' lock run _ moves =>
    refine absurd (Handles.of_setRun run (fun stage => ?_) (after.congr rfl)) before
    cases moves <;> simp [TaskRun.endBody, TaskRun.fail, TaskRun.succeed] at stage
  | @interrupts m p r run stage pred =>
    exact absurd (Handles.of_setRun run (by simp) (Handles.of_cancel after)) before
  | enters => exact absurd after.of_enter before
  | @publishes events next outcome pub ready =>
    have same {events : List (Event K)} (h : (s.emitAll events).Handles n) : s.Handles n := h.congr (by simp)
    cases outcome with
    | succeeded =>
      obtain ⟨behind, r, rfl, run, deferred, runs⟩ :=
        Handles.of_proceed (o.emitAll events) (by simpa using pub) after fun h => before (same h)
      exact ⟨events, behind, r, pub, ready, by simpa using run, deferred,
        by simpa [Controller.published] using runs⟩
    | interrupted => exact absurd (same after.of_recover) before
    | failed applied message => exact absurd (same after.of_recover) before
  | queues => exact absurd (after.congr rfl) before
  | wakes => exact absurd (after.congr rfl) before
  | succeeds => exact absurd (after.congr rfl) before
  | closes => exact absurd (after.congr rfl) before
  | @abandons m r run call =>
    cases done : r.done with
    | true =>
      rw [done] at after
      exact absurd (after.congr rfl) before
    | false =>
      rw [done] at after
      exact absurd (Handles.of_cancel (after.congr rfl)) before

/-- **One handler at a time.** In every run of the controller at most one handler is running;
one starts only when the runner of the run it replaces has ended, settled and without failing;
and by then every other run has ended, so no lifecycle run is pending, executing or unsettled. -/
theorem oneHandler {taskHandlers : List String} {recovered : ControllerState K} {legacy : Bool}
    (run : Reaches step always (started taskHandlers recovered legacy) s) :
    (∀ n m, s.Handles n → s.Handles m → n = m) ∧
    ∀ label t n, s.step label = some t → ¬ s.Handles n → t.Handles n →
      (∀ r p, t.runs n = some r → r.predecessor = some p →
        ∃ rp, t.runs p = some rp ∧ rp.phase = .finished ∧ EndedWell rp) ∧
      ∀ m r, t.runs m = some r → m ≠ n → r.done = true ∧ r.transition = false := by
  have o := ordered_of_run run
  have c := consistent_of_run run
  refine ⟨fun n m hn hm => o.handles_unique hn hm, fun label t n hs before after => ?_⟩
  obtain ⟨events, behind, r, pub, ready, hr, deferred, runs⟩ := start_of_handles o hs before after
  obtain ⟨⟨r₀, hr₀, stage⟩, -⟩ := o.starting events n behind pub
  obtain rfl : r₀ = r := by simpa [hr] using hr₀.symm
  have last := o.last_of_start pub ready hr deferred
  have earlier := o.joined n r₀ hr (by simp [stage]) (by simp [stage])
  refine ⟨fun r' p hr' pred => ?_, fun m rm hm other => ?_⟩
  · obtain rfl : r' = { r₀ with stage := .handling } := by simpa [runs] using hr'.symm
    have next := o.replaces n r₀ p hr pred
    obtain ⟨rp, hp⟩ := (o.admitted p).2 (by omega)
    exact ⟨rp, by simpa [runs, Function.update_of_ne (show p ≠ n by omega)] using hp,
      c.finished_of_done hp (earlier p (by omega) rp hp), o.unfailed n r₀ p rp hr pred hp (.inr (.inl stage))⟩
  · have hm' : s.runs m = some rm := by simpa [runs, Function.update_of_ne other] using hm
    have lt := (o.admitted m).1 ⟨rm, hm'⟩
    have done := earlier m (by omega) rm hm'
    exact ⟨done, by simp [TaskRun.transition, c.finished_of_done hm' done]⟩

/-- A controller that has started for the first time, with no lifecycle input to tell apart. -/
def exampleController (taskTypes : List String) : Controller Unit :=
  started taskTypes { operatingState := { current := .unknown, context := () }, executionState := { execution := none } }
    false

/-- A collect is interrupted by another, which joins it and is about to have published its start. -/
def interruptingCollect : List (ControllerLabel Unit) :=
  [.arrive (.admission ⟨{ taskType := "collect" }, (), false⟩), .enter, .begin 0, .enter, .published .succeeded,
    .arrive (.admission ⟨{ taskType := "collect" }, (), true⟩), .enter, .begin 1, .handled 0 .cancelled, .finish 0,
    .enter, .published .succeeded, .ends 0, .joined 1, .enter]

theorem oneHandler_example :
    ∃ s t : Controller Unit, s.step (.published .succeeded) = some t ∧ t.Handles 1 ∧
      ∃ r, t.runs 0 = some r ∧ r.phase = .finished ∧ EndedWell r := by
  have run : Reaches step always (exampleController ["collect"])
      ((exec step (exampleController ["collect"]) interruptingCollect).get (by decide +kernel)) :=
    reaches_of_exec (Option.some_get _).symm okAlong_always
  have starts := (oneHandler run).2 (.published .succeeded) ((step _ (.published .succeeded)).get (by decide +kernel)) 1
    (Option.some_get _).symm (by decide +kernel) (by decide +kernel)
  exact ⟨_, _, (Option.some_get _).symm, by decide +kernel,
    starts.1 (Option.get _ (by decide +kernel)) 0 (Option.some_get _).symm (by decide +kernel)⟩

end Controller

end SensorKit.Core
