import SensorKit.Core.ControllerOrder

/-!
# What a run has recorded

At each stage of its runner the record of a run says how far it is: its phase, whether it has
begun, and the finish it will publish. `Consistent` holds in every reachable state, with any
outcome of the handlers and of the publications.
-/

namespace SensorKit.Core

open Lib

variable {K : Type} {events : List (Event K)} {next : Next K}

/-- The finish is the end of the body. -/
def TaskFinishInfo.Records (info : TaskFinishInfo) : Outcome → Prop
  | .succeeded => info = {}
  | .failed message => info = { error := some message }
  | .cancelled => info = { aborted := true }

/-- The body succeeded, and settling turned the finish into an error. -/
def TaskFinishInfo.Mismatched (info : TaskFinishInfo) (body : Outcome) (message : String) : Prop :=
  body = .succeeded ∧ info = { error := some message }

/-- The record of the run fits the stage of its runner. -/
def TaskRun.Consistent (r : TaskRun K) : Prop :=
  match r.stage with
  | .received => r.phase = .received ∧ r.started = false ∧ r.deferred = false ∧ r.finishInfo = { aborted := true }
  | .joining => r.phase = .interrupting ∧ r.started = false ∧ r.finishInfo = { aborted := true }
  | .startWaiting | .startPublishing =>
    r.phase = .executing ∧ r.started = true ∧ r.finishInfo = { aborted := true }
  | .handling | .confirming =>
    r.phase = .executing ∧ r.started = true ∧ r.deferred = false ∧ r.finishInfo = { aborted := true }
  | .ending body => r.phase ≠ .finished ∧ r.finishInfo.Records body ∧ (body = .succeeded → r.started = true)
  | .finishing body =>
    (r.finishInfo.Records body ∨ r.phase = .finished ∧ ∃ message, r.finishInfo.Mismatched body message) ∧
      (body = .succeeded → r.started = true)
  | .settled body raised =>
    r.phase = .finished ∧
      (r.finishInfo.Records body ∨ ∃ message, r.finishInfo.Mismatched body message ∧ raised ≠ none) ∧
      (body = .succeeded → r.started = true)
  | .done outcome =>
    r.phase = .finished ∧ (outcome = .succeeded → r.finishInfo = {} ∧ r.started = true)

namespace Controller

/-- The records of the runs are consistent, and a finish is published for a run that is settled
and still finishing. -/
structure Consistent (s : Controller K) : Prop where
  runs : ∀ n r, s.runs n = some r → r.Consistent
  /-- A run that is settled and not over is the one whose finish is being published. -/
  publishes : ∀ n r body, s.runs n = some r → r.stage = .finishing body → r.phase = .finished →
    ∃ events mismatch, s.publication = some ⟨events, .finish n mismatch⟩
  finishes : ∀ events n mismatch, s.publication = some ⟨events, .finish n mismatch⟩ →
    ∃ r body, s.runs n = some r ∧ r.stage = .finishing body ∧ r.phase = .finished ∧
      (mismatch = none → r.finishInfo.Records body) ∧
        ∀ message, mismatch = some message → r.finishInfo.Mismatched body message
  attaching : ∀ events r prior, s.publication = some ⟨events, .attach r prior⟩ → r.Consistent

/-- What a change of the run `n` from `r` to `r'` must keep. -/
structure KeepsRecord (s : Controller K) (n : ℕ) (r r' : TaskRun K) : Prop where
  consistent : r'.Consistent
  publishes : ∀ body, r'.stage = .finishing body → r'.phase = .finished → r.stage = .finishing body ∧ r.phase = .finished
  finishes : ∀ events mismatch, s.publication = some ⟨events, .finish n mismatch⟩ →
    r'.stage = r.stage ∧ r'.phase = r.phase ∧ r'.finishInfo = r.finishInfo

namespace Consistent

variable {s t : Controller K} {n : ℕ} {r r' : TaskRun K}

theorem setRun (h : s.Consistent) (hr : s.runs n = some r) (k : s.KeepsRecord n r r') :
    (s.setRun n r').Consistent where
  runs m rm run := by
    rcases runs_setRun run with ⟨rfl, rfl⟩ | ⟨-, run⟩
    · exact k.consistent
    · exact h.runs m rm run
  publishes m rm body run stage phase := by
    rcases runs_setRun run with ⟨rfl, rfl⟩ | ⟨-, run⟩
    · obtain ⟨stage', phase'⟩ := k.publishes body stage phase
      exact h.publishes m r body hr stage' phase'
    · exact h.publishes m rm body run stage phase
  finishes events m mismatch pub := by
    obtain ⟨rm, body, run, stage, phase, recorded, mismatched⟩ := h.finishes events m mismatch pub
    by_cases same : m = n
    · subst same
      obtain rfl : rm = r := by simpa [hr] using run.symm
      obtain ⟨stage', phase', info⟩ := k.finishes events mismatch pub
      rw [← info] at recorded mismatched
      exact ⟨r', body, by simp, stage'.trans stage, phase'.trans phase, recorded, mismatched⟩
    · exact ⟨rm, body, by simpa [Function.update_of_ne same] using run, stage, phase, recorded, mismatched⟩
  attaching := h.attaching

theorem congr (h : s.Consistent) (runs : t.runs = s.runs) (publication : t.publication = s.publication) :
    t.Consistent where
  runs := by simpa [runs] using h.runs
  publishes := by simpa [runs, publication] using h.publishes
  finishes := by simpa [runs, publication] using h.finishes
  attaching := by simpa [publication] using h.attaching

/-- An ended run is finished. -/
theorem finished_of_done (h : s.Consistent) (hr : s.runs n = some r) (done : r.done = true) : r.phase = .finished := by
  obtain ⟨outcome, stage⟩ := TaskRun.done_iff.1 done
  have record := h.runs n r hr
  simp only [TaskRun.Consistent, stage] at record
  exact record.1

section

variable (h : s.Consistent) (free : ∀ events n mismatch, s.publication ≠ some ⟨events, .finish n mismatch⟩)
include h free

/-- Where no finish is being published, the lock may be given up. -/
theorem release : s.release.Consistent where
  runs := h.runs
  publishes n r body run stage phase := by
    obtain ⟨events, mismatch, pub⟩ := h.publishes n r body run stage phase
    exact absurd pub (free events n mismatch)
  finishes := by simp
  attaching := by simp

theorem publish (events : List (Event K)) (finish : ∀ n mismatch, next ≠ .finish n mismatch)
    (attach : ∀ r prior, next = .attach r prior → r.Consistent) : (s.publish events next).Consistent where
  runs := h.runs
  publishes n r body run stage phase := by
    obtain ⟨events, mismatch, pub⟩ := h.publishes n r body run stage phase
    exact absurd pub (free events n mismatch)
  finishes := by
    rintro _ n mismatch ⟨⟩
    exact absurd rfl (finish n mismatch)
  attaching := by
    rintro _ r prior ⟨⟩
    exact attach r prior rfl

end

section

variable (h : s.Consistent) (hr : s.runs n = some r)
include h hr

/-- A run that is not finishing is not the one whose finish is published. -/
theorem publication_ne_finish (stage : ∀ body, r.stage ≠ .finishing body) (events : List (Event K))
    (mismatch : Option String) : s.publication ≠ some ⟨events, .finish n mismatch⟩ := by
  intro pub
  obtain ⟨r₀, body, run, finishing, -⟩ := h.finishes events n mismatch pub
  obtain rfl : r₀ = r := by simpa [hr] using run.symm
  exact stage body finishing

/-- A change of a run that is not finishing before, nor settled after. -/
theorem keepsRecord (consistent : r'.Consistent) (stage : ∀ body, r.stage ≠ .finishing body)
    (after : ∀ body, r'.stage = .finishing body → r'.phase ≠ .finished) : s.KeepsRecord n r r' where
  consistent := consistent
  publishes body stage phase := absurd phase (after body stage)
  finishes events mismatch pub := absurd pub (h.publication_ne_finish hr stage events mismatch)

theorem keepsRecord_of_cancel (moves : CancelMoves r r') : s.KeepsRecord n r r' := by
  have consistent := h.runs n r hr
  cases moves with
  | flags stage => exact ⟨consistent, fun _ stage phase => ⟨stage, phase⟩, fun _ _ _ => ⟨rfl, rfl, rfl⟩⟩
  | ends stage =>
    refine h.keepsRecord hr ?_ ?_ (by simp [TaskRun.endBody])
    · rcases stage with stage | stage <;>
        simp only [TaskRun.Consistent, stage] at consistent <;>
        simp [TaskRun.Consistent, TaskRun.endBody, TaskFinishInfo.Records, consistent]
    · rcases stage with stage | stage <;> simp [stage]
  | defers received waiting handling confirming done =>
    refine ⟨?_, fun _ stage phase => ⟨stage, phase⟩, fun _ _ _ => ⟨rfl, rfl, rfl⟩⟩
    cases stage : r.stage with
    | received => exact absurd stage received
    | handling => exact absurd stage handling
    | confirming => exact absurd stage confirming
    | joining | startWaiting | startPublishing | ending | finishing | settled | done =>
      simpa only [TaskRun.Consistent, stage] using consistent

/-- What a runner does to its own run. -/
theorem keepsRecord_of_moves (moves : s.RunnerMoves r r') : s.KeepsRecord n r r' := by
  have consistent := h.runs n r hr
  cases moves with
  | cancelledBefore ready =>
    rcases (Ordered.ready_stage ready).1 with stage | stage <;>
      simp only [TaskRun.Consistent, stage] at consistent <;>
      refine h.keepsRecord hr ?_ (by simp [stage]) (by simp [TaskRun.endBody]) <;>
      simp [TaskRun.Consistent, TaskRun.endBody, TaskFinishInfo.Records, consistent]
  | executes ready =>
    rcases (Ordered.ready_stage ready).1 with stage | stage <;>
      simp only [TaskRun.Consistent, stage] at consistent <;>
      refine h.keepsRecord hr ?_ (by simp [stage]) (by simp) <;>
      simp [TaskRun.Consistent, consistent]
  | joinFails stage =>
    simp only [TaskRun.Consistent, stage] at consistent
    refine h.keepsRecord hr ?_ (by simp [stage]) (by simp [TaskRun.fail, TaskRun.endBody])
    simp [TaskRun.Consistent, TaskRun.fail, TaskRun.endBody, TaskFinishInfo.Records, consistent]
  | joinCancelled stage =>
    simp only [TaskRun.Consistent, stage] at consistent
    refine h.keepsRecord hr ?_ (by simp [stage]) (by simp [TaskRun.endBody])
    simp [TaskRun.Consistent, TaskRun.endBody, TaskFinishInfo.Records, consistent]
  | handlerCancelled stage =>
    simp only [TaskRun.Consistent, stage] at consistent
    refine h.keepsRecord hr ?_ (by simp [stage]) (by simp [TaskRun.endBody])
    simp [TaskRun.Consistent, TaskRun.endBody, TaskFinishInfo.Records, consistent]
  | fails stage message =>
    rcases stage with stage | stage <;>
      simp only [TaskRun.Consistent, stage] at consistent <;>
      refine h.keepsRecord hr ?_ (by simp [stage]) (by simp [TaskRun.fail, TaskRun.endBody]) <;>
      simp [TaskRun.Consistent, TaskRun.fail, TaskRun.endBody, TaskFinishInfo.Records, consistent]
  | succeeds stage latched =>
    rcases stage with stage | stage <;>
      simp only [TaskRun.Consistent, stage] at consistent <;>
      refine h.keepsRecord hr ?_ (by simp [stage]) (by simp [TaskRun.succeed, TaskRun.endBody]) <;>
      simp [TaskRun.Consistent, TaskRun.succeed, TaskRun.endBody, TaskFinishInfo.Records, consistent]
  | confirms stage latched =>
    simp only [TaskRun.Consistent, stage] at consistent
    exact h.keepsRecord hr (by simp [TaskRun.Consistent, consistent]) (by simp [stage]) (by simp)
  | @finishes body stage =>
    simp only [TaskRun.Consistent, stage] at consistent
    refine h.keepsRecord hr ?_ (by simp [stage]) (fun _ _ => consistent.1)
    simp only [TaskRun.Consistent]
    exact ⟨.inl consistent.2.1, consistent.2.2⟩
  | @ends body raised stage =>
    simp only [TaskRun.Consistent, stage] at consistent
    refine h.keepsRecord hr ?_ (by simp [stage]) (by simp)
    obtain ⟨phase, recorded, started⟩ := consistent
    refine ⟨phase, fun succeeded => ?_⟩
    -- The runner returns only with nothing raised, nothing deferred and a body that returned.
    cases raised with
    | some message => simp [TaskRun.result] at succeeded
    | none =>
      cases deferred : r.deferred <;> simp [TaskRun.result, deferred] at succeeded
      subst succeeded
      exact ⟨by simpa [TaskFinishInfo.Records] using recorded, started rfl⟩

end

/-! ### Under the lock -/

/-- Every run but `n` is consistent, and none of them is settled and still finishing. -/
def Others (s : Controller K) (n : ℕ) : Prop :=
  ∀ m r, s.runs m = some r → m ≠ n → r.Consistent ∧ ∀ body, r.stage = .finishing body → r.phase ≠ .finished

theorem others (h : s.Consistent) (pub : ∀ events m mismatch, s.publication = some ⟨events, .finish m mismatch⟩ → m = n) :
    Others s n := by
  refine fun m rm run other => ⟨h.runs m rm run, fun body stage phase => ?_⟩
  obtain ⟨events, mismatch, pub'⟩ := h.publishes m rm body run stage phase
  exact other (pub events m mismatch pub')

/-- The finish of a run is over. -/
theorem finished {body : Outcome} {raised : Option String} (others : Others s n) (hr : s.runs n = some r)
    (stage : r.stage = .finishing body) (phase : r.phase = .finished) (started : body = .succeeded → r.started = true)
    (ends : r.finishInfo.Records body ∨ ∃ message, r.finishInfo.Mismatched body message ∧ raised ≠ none) :
    (s.finished n raised).release.Consistent := by
  simp only [Controller.finished, hr, stage]
  refine ⟨fun m rm run => ?_, fun m rm body run stage' phase' => ?_, by simp, by simp⟩
  · rcases runs_setRun run with ⟨rfl, rfl⟩ | ⟨other, run⟩
    · exact ⟨phase, ends, started⟩
    · exact (others m rm run other).1
  · rcases runs_setRun run with ⟨rfl, rfl⟩ | ⟨other, run⟩
    · cases stage'
    · exact absurd phase' ((others m rm run other).2 body stage')

theorem fresh_consistent (task : Task) (context : K) (predecessor : Option ℕ) :
    ({ task, submittedContext := context, predecessor } : TaskRun K).Consistent :=
  ⟨rfl, rfl, rfl, rfl⟩

section

variable (h : s.Consistent)
include h

theorem attach (consistent : r.Consistent) (stage : r.stage = .received)
    (free : ∀ events n mismatch, s.publication ≠ some ⟨events, .finish n mismatch⟩) :
    (s.attach r).release.Consistent := by
  refine ⟨fun m rm run => ?_, fun m rm body run stage' phase' => ?_, by simp, by simp⟩
  · rcases runs_setRun run with ⟨rfl, rfl⟩ | ⟨-, run⟩
    · exact consistent
    · exact h.runs m rm run
  · rcases runs_setRun run with ⟨rfl, rfl⟩ | ⟨-, run⟩
    · simp [stage] at stage'
    · obtain ⟨events, mismatch, pub⟩ := h.publishes m rm body run stage' phase'
      exact absurd pub (free events m mismatch)

/-- The run leaves the publication of its start. -/
theorem leave_start {behind : List ℕ} (o : s.Ordered) (pub : s.publication = some ⟨events, .start n behind⟩)
    (hr : s.runs n = some r)
    (consistent : r.phase = .executing → r.started = true → r.finishInfo = { aborted := true } → r'.Consistent)
    (after : ∀ body, r'.stage ≠ .finishing body) : (s.setRun n r').release.Consistent := by
  obtain ⟨⟨r₀, run, stage⟩, -⟩ := o.starting events n behind pub
  obtain rfl : r₀ = r := by simpa [hr] using run.symm
  have record := h.runs n r₀ hr
  simp only [TaskRun.Consistent, stage] at record
  have h' := h.release (by simp [pub])
  rw [setRun_release]
  exact h'.setRun hr (h'.keepsRecord hr (consistent record.1 record.2.1 record.2.2) (by simp [stage])
    fun body stage => absurd stage (after body))

/-- The publication of a finish ends. -/
theorem leave_finish {mismatch raised : Option String} (pub : s.publication = some ⟨events, .finish n mismatch⟩)
    (raises : mismatch ≠ none → raised ≠ none) : (s.finished n raised).release.Consistent := by
  obtain ⟨r, body, run, stage, phase, recorded, mismatched⟩ := h.finishes events n mismatch pub
  have consistent := h.runs n r run
  simp only [TaskRun.Consistent, stage] at consistent
  refine finished (h.others fun _ m _ pub' => ?_) run stage phase consistent.2 ?_
  · simp only [pub, Option.some.injEq, Publication.mk.injEq, Next.finish.injEq] at pub'
    exact pub'.2.1.symm
  · cases mismatch with
    | none => exact .inl (recorded rfl)
    | some message => exact .inr ⟨message, mismatched message rfl, raises (by simp)⟩

theorem emitAll (events : List (Event K)) : (s.emitAll events).Consistent :=
  h.congr (by simp) (by simp)

theorem recover (o : s.Ordered) (pub : s.publication = some ⟨events, next⟩) (message : String) :
    (s.recover message next).Consistent := by
  cases next with
  | attach r prior => exact h.publish (by simp [pub]) _ (by simp) (by simp)
  | start n behind =>
    simp only [Controller.recover]
    split
    · rename_i r run
      refine h.leave_start o pub run (fun phase started info => ?_) ?_ <;>
        simp [TaskRun.Consistent, TaskRun.fail, TaskRun.endBody, TaskFinishInfo.Records, *]
    · exact h
  | finish n mismatch => exact h.leave_finish pub (by simp)
  | abort n => exact h.release (by simp [pub])
  | release => exact h.release (by simp [pub])

/-- A run takes its first step and joins the one it replaces. -/
theorem joining (hr : s.runs n = some r) (stage : r.stage = .received) :
    (s.setRun n { r with phase := .interrupting, stage := .joining }).Consistent := by
  have consistent := h.runs n r hr
  simp only [TaskRun.Consistent, stage] at consistent
  exact h.setRun hr (h.keepsRecord hr (by simp [TaskRun.Consistent, consistent]) (by simp [stage]) (by simp))

/-- While nothing is published a finishing run is not settled, and has recorded the end of its body. -/
theorem records_of_free {body : Outcome} (free : s.publication = none) (hr : s.runs n = some r)
    (stage : r.stage = .finishing body) : r.finishInfo.Records body := by
  have consistent := h.runs n r hr
  simp only [TaskRun.Consistent, stage] at consistent
  have unsettled : r.phase ≠ .finished := fun phase => by
    obtain ⟨events, mismatch, pub⟩ := h.publishes n r body hr stage phase
    simp [free] at pub
  exact consistent.1.resolve_right fun finished => unsettled finished.1

end

section Locked

variable [DecidableEq K]

/-- Settling keeps the recorded finish, or turns a success into an error. -/
theorem settle_cases (s : Controller K) (r : TaskRun K) :
    ∃ info, (s.settle r).1 = { r with finishInfo := info } ∧
      ((s.settle r).2.2 = none ∧ info = r.finishInfo ∨
        ∃ message, (s.settle r).2.2 = some message ∧ r.finishInfo = {} ∧ info = { error := some message }) := by
  cases lifecycle : r.lifecycle with
  | false => exact ⟨r.finishInfo, by simp [settle, lifecycle], .inl (by simp [settle, lifecycle])⟩
  | true =>
    simp only [settle, lifecycle, if_true]
    refine ⟨_, rfl, ?_⟩
    cases mismatch : s.mismatch r with
    | none => exact .inl ⟨rfl, rfl⟩
    | some message =>
      refine .inr ⟨message, rfl, ?_, rfl⟩
      by_contra recorded
      simp [Controller.mismatch, recorded] at mismatch

theorem succeeded_of_records {info : TaskFinishInfo} {body : Outcome} (recorded : info.Records body) (success : info = {}) :
    body = .succeeded := by
  cases body <;> simp [TaskFinishInfo.Records, success] at recorded ⊢

/-- The critical section of a finish settles the run, once. -/
theorem finish (h : s.Consistent) (hr : s.runs n = some r) (finishing : r.isFinishing = true)
    (free : s.publication = none) : (s.finish n r).Consistent := by
  obtain ⟨body, stage⟩ : ∃ body, r.stage = .finishing body := by
    cases stage : r.stage <;> simp [TaskRun.isFinishing, stage] at finishing ⊢
  have consistent := h.runs n r hr
  simp only [TaskRun.Consistent, stage] at consistent
  have recorded := h.records_of_free free hr stage
  obtain ⟨info, eq, settled⟩ := settle_cases s r
  have others : Others ({ s with states := (s.settle r).2.1 }.setRun n { (s.settle r).1 with phase := .finished }) n := by
    intro m rm run other
    rcases runs_setRun run with ⟨rfl, -⟩ | ⟨-, run⟩
    · exact absurd rfl other
    · exact h.others (by simp [free]) m rm run other
  have hr' : ({ s with states := (s.settle r).2.1 }.setRun n { (s.settle r).1 with phase := .finished }).runs n =
      some { r with finishInfo := info, phase := .finished } := by
    rw [eq]
    simp
  have kept : ((s.settle r).2.2 = none → info.Records body) ∧
      ∀ message, (s.settle r).2.2 = some message → info.Mismatched body message := by
    rcases settled with ⟨none, rfl⟩ | ⟨message, some, success, rfl⟩
    · exact ⟨fun _ => recorded, by simp [none]⟩
    · refine ⟨by simp [some], fun message' some' => ?_⟩
      obtain rfl : message = message' := by simpa [some] using some'
      exact ⟨succeeded_of_records recorded success, rfl⟩
  simp only [Controller.finish]
  split
  · refine finished others hr' stage rfl consistent.2 ?_
    cases mismatch : (s.settle r).2.2 with
    | none => exact .inl (kept.1 mismatch)
    | some message => exact .inr ⟨message, kept.2 message mismatch, by simp⟩
  · refine ⟨fun m rm run => ?_, fun m rm body' run stage' phase' => ?_, ?_, ?_⟩
    · rcases Decidable.em (m = n) with rfl | other
      · obtain rfl : rm = { r with finishInfo := info, phase := .finished } := by
          simpa [Controller.publish, eq] using run.symm
        simp only [TaskRun.Consistent, stage]
        refine ⟨?_, consistent.2⟩
        cases mismatch : (s.settle r).2.2 with
        | none => exact .inl (kept.1 mismatch)
        | some message => exact .inr ⟨trivial, message, kept.2 message mismatch⟩
      · exact (others m rm run other).1
    · rcases Decidable.em (m = n) with rfl | other
      · exact ⟨_, _, rfl⟩
      · exact absurd phase' ((others m rm run other).2 body' stage')
    · rintro _ m mismatch ⟨⟩
      exact ⟨_, body, hr', stage, rfl, kept.1, kept.2⟩
    · rintro _ r prior ⟨⟩

theorem cancel (h : s.Consistent) (n : ℕ) : (s.cancel n).Consistent := by
  rcases s.cancel_cases n with ⟨same, -⟩ | ⟨r, r', lock, hr, -, moves, -, eq⟩
  · rwa [same]
  · rw [eq]
    have h : Consistent { s with lock } := h.congr rfl rfl
    exact h.setRun hr (h.keepsRecord_of_cancel hr moves)

theorem cancel_publication (s : Controller K) (n : ℕ) : (s.cancel n).publication = s.publication := by
  rcases s.cancel_cases n with ⟨same, -⟩ | ⟨r, r', lock, -, -, -, -, eq⟩
  · rw [same]
  · rw [eq]
    rfl

theorem enter (h : s.Consistent) (free : s.publication = none) (job : Job K) : (s.enter job).Consistent := by
  have open_ : ∀ events n mismatch, s.publication ≠ some ⟨events, .finish n mismatch⟩ := by simp [free]
  cases job with
  | admission msg =>
    simp only [Controller.enter, Controller.admitRequest]
    split
    · exact h.release open_
    · split
      · split
        · exact h.attach (fresh_consistent _ _ _) rfl open_
        · refine h.publish open_ _ (by simp) ?_
          rintro _ _ ⟨⟩
          exact fresh_consistent _ _ _
      · exact h.attach (fresh_consistent _ _ _) rfl open_
  | start n =>
    simp only [Controller.enter]
    split
    · split
      · rename_i r run stage
        have consistent := h.runs n r run
        simp only [TaskRun.Consistent, stage] at consistent
        have keeps : s.KeepsRecord n r { r with stage := .startPublishing } :=
          h.keepsRecord run (by simpa [TaskRun.Consistent] using consistent) (by simp [stage]) (by simp)
        exact (h.setRun run keeps).publish (by simp [free]) _ (by simp) (by simp)
      · exact h
    · exact h
  | finish n =>
    simp only [Controller.enter]
    split
    · split
      · rename_i r run finishing
        exact h.finish run finishing free
      · exact h
    · exact h
  | abort requested =>
    simp only [Controller.enter, Controller.abort]
    split
    · exact h.release open_
    · split
      · exact h.release open_
      · split
        · exact h.publish open_ _ (by simp) (by simp)
        · exact (h.cancel _).release (by simp [cancel_publication, free])
  | report state context =>
    have h' : Consistent { s with states := s.states.recordObserved state context } := h.congr rfl rfl
    simp only [Controller.enter, Controller.report]
    split
    · exact h'.release open_
    · exact h'.publish open_ _ (by simp) (by simp)
  | enable enabled => exact h.publish open_ _ (by simp) (by simp)
  | updateContext =>
    simp only [Controller.enter, Controller.updateContext]
    split
    · split
      · exact h.publish open_ _ (by simp) (by simp)
      · exact h.release open_
    · exact h.release open_

theorem proceed (h : s.Consistent) (o : s.Ordered)
    (pub : s.publication = some ⟨events, next⟩) : (s.proceed next).Consistent := by
  cases next with
  | attach r prior => exact h.attach (h.attaching _ _ _ pub) (o.attaching _ _ _ pub).1 (by simp [pub])
  | start n behind =>
    simp only [Controller.proceed]
    split
    · rename_i r run
      refine h.leave_start o pub run (fun phase started info => ?_) ?_ <;> cases deferred : r.deferred <;>
        simp [TaskRun.Consistent, TaskRun.endBody, TaskFinishInfo.Records, *]
    · exact h
  | finish n mismatch => exact h.leave_finish pub id
  | abort n => exact (h.cancel n).release (by simp [cancel_publication, pub])
  | release => exact h.release (by simp [pub])

theorem published (h : s.Consistent) (o : s.Ordered)
    (pub : s.publication = some ⟨events, next⟩) (outcome : PublishOutcome) :
    (s.published events next outcome).Consistent := by
  cases outcome with
  | succeeded => exact (h.emitAll events).proceed (o.emitAll events) (by simpa using pub)
  | interrupted => exact (h.emitAll events).recover (o.emitAll events) (by simpa using pub) _
  | failed applied message => exact (h.emitAll _).recover (o.emitAll _) (by simpa using pub) _

/-- **Every step keeps the records consistent.** -/
theorem step {label : ControllerLabel K} (o : s.Ordered) (h : s.Consistent) (hs : s.step label = some t) :
    t.Consistent := by
  cases moves_of_step hs with
  | @runner _ n r r' lock run _ moves =>
    have h' : Consistent { s with lock } := h.congr rfl rfl
    exact h'.setRun run { h.keepsRecord_of_moves run moves with }
  | interrupts run stage pred => exact (h.joining run stage).cancel _
  | enters holder free => exact h.enter free _
  | publishes outcome pub => exact h.published o pub outcome
  | queues => exact h.congr rfl rfl
  | wakes => exact h.congr rfl rfl
  | succeeds => exact h.congr rfl rfl
  | closes => exact h.congr rfl rfl
  | @abandons n r run call =>
    cases done : r.done with
    | true => exact h.congr rfl rfl
    | false => exact (h.cancel n).congr rfl rfl

end Locked

end Consistent

/-! ## Runs of the controller -/

variable [DecidableEq K] {taskHandlers : List String} {recovered : ControllerState K} {legacy : Bool}
  {ok : Controller K → ControllerLabel K → Prop} {s : Controller K}

theorem ordered_of_run (run : Reaches step ok (started taskHandlers recovered legacy) s) : s.Ordered :=
  run.invariant (Ordered.started ..) fun _ _ _ h _ hs => h.step hs

theorem consistent_of_run (run : Reaches step ok (started taskHandlers recovered legacy) s) : s.Consistent := by
  refine run.invariant₂ (fun _ => ordered_of_run) ?_ fun _ _ _ o h _ hs => h.step o hs
  constructor <;> simp [started]

end Controller

end SensorKit.Core
