import SensorKit.Core.ControllerEvents

/-!
# The caller's outcome

A request is answered from the way its runner ends, and the finish of the execution is recorded
before that. The two agree unless a cancellation reaches the runner in between: it is deferred
until the finish is out, and then fails a request whose execution is recorded as a success.
-/

namespace SensorKit.Core

open Lib

variable {K : Type}

/-- The step is neither the failure of a publication, the request's own included, nor the end of
the request's task. -/
def ControllerLabel.replies : ControllerLabel K → Bool
  | .published (.failed _ _) | .succeeded _ false | .closed _ false | .abandon _ => false
  | _ => true

namespace TaskRun

variable (r : TaskRun K)

/-- The run is recorded as a success, and its runner has yet to end. -/
def settling : Bool :=
  match r.stage with
  | .ending _ | .finishing _ | .settled _ _ => r.finishInfo = {}
  | _ => false

/-- The way the runner ends, as far as it is known, agrees with the recorded finish. -/
def Agrees : Prop :=
  match r.stage with
  | .ending _ | .finishing _ => r.finishInfo = {} → r.deferred = false
  | .settled body raised =>
    (r.finishInfo = {} → r.deferred = false) ∧ (raised = none ∧ body = .succeeded ↔ r.finishInfo = {})
  | .done outcome => outcome = .succeeded ↔ r.finishInfo = {}
  | _ => True

/-- The request is as far as the runner lets it be. -/
def Answers (c : Call) : Prop :=
  match c.stage with
  | .progressing => c.ends = []
  | .succeeding => r.stage = .done .succeeded ∧ c.ends = []
  | .joining => ∃ outcome, r.stage = .done outcome ∧ c.ends = if outcome = .succeeded then [true] else []
  | .ended => ∃ outcome, r.stage = .done outcome ∧ c.ends = [decide (outcome = .succeeded)]

variable {r} {r' : TaskRun K}

theorem Answers.keeps {c : Call} (h : r.Answers c) (done : ∀ outcome, r.stage = .done outcome → r'.stage = .done outcome) :
    r'.Answers c := by
  unfold Answers at h ⊢
  split
  · simpa only [*] using h
  · simp only [*] at h
    exact ⟨done _ h.1, h.2⟩
  · simp only [*] at h
    exact h.imp fun outcome ended => ⟨done outcome ended.1, ended.2⟩
  · simp only [*] at h
    exact h.imp fun outcome ended => ⟨done outcome ended.1, ended.2⟩

theorem agrees_endBody (body : Outcome) : (r.endBody body).Agrees :=
  fun _ => rfl

end TaskRun

namespace Controller

variable {s t : Controller K} {n : ℕ} {r r' : TaskRun K}

theorem agrees_of_cancel (agrees : r.Agrees) (undisturbed : r.settling = false) (moves : CancelMoves r r') : r'.Agrees := by
  cases moves with
  | flags => exact agrees
  | ends => exact TaskRun.agrees_endBody _
  | defers received waiting handling confirming done =>
    cases stage : r.stage <;> simp_all [TaskRun.Agrees, TaskRun.settling, TaskRun.done]

theorem agrees_of_moves (agrees : r.Agrees) (moves : s.RunnerMoves r r') :
    r'.Agrees ∧ r.done = false := by
  cases moves with
  | cancelledBefore ready =>
    rcases (Ordered.ready_stage ready).1 with stage | stage <;>
      exact ⟨TaskRun.agrees_endBody _, by simp [TaskRun.done, stage]⟩
  | executes ready =>
    rcases (Ordered.ready_stage ready).1 with stage | stage <;> exact ⟨trivial, by simp [TaskRun.done, stage]⟩
  | joinFails stage | joinCancelled stage | handlerCancelled stage =>
    exact ⟨TaskRun.agrees_endBody _, by simp [TaskRun.done, stage]⟩
  | fails stage | succeeds stage =>
    rcases stage with stage | stage <;> exact ⟨TaskRun.agrees_endBody _, by simp [TaskRun.done, stage]⟩
  | confirms stage => exact ⟨trivial, by simp [TaskRun.done, stage]⟩
  | finishes stage =>
    refine ⟨?_, by simp [TaskRun.done, stage]⟩
    simpa only [TaskRun.Agrees, stage] using agrees
  | @ends body raised stage =>
    refine ⟨?_, by simp [TaskRun.done, stage]⟩
    simp only [TaskRun.Agrees, stage] at agrees ⊢
    rw [← agrees.2]
    cases raised with
    | some message => simp [TaskRun.result]
    | none =>
      cases deferred : r.deferred with
      | false => simp [TaskRun.result, deferred]
      | true =>
        -- A deferred cancellation has met a finish that is no success.
        have failed : body ≠ .succeeded := fun succeeded => by simp [agrees.2.1 ⟨rfl, succeeded⟩, deferred] at agrees
        simp [TaskRun.result, deferred, failed]

/-- The publications that end succeed, the requests are left to end, and no first cancellation
reaches a run that is recorded as a success and whose runner has yet to end. -/
def AnswersUndisturbed (s : Controller K) (label : ControllerLabel K) : Prop :=
  label.replies = true ∧ ∀ n ∈ s.cancels label, ∀ r ∈ s.runs n, r.cancelRequested = true ∨ r.settling = false

instance (s : Controller K) (label : ControllerLabel K) : Decidable (s.AnswersUndisturbed label) :=
  inferInstanceAs (Decidable (label.replies = true ∧ ∀ n ∈ s.cancels label, ∀ r ∈ s.runs n,
    r.cancelRequested = true ∨ r.settling = false))

/-- Every runner agrees with its finish so far, and every request with its runner. -/
structure Answered (s : Controller K) : Prop where
  agrees : ∀ n r, s.runs n = some r → r.Agrees
  answers : ∀ n r, s.runs n = some r → r.Answers (s.calls n)
  fresh : ∀ n, s.runs n = none → s.calls n = {}

namespace Answered

theorem congr (h : s.Answered) (runs : t.runs = s.runs) (calls : t.calls = s.calls) : t.Answered where
  agrees := by simpa only [runs] using h.agrees
  answers := by simpa only [runs, calls] using h.answers
  fresh := by simpa only [runs, calls] using h.fresh

theorem setRun (h : s.Answered) (hr : s.runs n = some r) (agrees : r'.Agrees)
    (done : ∀ outcome, r.stage = .done outcome → r'.stage = .done outcome) : (s.setRun n r').Answered where
  agrees m rm run := by
    rcases runs_setRun run with ⟨rfl, rfl⟩ | ⟨-, run⟩
    · exact agrees
    · exact h.agrees m rm run
  answers m rm run := by
    rcases runs_setRun run with ⟨rfl, rfl⟩ | ⟨-, run⟩
    · exact (h.answers m r hr).keeps done
    · exact h.answers m rm run
  fresh m none := by
    by_cases same : m = n
    · subst same
      simp at none
    · exact h.fresh m (by simpa [Function.update_of_ne same] using none)

/-- A request of a known run goes on. -/
theorem setCall {c : Call} (h : s.Answered) (hr : s.runs n = some r) (answers : r.Answers c) : (s.setCall n c).Answered where
  agrees := h.agrees
  answers m rm run := by
    by_cases same : m = n
    · subst same
      obtain rfl : rm = r := by simpa [Controller.setCall, hr] using run.symm
      simpa [Controller.setCall] using answers
    · simpa [Controller.setCall, Function.update_of_ne same] using h.answers m rm run
  fresh m none := by
    have same : m ≠ n := by
      rintro rfl
      simp [Controller.setCall, hr] at none
    simpa [Controller.setCall, Function.update_of_ne same] using h.fresh m none

theorem attach (h : s.Answered) (o : s.Ordered) (stage : r.stage = .received) : (s.attach r).Answered where
  agrees m rm run := by
    rcases runs_setRun run with ⟨rfl, rfl⟩ | ⟨-, run⟩
    · simp [TaskRun.Agrees, stage]
    · exact h.agrees m rm run
  answers m rm run := by
    rcases runs_setRun run with ⟨rfl, rfl⟩ | ⟨-, run⟩
    · show rm.Answers (s.calls s.admitted)
      rw [h.fresh s.admitted o.fresh]
      rfl
    · exact h.answers m rm run
  fresh m none := by
    by_cases same : m = s.admitted
    · subst same
      simp [Controller.attach] at none
    · exact h.fresh m (by simpa [Controller.attach, Function.update_of_ne same] using none)

/-- The finish of a run is over. -/
theorem finished {body : Outcome} {raised : Option String} (h : s.Answered) (hr : s.runs n = some r)
    (stage : r.stage = .finishing body) (ends : raised = none ∧ body = .succeeded ↔ r.finishInfo = {}) :
    (s.finished n raised).Answered := by
  have agrees := h.agrees n r hr
  simp only [TaskRun.Agrees, stage] at agrees
  simp only [Controller.finished, hr, stage]
  exact h.setRun hr ⟨agrees, ends⟩ (by simp [stage])

theorem records_iff {info : TaskFinishInfo} {body : Outcome} (recorded : info.Records body) :
    body = .succeeded ↔ info = {} := by
  cases body <;> simp [TaskFinishInfo.Records] at recorded <;> simp [recorded]

/-- What the finish raises, and how the body ended, agree with the record. -/
theorem ends_of_mismatch {info : TaskFinishInfo} {body : Outcome} {mismatch : Option String}
    (recorded : mismatch = none → info.Records body)
    (mismatched : ∀ message, mismatch = some message → info.Mismatched body message) :
    mismatch = none ∧ body = .succeeded ↔ info = {} := by
  cases mismatch with
  | none => simpa using records_iff (recorded rfl)
  | some message => simp [(mismatched message rfl).2]

theorem leave_start {events : List (Event K)} {behind : List ℕ} (h : s.Answered) (o : s.Ordered)
    (pub : s.publication = some ⟨events, .start n behind⟩) (hr : s.runs n = some r) (agrees : r'.Agrees) :
    (s.setRun n r').release.Answered := by
  obtain ⟨⟨r₀, run, stage⟩, -⟩ := o.starting events n behind pub
  obtain rfl : r₀ = r := by simpa [hr] using run.symm
  exact (h.setRun hr agrees (by simp [stage])).congr rfl rfl

section Steps

variable [DecidableEq K]

/-- A first cancellation reaches no run that is recorded as a success. -/
theorem cancel (h : s.Answered) (undisturbed : ∀ r ∈ s.runs n, r.cancelRequested = true ∨ r.settling = false) :
    (s.cancel n).Answered := by
  rcases s.cancel_cases n with ⟨same, -⟩ | ⟨r, r', lock, hr, first, moves, -, eq⟩
  · rwa [same]
  · rw [eq]
    have h' : Answered { s with lock } := h.congr rfl rfl
    refine h'.setRun hr (agrees_of_cancel (h.agrees n r hr) ?_ moves) fun outcome done => ?_
    · exact (undisturbed r hr).resolve_left (by simp [first])
    · cases moves with
      | flags | defers => exact done
      | ends stage => simp [done] at stage

theorem finish (h : s.Answered) (c : s.Consistent) (free : s.publication = none) (hr : s.runs n = some r)
    (finishing : r.isFinishing = true) : (s.finish n r).Answered := by
  obtain ⟨body, stage⟩ : ∃ body, r.stage = .finishing body := by
    cases stage : r.stage <;> simp [TaskRun.isFinishing, stage] at finishing ⊢
  obtain ⟨info, eq, settled⟩ := Consistent.settle_cases s r
  have recorded := c.records_of_free free hr stage
  have agrees := h.agrees n r hr
  simp only [TaskRun.Agrees, stage] at agrees
  have ends : (s.settle r).2.2 = none ∧ body = .succeeded ↔ info = {} := by
    rcases settled with ⟨none, rfl⟩ | ⟨message, some, success, rfl⟩
    · exact ends_of_mismatch (fun _ => recorded) (by simp [none])
    · simp [some]
  have settles : TaskRun.Agrees { r with finishInfo := info, phase := .finished } := by
    simp only [TaskRun.Agrees, stage]
    rcases settled with ⟨-, rfl⟩ | ⟨message, -, -, rfl⟩
    · exact agrees
    · simp
  have h₀ : Answered { s with states := (s.settle r).2.1 } := h.congr rfl rfl
  have h' := h₀.setRun hr settles (by simp [stage])
  simp only [Controller.finish, eq]
  split
  · exact (h'.finished (r := { r with finishInfo := info, phase := .finished }) (by simp) stage ends).congr rfl rfl
  · exact h'.congr rfl rfl

theorem enter {job : Job K} (h : s.Answered) (o : s.Ordered) (c : s.Consistent) (holder : s.lock.holder = some job)
    (free : s.publication = none)
    (undisturbed : ∀ n ∈ s.cancels .enter, ∀ r ∈ s.runs n, r.cancelRequested = true ∨ r.settling = false) :
    (s.enter job).Answered := by
  cases job with
  | admission msg =>
    simp only [Controller.enter, Controller.admitRequest]
    split
    · exact h.congr rfl rfl
    · split
      · split
        · exact (h.attach o rfl).congr rfl rfl
        · exact h.congr rfl rfl
      · exact (h.attach o rfl).congr rfl rfl
  | start n =>
    simp only [Controller.enter]
    split
    · split
      · rename_i r run stage
        have keeps : (s.setRun n { r with stage := .startPublishing }).Answered :=
          h.setRun run trivial (by simp [stage])
        exact keeps.congr rfl rfl
      · exact h
    · exact h
  | finish n =>
    simp only [Controller.enter]
    split
    · split
      · rename_i r run finishing
        exact h.finish c free run finishing
      · exact h
    · exact h
  | abort requested =>
    simp only [Controller.enter]
    rcases abort_cases holder with eq | ⟨n, -, -, eq⟩ | ⟨n, cancels, eq⟩ <;> rw [eq]
    · exact h.congr rfl rfl
    · exact h.congr rfl rfl
    · exact (h.cancel (undisturbed n cancels)).congr rfl rfl
  | report state context =>
    simp only [Controller.enter, Controller.report]
    split <;> exact h.congr rfl rfl
  | enable enabled => exact h.congr rfl rfl
  | updateContext =>
    simp only [Controller.enter, Controller.updateContext]
    split
    · split <;> exact h.congr rfl rfl
    · exact h.congr rfl rfl

theorem published {events : List (Event K)} {next : Next K} {outcome : PublishOutcome} (h : s.Answered) (o : s.Ordered)
    (c : s.Consistent) (pub : s.publication = some ⟨events, next⟩)
    (out : ∀ applied message, outcome ≠ .failed applied message) (defers : next.defers = true → outcome ≠ .interrupted)
    (undisturbed : ∀ n ∈ s.cancels (.published outcome), ∀ r ∈ s.runs n, r.cancelRequested = true ∨ r.settling = false) :
    (s.published events next outcome).Answered := by
  have h' : (s.emitAll events).Answered := h.congr (by simp) (by simp)
  cases outcome with
  | failed applied message => exact absurd rfl (out applied message)
  | succeeded =>
    cases next with
    | attach r prior => exact (h'.attach (o.emitAll events) (o.attaching events r prior pub).1).congr rfl rfl
    | start n behind =>
      obtain ⟨⟨r, run, -⟩, -⟩ := o.starting events n behind pub
      simp only [Controller.published, Controller.proceed, emitAll_runs, run]
      refine h'.leave_start (o.emitAll events) (by simpa using pub) (by simpa using run) ?_
      cases r.deferred <;> simp [TaskRun.Agrees, TaskRun.endBody]
    | finish n mismatch =>
      obtain ⟨r, body, run, stage, -, recorded, mismatched⟩ := c.finishes events n mismatch pub
      exact (h'.finished (by simpa using run) stage (ends_of_mismatch recorded mismatched)).congr rfl rfl
    | abort n =>
      exact (h'.cancel (by simpa using undisturbed n (by simp [cancels, pub]))).congr rfl rfl
    | release => exact h'.congr rfl rfl
  | interrupted =>
    cases next with
    | attach | abort | release => exact h'.congr rfl rfl
    | start n behind => exact absurd rfl (defers rfl)
    | finish n mismatch => exact absurd rfl (defers rfl)

/-- **Every undisturbed step keeps the answers in agreement.** -/
theorem step {label : ControllerLabel K} (o : s.Ordered) (c : s.Consistent) (h : s.Answered)
    (ok : s.AnswersUndisturbed label) (hs : s.step label = some t) : t.Answered := by
  obtain ⟨replies, undisturbed⟩ := ok
  have known {n : ℕ} {stage : CallStage} (call : (s.calls n).stage = stage) (open_ : stage ≠ .progressing) :
      ∃ r, s.runs n = some r := by
    cases run : s.runs n with
    | some r => exact ⟨r, rfl⟩
    | none => exact absurd (by rw [← call, h.fresh n run]) open_
  cases moves_of_step hs with
  | @runner _ n r r' lock run held moves =>
    have h' : Answered { s with lock } := h.congr rfl rfl
    obtain ⟨agrees, going⟩ := agrees_of_moves (h.agrees n r run) moves
    exact h'.setRun run agrees fun outcome done => by simp [TaskRun.done, done] at going
  | @interrupts n p r run stage pred =>
    have keeps : (s.setRun n { r with phase := .interrupting, stage := .joining }).Answered :=
      h.setRun run trivial (by simp [stage])
    refine keeps.cancel fun rp hp => ?_
    rcases runs_setRun hp with ⟨-, rfl⟩ | ⟨-, hp⟩
    · exact .inr rfl
    · exact undisturbed p (by simp [cancels, run, pred]) rp hp
  | enters holder free => exact h.enter o c holder free undisturbed
  | publishes outcome pub ready defers =>
    refine h.published o c pub (fun applied message failed => ?_) defers undisturbed
    subst failed
    simp [ControllerLabel.replies] at replies
  | queues held => exact h.congr rfl rfl
  | @wakes n r outcome run ended call =>
    have answers := h.answers n r run
    simp only [TaskRun.Answers, call] at answers
    refine h.setCall run ?_
    split
    · rename_i succeeded
      exact ⟨succeeded ▸ ended, answers⟩
    · rename_i failed
      exact ⟨outcome, ended, by simp [answers, failed]⟩
  | @succeeds n published call =>
    obtain ⟨r, run⟩ := known call (by simp)
    have answers := h.answers n r run
    simp only [TaskRun.Answers, call] at answers
    refine (h.setCall run ?_)
    cases published with
    | false => simp [ControllerLabel.replies] at replies
    | true => exact ⟨.succeeded, answers.1, by simp [answers.2]⟩
  | @closes n r published run done call =>
    have answers := h.answers n r run
    simp only [TaskRun.Answers, call] at answers
    obtain ⟨outcome, ended, ends⟩ := answers
    have h' : Answered { s with execution := if s.execution = some n then none else s.execution } := h.congr rfl rfl
    refine h'.setCall run ⟨outcome, ended, ?_⟩
    cases published with
    | false => simp [ControllerLabel.replies] at replies
    | true => by_cases succeeded : outcome = .succeeded <;> simp [ends, succeeded]
  | abandons => simp [ControllerLabel.replies] at replies

end Steps

theorem started (taskHandlers : List String) (recovered : ControllerState K) (legacy : Bool) :
    (started taskHandlers recovered legacy).Answered := by
  constructor <;> simp [Controller.started]

end Answered

/-! ## The end of a request -/

section Ends

variable [DecidableEq K] {ok : Controller K → ControllerLabel K → Prop}

section

variable (hr : s.runs n = some r) (done : r.done = true)
include hr done

end

end Ends

/-! ## Runs -/

/-- The publications that end succeed, and the requests are left to end. -/
def replies (_ : Controller K) (label : ControllerLabel K) : Prop :=
  label.replies = true

instance (s : Controller K) (label : ControllerLabel K) : Decidable (s.replies label) :=
  inferInstanceAs (Decidable (label.replies = true))

variable [DecidableEq K] {taskHandlers : List String} {recovered : ControllerState K} {legacy : Bool}

end Controller

end SensorKit.Core
