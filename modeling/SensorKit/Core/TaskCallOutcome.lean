import SensorKit.Core.TaskCallSound
import SensorKit.Lib.Trace

/-!
# One outcome for each task call

The outcome is settled once, and says what the facts of the run say. No abort is requested once the controller is known to
have accepted one.
-/

namespace SensorKit.Core.TaskCalls

open Lib

variable {ρ ε : Type} {facts : Facts ρ ε} {call call' : TaskCall ρ ε} {outcome outcome' : Outcome ρ}
  {label : CallLabel ρ ε} {labels : List (CallLabel ρ ε)}

/-! ## What a step changes -/

/-- The follower may request an abort. -/
def Follower.MayAbort : Follower ρ → Prop
  | .none | .created | .sending | .waiting _ false | .interrupted _ false => True
  | _ => False

theorem mayAbort_loop {aborted delivered : Bool} (may : (call.loop aborted delivered).MayAbort) : delivered = false := by
  unfold TaskCall.loop at may
  split at may
  · exact may.elim
  · split at may
    · cases delivered with
      | false => rfl
      | true => exact may.elim
    · cases delivered with
      | false => rfl
      | true => exact may.elim

/-- A settled outcome stays. An abort request has been sent only if the follower was sending it, and it sends no other one
once it knows that it was accepted. -/
structure Change (call call' : TaskCall ρ ε) : Prop where
  outcome : ∀ outcome, call.outcome = some outcome → call'.outcome = some outcome
  aborts : call'.aborts = call.aborts ∧ (call'.follower.MayAbort → call.follower.MayAbort) ∨
    call.follower = .sending ∧ ∃ end_, call'.aborts = call.aborts ++ [end_] ∧
      (call'.follower.MayAbort → end_ ≠ .accepted)

theorem Change.keep (outcome : call'.outcome = call.outcome) (aborts : call'.aborts = call.aborts)
    (may : call'.follower.MayAbort → call.follower.MayAbort) : Change call call' :=
  ⟨fun _ settled => outcome.trans settled, .inl ⟨aborts, may⟩⟩

theorem Change.settle (h : Change call call') : Change call (call'.settleOutcome outcome) := by
  unfold TaskCall.settleOutcome
  split
  · exact h
  · rename_i unsettled
    refine ⟨fun outcome' settled => ?_, h.aborts⟩
    rw [h.outcome outcome' settled] at unsettled
    exact absurd Option.isSome_some unsettled

theorem Sound.change (h : Sound facts call) (step : call.step label = some call') : Change call call' := by
  cases label with
  | send ready =>
    simp only [TaskCall.step, TaskCall.send] at step
    split at step
    · cases step
      exact .keep rfl rfl id
    · rename_i next sent
      cases step
      split at sent
      · split at sent
        · cases sent
          exact .keep rfl rfl id
        · cases sent
      · cases sent
  | reply reply =>
    simp only [TaskCall.step] at step
    split at step
    · cases step
      cases reply with
      | accepted execution => exact .keep rfl rfl id
      | rejected execution =>
        have kept : Change call { call with phase := .raised, execution } := .keep rfl rfl id
        exact kept.settle
      | failed =>
        have kept : Change call { call with phase := .raised } := .keep rfl rfl id
        exact kept.settle
    · cases step
  | cancelSend =>
    have kept : Change call { call with phase := .raised } := .keep rfl rfl id
    simp only [TaskCall.step] at step
    split at step
    · cases step
      exact kept.settle
    · cases step
      exact kept.settle
    · cases step
  | event event =>
    obtain ⟨long, -, rfl⟩ := Option.map_eq_some_iff.1 step
    exact .keep rfl rfl id
  | loseEvents =>
    obtain ⟨long, -, rfl⟩ := Option.map_eq_some_iff.1 step
    exact .keep rfl rfl id
  | cancelEvents =>
    obtain ⟨long, -, rfl⟩ := Option.map_eq_some_iff.1 step
    exact .keep rfl rfl id
  | longCallDone =>
    obtain ⟨long, -, rfl⟩ := Option.map_eq_some_iff.1 step
    exact .keep rfl rfl id
  | invoked =>
    simp only [TaskCall.step] at step
    split at step
    · rename_i execution phase
      split at step
      · cases step
        cases execution with
        | none =>
          have kept : Change call { call with phase := .raised } := .keep rfl rfl id
          exact kept.settle
        | some execution =>
          have stage := h.stage
          rw [phase] at stage
          exact .keep rfl rfl fun _ => by rw [stage.2.2.2]; trivial
      · cases step
    · cases step
  | abort =>
    cases step
    exact .keep rfl rfl id
  | follow =>
    simp only [TaskCall.step] at step
    split at step
    · rename_i created
      cases step
      exact .keep rfl rfl fun _ => by rw [created]; trivial
    · rename_i aborted delivered waiting
      split at step
      · cases step
        exact .keep rfl rfl False.elim
      · split at step
        · cases step
          refine .keep rfl rfl fun may => ?_
          rw [waiting]
          cases delivered with
          | false => trivial
          | true => exact may.elim
        · cases step
    · rename_i aborted delivered interrupted
      cases step
      refine .keep rfl rfl fun may => ?_
      rw [interrupted]
      cases delivered with
      | false => trivial
      | true => exact absurd (mayAbort_loop may) (Ne.symm Bool.false_ne_true)
    · obtain ⟨end_, -, rfl⟩ := Option.map_eq_some_iff.1 step
      exact .keep rfl rfl False.elim
    · cases step
  | abortReply end_ =>
    simp only [TaskCall.step] at step
    split at step
    · rename_i sending
      cases step
      refine ⟨fun _ => id, .inr ⟨sending, end_, rfl, fun may accepted => ?_⟩⟩
      have undelivered := mayAbort_loop may
      rw [accepted] at undelivered
      cases undelivered
    · cases step
  | cancelFollower accepted =>
    have kept : Change call { call with follower := .ended .cancelled false } := .keep rfl rfl False.elim
    simp only [TaskCall.step] at step
    split at step
    · cases step
      exact kept
    · cases step
      exact kept
    · cases step
      exact kept
    · cases step
      exact kept
    · rename_i sending
      cases step
      exact ⟨fun _ => id, .inr ⟨sending, _, rfl, False.elim⟩⟩
    · cases step
  | settle =>
    simp only [TaskCall.step] at step
    split at step
    · rename_i end_ ended
      cases step
      have kept : Change call { call with follower := .ended end_ true } := .keep rfl rfl False.elim
      exact kept.settle
    · cases step
  | cancelFuture =>
    simp only [TaskCall.step] at step
    split at step
    · cases step
    · rename_i unsettled
      cases step
      refine ⟨fun outcome settled => ?_, .inl ⟨rfl, id⟩⟩
      rw [settled] at unsettled
      exact absurd Option.isSome_some unsettled

/-- A run leaves a settled outcome as it is. -/
theorem Sound.outcome_run (h : Sound facts call) (settled : call.outcome = some outcome)
    (ran : exec TaskCall.step call labels = some call') : call'.outcome = some outcome := by
  induction labels generalizing facts call with
  | nil =>
    cases ran
    exact settled
  | cons label labels ih =>
    obtain ⟨next, step, rest⟩ := exec_cons_eq_some.1 ran
    exact ih (h.step step) ((h.change step).outcome outcome settled) rest

/-- An abort that is known to be accepted is the last one. -/
structure AbortsOnce (call : TaskCall ρ ε) : Prop where
  last : ∀ pre post, call.aborts = pre ++ .accepted :: post → post = []
  may : call.follower.MayAbort → .accepted ∉ call.aborts

theorem AbortsOnce.change (h : AbortsOnce call) (change : Change call call') : AbortsOnce call' := by
  rcases change.aborts with ⟨same, may⟩ | ⟨sending, end_, grown, may⟩
  · refine ⟨?_, fun here => ?_⟩
    · rw [same]
      exact h.last
    · rw [same]
      exact h.may (may here)
  · have absent : .accepted ∉ call.aborts := h.may (by rw [sending]; trivial)
    refine ⟨fun pre post split => ?_, fun here mem => ?_⟩
    · rw [grown] at split
      rcases split_snoc split with ⟨-, -, none⟩ | ⟨earlier, -, before⟩
      · exact none
      · rw [before] at absent
        exact absurd (by simp) absent
    · rw [grown] at mem
      rcases List.mem_append.1 mem with before | last
      · exact absent before
      · exact may here (List.mem_singleton.1 last).symm

theorem AbortsOnce.initial : AbortsOnce ({} : TaskCall ρ ε) where
  last := fun pre post split => by simp at split
  may := fun _ => List.not_mem_nil

theorem Sound.abortsOnce (h : Sound facts call) (once : AbortsOnce call)
    (ran : exec TaskCall.step call labels = some call') : AbortsOnce call' := by
  induction labels generalizing facts call with
  | nil =>
    cases ran
    exact once
  | cons label labels ih =>
    obtain ⟨next, step, rest⟩ := exec_cons_eq_some.1 ran
    exact ih (h.step step) (once.change (h.change step)) rest

/-! ## Progress -/

/-- The steps that need no reply and no event. -/
def internal : List (CallLabel ρ ε) := [.longCallDone, .invoked, .follow, .settle]

/-- What a call waits for from outside: a reply, an event or its deadline, or the reply to an abort request. -/
def TaskCall.Waits (call : TaskCall ρ ε) : Prop :=
  call.phase = .unsent ∨ call.phase = .invoking ∨ (∃ started, call.call.task = .running started) ∨ call.follower = .sending

/-- As long as the outcome is not settled, the call waits for something from outside, or can go on. -/
theorem Sound.progress (h : Sound facts call) (unsettled : call.outcome = none) :
    call.Waits ∨ ∃ label ∈ internal, (call.step label).isSome := by
  have open_ : call.Open := Classical.byContradiction fun closed => by
    have settled := h.closed closed
    rw [unsettled] at settled
    cases settled
  have stage := h.stage
  have following := h.following
  cases task : call.call.task with
  | running started => exact .inl (.inr (.inr (.inl ⟨started, task⟩)))
  | none =>
    cases phase : call.phase with
    | unsent => exact .inl (.inl phase)
    | invoking => exact .inl (.inr (.inl phase))
    | accepted execution =>
      rw [phase] at stage
      exact absurd task stage.2.2.1
    | returned execution =>
      rw [phase] at stage
      exact absurd task stage.2.2.1
    | raised => exact absurd phase open_.1
  | ended end_ =>
    cases phase : call.phase with
    | unsent =>
      rw [phase] at stage
      exact absurd (task.symm.trans stage.2.2.1) nofun
    | invoking =>
      rw [phase] at stage
      exact absurd (task.symm.trans stage.2.2.1) nofun
    | accepted execution =>
      refine .inr ⟨.invoked, by simp [internal], ?_⟩
      simp [TaskCall.step, phase, LongCall.returns, task]
    | raised => exact absurd phase open_.1
    | returned execution =>
      rw [phase] at stage
      cases follower : call.follower with
      | none => exact absurd follower stage.2.2.2
      | created => exact .inr ⟨.follow, by simp [internal], by simp [TaskCall.step, follower]⟩
      | waiting aborted delivered =>
        cases future : call.call.future with
        | none => exact .inr ⟨.longCallDone, by simp [internal], by simp [TaskCall.step, LongCall.longCallDone, task, future]⟩
        | some end_ => exact .inr ⟨.follow, by simp [internal], by simp [TaskCall.step, follower, future]⟩
      | interrupted aborted delivered => exact .inr ⟨.follow, by simp [internal], by simp [TaskCall.step, follower]⟩
      | leaving aborted =>
        rw [follower] at following
        exact .inr ⟨.follow, by simp [internal], by simpa [TaskCall.step, follower] using following.2.2⟩
      | sending => exact .inl (.inr (.inr (.inr follower)))
      | ended how called =>
        cases called with
        | true => exact absurd follower (open_.2 how)
        | false => exact .inr ⟨.settle, by simp [internal], by simp [TaskCall.step, follower]⟩

def SendPhase.work : SendPhase ε → ℕ
  | .accepted _ => 7
  | _ => 0

def Follower.work (abort : Bool) : Follower ρ → ℕ
  | .created => 6
  | .waiting _ _ => if abort then 5 else 3
  | .interrupted _ _ => 4
  | .leaving _ => 2
  | .ended _ false => 1
  | _ => 0

/-- How many internal steps there can be, at most. -/
def TaskCall.work (call : TaskCall ρ ε) : ℕ :=
  call.phase.work + call.follower.work call.abort + if call.call.future = none then 1 else 0

theorem work_settleOutcome : (call.settleOutcome outcome).work = call.work := by
  obtain ⟨phase, long, follower, abort⟩ := @outcome_settleOutcome _ _ call outcome
  unfold TaskCall.work
  rw [phase, long, follower, abort]

theorem work_loop (call : TaskCall ρ ε) (aborted delivered : Bool) : (call.loop aborted delivered).work call.abort ≤ 4 ∧
    (call.abort = false → (call.loop aborted delivered).work false ≤ 3) := by
  unfold TaskCall.loop
  split
  · exact ⟨by simp [Follower.work], fun _ => by simp [Follower.work]⟩
  · cases call.abort with
    | false => exact ⟨by simp [Follower.work], fun _ => by simp [Follower.work]⟩
    | true => exact ⟨by simp [Follower.work], nofun⟩

/-- Each internal step leaves less to do. -/
theorem work_step (mem : label ∈ internal) (step : call.step label = some call') : call'.work < call.work := by
  have cases_ : label = .longCallDone ∨ label = .invoked ∨ label = .follow ∨ label = .settle := by simpa [internal] using mem
  rcases cases_ with rfl | rfl | rfl | rfl
  · obtain ⟨long, done, rfl⟩ := Option.map_eq_some_iff.1 step
    unfold LongCall.longCallDone at done
    split at done
    · rename_i end_ task future
      cases done
      unfold TaskCall.work
      rw [future]
      simp
    · cases done
  · simp only [TaskCall.step] at step
    split at step
    · rename_i execution phase
      split at step
      · cases step
        cases execution with
        | none =>
          show (TaskCall.settleOutcome _ _).work < _
          rw [work_settleOutcome]
          unfold TaskCall.work
          rw [phase]
          show 0 + call.follower.work call.abort + (if call.call.future = none then 1 else 0) <
            7 + call.follower.work call.abort + if call.call.future = none then 1 else 0
          omega
        | some execution =>
          unfold TaskCall.work
          rw [phase]
          show 0 + 6 + (if call.call.future = none then 1 else 0) <
            7 + call.follower.work call.abort + if call.call.future = none then 1 else 0
          omega
      · cases step
    · cases step
  · have same {follower : Follower ρ} (less : follower.work call.abort < call.follower.work call.abort) :
        TaskCall.work { call with follower } < call.work := by
      unfold TaskCall.work
      dsimp only
      omega
    simp only [TaskCall.step] at step
    split at step
    · rename_i created
      cases step
      refine same ?_
      have bound := (work_loop call false false).1
      rw [created]
      show (call.loop false false).work call.abort < 6
      omega
    · rename_i aborted delivered waiting
      split at step
      · cases step
        refine same ?_
        rw [waiting]
        simp only [Follower.work]
        split <;> omega
      · split at step
        · rename_i abort
          cases step
          refine same ?_
          rw [waiting, abort]
          simp [Follower.work]
        · cases step
    · rename_i aborted delivered interrupted
      cases step
      have bound := (work_loop { call with abort := false } true delivered).2 rfl
      have here : call.work = call.phase.work + 4 + if call.call.future = none then 1 else 0 := by
        unfold TaskCall.work
        rw [interrupted]
        rfl
      rw [here]
      unfold TaskCall.work
      dsimp only
      split
      · omega
      · show call.phase.work + 0 + _ < call.phase.work + 4 + _
        omega
    · rename_i aborted leaving
      obtain ⟨end_, -, rfl⟩ := Option.map_eq_some_iff.1 step
      refine same ?_
      rw [leaving]
      simp [Follower.work]
    · cases step
  · simp only [TaskCall.step] at step
    split at step
    · rename_i end_ ended
      cases step
      rw [work_settleOutcome]
      unfold TaskCall.work
      rw [ended]
      simp only [Follower.work]
      omega
    · cases step

theorem bounded (all : ∀ label ∈ labels, label ∈ internal)
    (ran : exec TaskCall.step call labels = some call') : labels.length + call'.work ≤ call.work := by
  refine length_le_of_forall (I := fun _ => True) TaskCall.work ran all trivial fun call label call' _ mem step => ?_
  exact ⟨trivial, work_step mem step⟩

/-! ## The outcome -/

/-- The class of an outcome. -/
def Outcome.kind : Outcome ρ → Outcome ρ
  | .failed _ => .failed false
  | outcome => outcome

/-- The facts leave no choice. -/
theorem kind_eq (right : facts.Justifies outcome) (right' : facts.Justifies outcome') : outcome.kind = outcome'.kind := by
  have open_ (uncancelled : facts.futureCancelled = false) : ¬ facts.Justifies .cancelled := fun cancelled => by
    have isCancelled : facts.futureCancelled = true := cancelled
    rw [uncancelled] at isCancelled
    cases isCancelled
  have accepted (followed : facts.Followed) (execution : Option ε) : facts.reply ≠ some (.rejected execution) := fun same => by
    obtain ⟨⟨⟨_, reply⟩, -⟩, -⟩ := followed
    rw [reply] at same
    cases same
  have decided {end_ : EventsEnd ρ} (ended : facts.ended = some end_) (followed : facts.Followed)
      (unknown : facts.Justifies .unknown) : end_ = .lost ∨ end_ = .cancelled := by
    have lost := unknown.2.2 followed
    rw [ended] at lost
    exact lost.imp Option.some.inj Option.some.inj
  cases outcome with
  | result result =>
    obtain ⟨fc, followed, ended⟩ := right
    cases outcome' with
    | result result' =>
      obtain rfl := EventsEnd.success.inj (Option.some.inj (ended.symm.trans right'.2.2))
      rfl
    | rejected => exact absurd right'.2.choose_spec (accepted followed _)
    | failed aborted => exact absurd (ended.symm.trans right'.2.2.1) nofun
    | unknown => exact absurd (decided ended followed right') nofun
    | cancelled => exact absurd right' (open_ fc)
  | rejected =>
    obtain ⟨fc, execution, reply⟩ := right
    cases outcome' with
    | result result => exact absurd reply (accepted right'.2.1 _)
    | rejected => rfl
    | failed aborted => exact absurd reply (accepted right'.2.1 _)
    | unknown => exact absurd reply (right'.2.1 _)
    | cancelled => exact absurd right' (open_ fc)
  | failed aborted =>
    obtain ⟨fc, followed, ended, -⟩ := right
    cases outcome' with
    | result result => exact absurd (ended.symm.trans right'.2.2) nofun
    | rejected => exact absurd right'.2.choose_spec (accepted followed _)
    | failed aborted' => rfl
    | unknown => exact absurd (decided ended followed right') nofun
    | cancelled => exact absurd right' (open_ fc)
  | unknown =>
    cases outcome' with
    | result result => exact absurd (decided right'.2.2 right'.2.1 right) nofun
    | rejected => exact absurd right'.2.choose_spec (right.2.1 _)
    | failed aborted => exact absurd (decided right'.2.2.1 right'.2.1 right) nofun
    | unknown => rfl
    | cancelled => exact absurd right' (open_ right.1)
  | cancelled =>
    cases outcome' with
    | cancelled => rfl
    | _ => exact absurd right (open_ right'.1)

/-- In every run of a task call: the outcome is settled once. It is the result if and only if the execution that was
accepted, and that `send` returned, is followed to its success; a rejection or a failure if and only if the reply or the
end of the followed execution says so; and otherwise unknown, unless a holder cancels the future. An abort request that is
known to be accepted is the last one. -/
theorem task_call_settles {ρ ε : Type} (labels : List (CallLabel ρ ε)) (call : TaskCall ρ ε) (facts : Facts ρ ε)
    (told : labels.foldl Facts.follow {} = facts) (ran : exec TaskCall.step {} labels = some call) :
    (∀ outcome, call.outcome = some outcome →
      (∀ more call', exec TaskCall.step call more = some call' → call'.outcome = some outcome) ∧
      (∀ result, outcome = .result result ↔
        facts.futureCancelled = false ∧ facts.Followed ∧ facts.ended = some (.success result)) ∧
      (outcome = .rejected ↔ facts.futureCancelled = false ∧ ∃ execution, facts.reply = some (.rejected execution)) ∧
      ((∃ aborted, outcome = .failed aborted) ↔
        facts.futureCancelled = false ∧ facts.Followed ∧ facts.ended = some .failure) ∧
      (outcome = .cancelled ↔ facts.futureCancelled = true)) ∧
    (call.outcome = none → call.Waits ∨ ∃ label ∈ internal, (call.step label).isSome) ∧
    (∀ more call', (∀ label ∈ more, label ∈ internal) → exec TaskCall.step call more = some call' →
      more.length + call'.work ≤ call.work) ∧
    ∀ pre post, call.aborts = pre ++ .accepted :: post → post = [] := by
  subst told
  have h := Sound.initial.run ran
  refine ⟨fun outcome settled => ?_, h.progress, fun more call' => bounded, (Sound.initial.abortsOnce .initial ran).last⟩
  have right := h.outcome outcome settled
  have unique (outcome' : Outcome ρ) (right' : (labels.foldl Facts.follow {}).Justifies outcome') : outcome.kind = outcome'.kind :=
    kind_eq right right'
  refine ⟨fun more call' => h.outcome_run settled, fun result => ?_, ?_, ?_, ?_⟩
  · refine ⟨fun same => by subst same; exact right, fun facts => ?_⟩
    have kind := unique (.result result) facts
    cases outcome with
    | result result' => exact kind
    | _ => cases kind
  · refine ⟨fun same => by subst same; exact right, fun facts => ?_⟩
    have kind := unique .rejected facts
    cases outcome with
    | rejected => rfl
    | _ => cases kind
  · constructor
    · rintro ⟨aborted, rfl⟩
      exact ⟨right.1, right.2.1, right.2.2.1⟩
    · rintro ⟨fc, followed, ended⟩
      have kind := unique (.failed false) ⟨fc, followed, ended, nofun⟩
      cases outcome with
      | failed aborted => exact ⟨aborted, rfl⟩
      | _ => cases kind
  · refine ⟨fun same => by subst same; exact right, fun facts => ?_⟩
    have kind := unique .cancelled facts
    cases outcome with
    | cancelled => rfl
    | _ => cases kind

theorem task_call_settles_example : ∃ call : TaskCall ℕ ℕ,
    exec TaskCall.step {} [.send true, .reply (.accepted (some 7)), .event .running, .invoked, .follow,
      .event (.success (some 42)), .longCallDone, .follow, .follow, .settle] = some call ∧
    ∀ more call', exec TaskCall.step call more = some call' → call'.outcome = some (.result 42) := by
  have settled : (exec TaskCall.step ({} : TaskCall ℕ ℕ) [.send true, .reply (.accepted (some 7)), .event .running, .invoked,
      .follow, .event (.success (some 42)), .longCallDone, .follow, .follow, .settle]).map (·.outcome) =
      some (some (.result 42)) := by decide +kernel
  obtain ⟨call, ran, settled⟩ := Option.map_eq_some_iff.1 settled
  obtain ⟨once, -⟩ := task_call_settles _ call _ rfl ran
  exact ⟨call, ran, (once _ settled).1⟩

/-- The success event is there when the caller is cancelled, and when the reply has no execution; the outcome is unknown.
And a controller may accept a second abort request, if its reply to the first one is lost. -/
theorem success_untold :
    (exec TaskCall.step ({} : TaskCall ℕ ℕ) [.send true, .reply (.accepted (some 7)), .event (.success (some 42)),
        .cancelSend]).map (fun call => (call.call.task, call.outcome)) =
      some (.ended (.success 42), some .unknown) ∧
    (exec TaskCall.step ({} : TaskCall ℕ ℕ) [.send true, .reply (.accepted none), .event (.success (some 42)),
        .invoked]).map (fun call => (call.call.task, call.outcome)) =
      some (.ended (.success 42), some .unknown) ∧
    (exec TaskCall.step ({} : TaskCall ℕ ℕ) [.send true, .reply (.accepted (some 7)), .event .running, .invoked, .follow,
        .abort, .follow, .follow, .abortReply .acceptedLost, .abort, .follow, .follow,
        .abortReply .accepted]).map (fun call => (call.aborts.filter (·.byController)).length) = some 2 ∧
    (exec TaskCall.step ({} : TaskCall ℕ ℕ) [.send true, .cancelFuture]).map (·.outcome) = some (some .cancelled) := by
  decide +kernel

end SensorKit.Core.TaskCalls
