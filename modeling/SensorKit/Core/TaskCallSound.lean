import SensorKit.Core.TaskCall

/-!
# What the outcome of a task call says

The outcome is settled by `send`, by the callback on the follower, or by a holder that cancels the future, whichever comes
first. The facts of a run are what the call has been told: the reply, how the events have ended, and what was cancelled.
-/

namespace SensorKit.Core.TaskCalls

open Lib

variable {ρ ε : Type} {end_ : EventsEnd ρ}

/-! ## What a call has been told -/

structure Facts (ρ ε : Type) where
  reply : Option (Reply ε) := none
  /-- `invoke` has returned to a `send` that was not cancelled. -/
  returned : Bool := false
  ended : Option (EventsEnd ρ) := none
  followerCancelled : Bool := false
  futureCancelled : Bool := false
  abortRequested : Bool := false

namespace Facts

variable (facts : Facts ρ ε)

def follow (facts : Facts ρ ε) : CallLabel ρ ε → Facts ρ ε
  | .reply reply => { facts with reply := some reply }
  | .invoked => { facts with returned := true }
  | .event (.success (some result)) => { facts with ended := some (.success result) }
  | .event (.success none) | .loseEvents => { facts with ended := some .lost }
  | .event .failure => { facts with ended := some .failure }
  | .cancelEvents => { facts with ended := some .cancelled }
  | .cancelFollower _ => { facts with followerCancelled := true }
  | .cancelFuture => { facts with futureCancelled := true }
  | .abort => { facts with abortRequested := true }
  | _ => facts

/-- The task has been accepted as an execution that `send` has returned. -/
def Accepted : Prop := (∃ execution, facts.reply = some (.accepted (some execution))) ∧ facts.returned = true

/-- The execution is followed until the events end. -/
def Followed : Prop := facts.Accepted ∧ facts.followerCancelled = false

/-- The outcome is what the facts say. -/
def Justifies : Outcome ρ → Prop
  | .result result => facts.futureCancelled = false ∧ facts.Followed ∧ facts.ended = some (.success result)
  | .rejected => facts.futureCancelled = false ∧ ∃ execution, facts.reply = some (.rejected execution)
  | .failed aborted => facts.futureCancelled = false ∧ facts.Followed ∧ facts.ended = some .failure ∧
      (aborted = true → facts.abortRequested = true)
  | .unknown => facts.futureCancelled = false ∧ (∀ execution, facts.reply ≠ some (.rejected execution)) ∧
      (facts.Followed → facts.ended = some .lost ∨ facts.ended = some .cancelled)
  | .cancelled => facts.futureCancelled = true

end Facts

/-! ## The invariant -/

def EventTask.end? : EventTask ρ → Option (EventsEnd ρ)
  | .ended end_ => some end_
  | _ => Option.none

/-- How far `send` has come, by the facts. -/
def Stage (facts : Facts ρ ε) (task : EventTask ρ) (follower : Follower ρ) : SendPhase ε → Prop
  | .unsent | .invoking => facts.reply = none ∧ facts.returned = false ∧ task = .none ∧ follower = .none
  | .accepted execution => facts.reply = some (.accepted execution) ∧ facts.returned = false ∧ task ≠ .none ∧ follower = .none
  | .returned execution => facts.reply = some (.accepted (some execution)) ∧ facts.returned = true ∧ task ≠ .none ∧
      follower ≠ .none
  | .raised => ¬ facts.Accepted ∧ follower = .none

/-- How far the follower has come. -/
def Following (facts : Facts ρ ε) (future : Option (EventsEnd ρ)) : Follower ρ → Prop
  | .none | .created => facts.followerCancelled = false
  | .sending => facts.followerCancelled = false ∧ facts.abortRequested = true
  | .waiting aborted _ => facts.followerCancelled = false ∧ (aborted = true → facts.abortRequested = true)
  | .interrupted _ _ => facts.followerCancelled = false ∧ facts.abortRequested = true
  | .leaving aborted => facts.followerCancelled = false ∧ (aborted = true → facts.abortRequested = true) ∧ future.isSome
  | .ended (.returned result) _ => facts.followerCancelled = false ∧ facts.ended = some (.success result)
  | .ended (.failed aborted) _ => facts.followerCancelled = false ∧ facts.ended = some .failure ∧
      (aborted = true → facts.abortRequested = true)
  | .ended .unknown _ => facts.followerCancelled = false ∧ (facts.ended = some .lost ∨ facts.ended = some .cancelled)
  | .ended .cancelled _ => facts.followerCancelled = true

/-- The follower has come as far by later facts. -/
theorem Following.mono {facts facts' : Facts ρ ε} {future future' : Option (EventsEnd ρ)} {follower : Follower ρ}
    (h : Following facts future follower) (cancelled : facts'.followerCancelled = facts.followerCancelled)
    (ended : ∀ end_, facts.ended = some end_ → facts'.ended = some end_)
    (requested : facts.abortRequested = true → facts'.abortRequested = true) (done : future.isSome → future'.isSome) :
    Following facts' future' follower := by
  cases follower with
  | none => exact cancelled.trans h
  | created => exact cancelled.trans h
  | sending => exact ⟨cancelled.trans h.1, requested h.2⟩
  | waiting aborted delivered => exact ⟨cancelled.trans h.1, requested ∘ h.2⟩
  | interrupted aborted delivered => exact ⟨cancelled.trans h.1, requested h.2⟩
  | leaving aborted => exact ⟨cancelled.trans h.1, requested ∘ h.2.1, done h.2.2⟩
  | ended end_ called =>
    cases end_ with
    | returned result => exact ⟨cancelled.trans h.1, ended _ h.2⟩
    | failed aborted => exact ⟨cancelled.trans h.1, ended _ h.2.1, requested ∘ h.2.2⟩
    | unknown => exact ⟨cancelled.trans h.1, h.2.imp (ended _) (ended _)⟩
    | cancelled => exact cancelled.trans h

/-- The code may still settle the outcome. -/
def TaskCall.Open (call : TaskCall ρ ε) : Prop :=
  call.phase ≠ .raised ∧ ∀ end_, call.follower ≠ .ended end_ true

structure Sound (facts : Facts ρ ε) (call : TaskCall ρ ε) : Prop where
  stage : Stage facts call.call.task call.follower call.phase
  ended : facts.ended = call.call.task.end?
  future : ∀ end_, call.call.future = some end_ → call.call.task = .ended end_
  following : Following facts call.call.future call.follower
  abort : call.abort = true → facts.abortRequested = true
  outcome : ∀ outcome, call.outcome = some outcome → facts.Justifies outcome
  cancelled : facts.futureCancelled = true → call.outcome = some .cancelled
  open_ : call.Open → ∀ outcome, call.outcome = some outcome → outcome = .cancelled
  closed : ¬ call.Open → call.outcome.isSome = true

variable {facts facts' : Facts ρ ε} {call call' : TaskCall ρ ε} {outcome : Outcome ρ} {label : CallLabel ρ ε}

theorem Sound.initial : Sound ({} : Facts ρ ε) {} where
  stage := ⟨rfl, rfl, rfl, rfl⟩
  ended := rfl
  future := fun end_ here => by cases here
  following := rfl
  abort := fun here => by cases here
  outcome := fun outcome here => by cases here
  cancelled := fun here => by cases here
  open_ := fun _ outcome here => by cases here
  closed := fun closed => by
    refine absurd ⟨?_, ?_⟩ closed
    · intro raised
      cases raised
    · intro end_ ended
      cases ended

section

variable (h : Sound facts call) (open_ : call.Open)
include h open_

/-- The outcome has not been settled by the code, unless it was cancelled. -/
theorem Sound.outcome_of_open :
    call.outcome = none ∧ facts.futureCancelled = false ∨ call.outcome = some .cancelled ∧ facts.futureCancelled = true := by
  cases settled : call.outcome with
  | none =>
    refine .inl ⟨rfl, Bool.eq_false_iff.2 fun cancelled => ?_⟩
    have other := h.cancelled cancelled
    rw [settled] at other
    cases other
  | some outcome =>
    obtain rfl := h.open_ open_ outcome settled
    exact .inr ⟨rfl, h.outcome _ settled⟩

/-- To settle an open outcome with what the facts say. -/
theorem Sound.settle (cancelled : facts'.futureCancelled = facts.futureCancelled)
    (justified : facts'.futureCancelled = false → facts'.Justifies outcome) {settled : TaskCall ρ ε}
    (same : settled.outcome = call.outcome) :
    (∀ outcome', (settled.settleOutcome outcome).outcome = some outcome' → facts'.Justifies outcome') ∧
      (facts'.futureCancelled = true → (settled.settleOutcome outcome).outcome = some .cancelled) ∧
      (settled.settleOutcome outcome).outcome.isSome = true := by
  unfold TaskCall.settleOutcome
  rw [same]
  rcases h.outcome_of_open open_ with ⟨none, uncancelled⟩ | ⟨there, isCancelled⟩
  · rw [none, if_neg (by simp)]
    refine ⟨fun outcome' here => ?_, fun other => ?_, rfl⟩
    · cases here
      exact justified (cancelled.trans uncancelled)
    · rw [cancelled, uncancelled] at other
      cases other
  · rw [there, if_pos (by simp), same, there]
    refine ⟨fun outcome' here => ?_, fun _ => rfl, rfl⟩
    cases here
    exact cancelled.trans isCancelled

/-- A step after which the outcome is open, as it was before. -/
theorem Sound.keep (open' : call'.Open) (same : call'.outcome = call.outcome)
    (cancelled : facts'.futureCancelled = facts.futureCancelled)
    (stage : Stage facts' call'.call.task call'.follower call'.phase) (ended : facts'.ended = call'.call.task.end?)
    (future : ∀ end_, call'.call.future = some end_ → call'.call.task = .ended end_)
    (following : Following facts' call'.call.future call'.follower)
    (abort : call'.abort = true → facts'.abortRequested = true) : Sound facts' call' := by
  refine ⟨stage, ended, future, following, abort, fun outcome here => ?_, fun fc => ?_, fun _ outcome here => ?_, absurd open'⟩
  · rw [same] at here
    obtain rfl := h.open_ open_ outcome here
    exact cancelled.trans (h.outcome _ here)
  · rw [same]
    exact h.cancelled (cancelled.symm.trans fc)
  · rw [same] at here
    exact h.open_ open_ outcome here

end

theorem outcome_settleOutcome : (call.settleOutcome outcome).phase = call.phase ∧
    (call.settleOutcome outcome).call = call.call ∧ (call.settleOutcome outcome).follower = call.follower ∧
    (call.settleOutcome outcome).abort = call.abort := by
  unfold TaskCall.settleOutcome
  split
  · exact ⟨rfl, rfl, rfl, rfl⟩
  · exact ⟨rfl, rfl, rfl, rfl⟩

/-- A step with which the code settles the outcome. -/
theorem Sound.close {settled : TaskCall ρ ε} (h : Sound facts call) (open_ : call.Open)
    (cancelled : facts'.futureCancelled = facts.futureCancelled)
    (justified : facts'.futureCancelled = false → facts'.Justifies outcome) (same : settled.outcome = call.outcome)
    (closed : ¬ settled.Open) (stage : Stage facts' settled.call.task settled.follower settled.phase)
    (ended : facts'.ended = settled.call.task.end?)
    (future : ∀ end_, settled.call.future = some end_ → settled.call.task = .ended end_)
    (following : Following facts' settled.call.future settled.follower)
    (abort : settled.abort = true → facts'.abortRequested = true) : Sound facts' (settled.settleOutcome outcome) := by
  obtain ⟨phase_, call_, follower_, abort_⟩ := @outcome_settleOutcome _ _ settled outcome
  obtain ⟨right, kept, done⟩ := h.settle open_ cancelled justified same
  have closed' : ¬ (settled.settleOutcome outcome).Open := by
    unfold TaskCall.Open
    rw [phase_, follower_]
    exact closed
  refine ⟨?_, ?_, ?_, ?_, ?_, right, kept, fun open' => absurd open' closed', fun _ => done⟩
  · rw [phase_, call_, follower_]
    exact stage
  · rw [call_]
    exact ended
  · rw [call_]
    exact future
  · rw [call_, follower_]
    exact following
  · rw [abort_]
    exact abort

/-- The follower has been started, and its callback has not run. -/
def Follower.Goes (follower : Follower ρ) : Prop :=
  follower ≠ .none ∧ ∀ end_, follower ≠ .ended end_ true

theorem goes_ended {end_ : FollowEnd ρ} : (Follower.ended end_ false).Goes :=
  ⟨nofun, fun _ same => by cases same⟩

/-! ## Each step -/

theorem open_of_phase (phase : call.phase ≠ .raised) (follower : call.follower = .none) : call.Open := by
  refine ⟨phase, fun end_ ended => ?_⟩
  rw [follower] at ended
  cases ended

/-- Without a follower, none has been cancelled. -/
theorem Sound.uncancelled (h : Sound facts call) (follower : call.follower = .none) : facts.followerCancelled = false := by
  have following := h.following
  rw [follower] at following
  exact following

theorem following_of_none {future : Option (EventsEnd ρ)} {follower : Follower ρ} (none : follower = .none)
    (uncancelled : facts.followerCancelled = false) : Following facts future follower := by
  rw [none]
  exact uncancelled

section

variable (h : Sound facts call)
include h

theorem Sound.send {ready : Bool} (step : call.step (.send ready) = some call') : Sound facts call' := by
  simp only [TaskCall.step, TaskCall.send] at step
  cases phase : call.phase with
  | unsent =>
    have stage := h.stage
    rw [phase] at step stage
    obtain ⟨reply, returned, task, follower⟩ := stage
    cases ready with
    | false =>
      cases step
      exact h
    | true =>
      cases step
      have open_ : call.Open := open_of_phase (by rw [phase]; nofun) follower
      exact h.keep open_ (open_of_phase nofun follower) rfl rfl ⟨reply, returned, task, follower⟩ h.ended h.future h.following
        h.abort
  | _ =>
    rw [phase] at step
    cases step
    exact h

theorem Sound.reply {reply : Reply ε} (step : call.step (.reply reply) = some call') :
    Sound (facts.follow (.reply reply)) call' := by
  simp only [TaskCall.step] at step
  split at step
  · rename_i phase
    cases step
    have stage := h.stage
    rw [phase] at stage
    obtain ⟨-, returned, task, follower⟩ := stage
    have open_ : call.Open := open_of_phase (by rw [phase]; nofun) follower
    have following (future : Option (EventsEnd ρ)) : Following (facts.follow (.reply reply)) future call.follower :=
      following_of_none follower (h.uncancelled follower)
    have ended := h.ended
    rw [task] at ended
    cases reply with
    | accepted execution =>
      exact h.keep open_ (open_of_phase nofun follower) rfl rfl ⟨rfl, returned, nofun, follower⟩ ended nofun (following _) h.abort
    | rejected execution =>
      have unaccepted : ¬ (facts.follow (.reply (.rejected execution))).Accepted := fun accepted => by
        obtain ⟨⟨_, same⟩, -⟩ := accepted
        cases same
      exact h.close open_ rfl (fun fc => ⟨fc, execution, rfl⟩) rfl (fun open' => open'.1 rfl) ⟨unaccepted, follower⟩ h.ended
        h.future (following _) h.abort
    | failed =>
      have unaccepted : ¬ (facts.follow (.reply .failed)).Accepted := fun accepted => by
        obtain ⟨⟨_, same⟩, -⟩ := accepted
        cases same
      exact h.close open_ rfl (fun fc => ⟨fc, nofun, fun followed => absurd followed.1 unaccepted⟩) rfl
        (fun open' => open'.1 rfl) ⟨unaccepted, follower⟩ h.ended h.future (following _) h.abort
  · cases step

theorem Sound.cancelSend (step : call.step .cancelSend = some call') : Sound facts call' := by
  have closes (phase : call.phase ≠ .raised) (follower : call.follower = .none) (unaccepted : ¬ facts.Accepted)
      (unrejected : ∀ execution, facts.reply ≠ some (.rejected execution)) :
      Sound facts ({ call with phase := .raised }.settleOutcome .unknown) :=
    h.close (open_of_phase phase follower) rfl (fun fc => ⟨fc, unrejected, fun followed => absurd followed.1 unaccepted⟩) rfl
      (fun open' => open'.1 rfl) ⟨unaccepted, follower⟩ h.ended h.future h.following h.abort
  have stage := h.stage
  simp only [TaskCall.step] at step
  split at step
  · rename_i phase
    cases step
    rw [phase] at stage
    obtain ⟨none, -, -, follower⟩ := stage
    refine closes (by rw [phase]; nofun) follower (fun accepted => ?_) fun execution same => ?_
    · obtain ⟨⟨_, same⟩, -⟩ := accepted
      rw [none] at same
      cases same
    · rw [none] at same
      cases same
  · rename_i execution phase
    cases step
    rw [phase] at stage
    obtain ⟨reply, waits, -, follower⟩ := stage
    refine closes (by rw [phase]; nofun) follower (fun accepted => ?_) fun execution same => ?_
    · rw [accepted.2] at waits
      cases waits
    · rw [reply] at same
      cases same
  · cases step

/-- The event task goes on, or ends. -/
theorem Sound.task {started : Bool} (task : EventTask ρ) (running : call.call.task = .running started)
    (goes : task ≠ .none) : Sound { facts with ended := task.end? } { call with call := { call.call with task } } := by
  have ended := h.ended
  rw [running] at ended
  have future : call.call.future = none := by
    cases there : call.call.future with
    | none => rfl
    | some end_ =>
      have other := h.future end_ there
      rw [running] at other
      cases other
  have stage := h.stage
  refine ⟨?_, rfl, fun end_ there => ?_, ?_, h.abort, fun outcome settled => ?_, h.cancelled, h.open_, h.closed⟩
  · show Stage _ task call.follower call.phase
    cases phase : call.phase with
    | unsent =>
      rw [phase] at stage
      exact absurd (running.symm.trans stage.2.2.1) nofun
    | invoking =>
      rw [phase] at stage
      exact absurd (running.symm.trans stage.2.2.1) nofun
    | accepted execution =>
      rw [phase] at stage
      exact ⟨stage.1, stage.2.1, goes, stage.2.2.2⟩
    | returned execution =>
      rw [phase] at stage
      exact ⟨stage.1, stage.2.1, goes, stage.2.2.2⟩
    | raised =>
      rw [phase] at stage
      exact stage
  · rw [show call.call.future = some end_ from there] at future
    cases future
  · exact h.following.mono rfl (fun _ there => absurd (ended.symm.trans there) nofun) id id
  · have right := h.outcome outcome settled
    cases outcome with
    | result result => exact absurd (ended.symm.trans right.2.2) nofun
    | rejected => exact right
    | failed aborted => exact absurd (ended.symm.trans right.2.2.1) nofun
    | unknown =>
      refine ⟨right.1, right.2.1, fun followed => ?_⟩
      exact (right.2.2 followed).elim (fun lost => absurd (ended.symm.trans lost) nofun) fun lost => absurd (ended.symm.trans lost) nofun
    | cancelled => exact right

theorem Sound.event {event : CallEvent ρ} (step : call.step (.event event) = some call') :
    Sound (facts.follow (.event event)) call' := by
  obtain ⟨long, consumed, rfl⟩ := Option.map_eq_some_iff.1 step
  unfold LongCall.consume at consumed
  split at consumed
  · rename_i started running
    cases consumed
    have ended := h.ended
    rw [running] at ended
    have same : facts = { facts with ended := none } := by
      cases facts
      subst ended
      rfl
    cases event with
    | running =>
      have kept := h.task (.running true) running nofun
      rwa [show EventTask.end? (.running true : EventTask ρ) = none from rfl, ← same] at kept
    | success payload =>
      cases payload with
      | some result => exact h.task (.ended (.success result)) running nofun
      | none => exact h.task (.ended .lost) running nofun
    | failure => exact h.task (.ended .failure) running nofun
  · cases consumed

theorem Sound.stop {long : LongCall ρ} (stopped : call.call.stop end_ = some long) :
    Sound { facts with ended := some end_ } { call with call := long } := by
  unfold LongCall.stop at stopped
  split at stopped
  · rename_i started running
    cases stopped
    exact h.task (.ended end_) running nofun
  · cases stopped

theorem Sound.longCallDone (step : call.step .longCallDone = some call') : Sound facts call' := by
  obtain ⟨long, done, rfl⟩ := Option.map_eq_some_iff.1 step
  unfold LongCall.longCallDone at done
  split at done
  · rename_i end_ task none
    cases done
    refine ⟨h.stage, h.ended, fun end' there => ?_, ?_, h.abort, h.outcome, h.cancelled, h.open_, h.closed⟩
    · cases there
      exact task
    · exact h.following.mono rfl (fun _ => id) id fun _ => rfl
  · cases done

theorem Sound.invoked (step : call.step .invoked = some call') : Sound (facts.follow .invoked) call' := by
  simp only [TaskCall.step] at step
  split at step
  · rename_i execution phase
    split at step
    · cases step
      have stage := h.stage
      rw [phase] at stage
      obtain ⟨reply, waits, task, follower⟩ := stage
      have open_ : call.Open := open_of_phase (by rw [phase]; nofun) follower
      have uncancelled := h.uncancelled follower
      cases execution with
      | none =>
        have unaccepted : ¬ (facts.follow .invoked).Accepted := fun accepted => by
          obtain ⟨⟨_, same⟩, -⟩ := accepted
          exact absurd (reply.symm.trans same) (by simp)
        refine h.close open_ rfl (fun fc => ⟨fc, fun execution same => ?_, fun followed => absurd followed.1 unaccepted⟩) rfl
          (fun open' => open'.1 rfl) ⟨unaccepted, follower⟩ h.ended h.future (following_of_none follower uncancelled) h.abort
        exact absurd (reply.symm.trans same) (by simp)
      | some execution =>
        exact h.keep open_ ⟨nofun, nofun⟩ rfl rfl ⟨reply, rfl, task, nofun⟩ h.ended h.future uncancelled h.abort
    · cases step
  · cases step

theorem Sound.requestAbort : Sound (facts.follow .abort) { call with abort := true } := by
  refine ⟨?_, h.ended, h.future, ?_, fun _ => rfl, fun outcome settled => ?_, h.cancelled, h.open_, h.closed⟩
  · have stage := h.stage
    show Stage _ call.call.task call.follower call.phase
    cases phase : call.phase <;> rw [phase] at stage <;> exact stage
  · exact h.following.mono rfl (fun _ => id) (fun _ => rfl) id
  · have right := h.outcome outcome settled
    cases outcome with
    | failed aborted => exact ⟨right.1, right.2.1, right.2.2.1, fun _ => rfl⟩
    | _ => exact right

end

/-- What the follower concludes from the end of the events is what the facts say. -/
theorem following_conclude {aborted called : Bool} {future : Option (EventsEnd ρ)}
    (uncancelled : facts.followerCancelled = false) (ended : facts.ended = some end_)
    (requested : aborted = true → facts.abortRequested = true) :
    Following facts future (.ended (TaskCall.conclude aborted end_) called) := by
  cases end_ with
  | success result => exact ⟨uncancelled, ended⟩
  | failure => exact ⟨uncancelled, ended, requested⟩
  | lost => exact ⟨uncancelled, .inl ended⟩
  | cancelled => exact ⟨uncancelled, .inr ended⟩

theorem Sound.ended_of_future (h : Sound facts call) (there : call.call.future = some end_) :
    facts.ended = some end_ := by
  rw [h.ended, h.future end_ there]
  rfl

theorem Sound.following_loop {aborted delivered : Bool} (h : Sound facts call)
    (uncancelled : facts.followerCancelled = false) (requested : aborted = true → facts.abortRequested = true) :
    Following facts call.call.future (call.loop aborted delivered) := by
  unfold TaskCall.loop
  cases there : call.call.future with
  | some end_ => exact following_conclude uncancelled (h.ended_of_future there) requested
  | none =>
    dsimp only
    split
    · rename_i abort
      exact ⟨uncancelled, h.abort abort⟩
    · exact ⟨uncancelled, requested⟩

theorem goes_loop {aborted delivered : Bool} : (call.loop aborted delivered).Goes := by
  unfold TaskCall.loop
  split
  · exact goes_ended
  · split
    · exact ⟨nofun, nofun⟩
    · exact ⟨nofun, nofun⟩

section

variable (h : Sound facts call)
include h

/-- A step of a follower that goes on, and is not cancelled. -/
theorem Sound.advance {follower : Follower ρ} {abort : Bool} {aborts : List AbortEnd} (before : call.follower.Goes)
    (after : follower.Goes) (cancelled : facts'.futureCancelled = facts.futureCancelled)
    (reply : facts'.reply = facts.reply) (returned : facts'.returned = facts.returned)
    (ended : facts'.ended = facts.ended) (requested : facts'.abortRequested = facts.abortRequested)
    (following : Following facts' call.call.future follower) (lowers : abort = true → call.abort = true) :
    Sound facts' { call with follower, abort, aborts } := by
  have stage := h.stage
  have phase : call.phase ≠ .raised := by
    intro raised
    rw [raised] at stage
    exact before.1 stage.2
  refine h.keep ⟨phase, before.2⟩ ⟨phase, after.2⟩ rfl cancelled ?_ (ended.trans h.ended) h.future following fun abort => ?_
  · show Stage _ call.call.task follower call.phase
    cases at_ : call.phase with
    | unsent =>
      rw [at_] at stage
      exact absurd stage.2.2.2 before.1
    | invoking =>
      rw [at_] at stage
      exact absurd stage.2.2.2 before.1
    | accepted execution =>
      rw [at_] at stage
      exact absurd stage.2.2.2 before.1
    | returned execution =>
      rw [at_] at stage
      exact ⟨reply.trans stage.1, returned.trans stage.2.1, stage.2.2.1, after.1⟩
    | raised => exact absurd at_ phase
  · rw [requested]
    exact h.abort (lowers abort)

theorem Sound.follow (step : call.step .follow = some call') : Sound facts call' := by
  have following := h.following
  simp only [TaskCall.step] at step
  split at step
  · rename_i created
    cases step
    rw [created] at following
    exact h.advance (by rw [created]; exact ⟨nofun, nofun⟩) goes_loop rfl rfl rfl rfl rfl (h.following_loop following nofun) id
  · rename_i aborted delivered waiting
    rw [waiting] at following
    have before : call.follower.Goes := by
      rw [waiting]
      exact ⟨nofun, nofun⟩
    split at step
    · rename_i done
      cases step
      exact h.advance before ⟨nofun, nofun⟩ rfl rfl rfl rfl rfl ⟨following.1, following.2, done⟩ id
    · split at step
      · rename_i abort
        cases step
        exact h.advance before ⟨nofun, nofun⟩ rfl rfl rfl rfl rfl ⟨following.1, h.abort abort⟩ id
      · cases step
  · rename_i aborted delivered interrupted
    cases step
    rw [interrupted] at following
    have before : call.follower.Goes := by
      rw [interrupted]
      exact ⟨nofun, nofun⟩
    have lowered : Sound facts { call with abort := false } :=
      ⟨h.stage, h.ended, h.future, h.following, nofun, h.outcome, h.cancelled, h.open_, h.closed⟩
    refine lowered.advance before ?_ rfl rfl rfl rfl rfl ?_ id
    · split
      · exact goes_loop
      · exact ⟨nofun, nofun⟩
    · split
      · exact lowered.following_loop following.1 fun _ => following.2
      · exact following
  · rename_i aborted leaving
    obtain ⟨end_, there, rfl⟩ := Option.map_eq_some_iff.1 step
    rw [leaving] at following
    refine h.advance (by rw [leaving]; exact ⟨nofun, nofun⟩) goes_ended rfl rfl rfl rfl rfl ?_ id
    exact following_conclude following.1 (h.ended_of_future there) following.2.1
  · cases step

theorem Sound.abortReply {end_ : AbortEnd} (step : call.step (.abortReply end_) = some call') : Sound facts call' := by
  simp only [TaskCall.step] at step
  split at step
  · rename_i sending
    cases step
    have following := h.following
    rw [sending] at following
    refine h.advance (by rw [sending]; exact ⟨nofun, nofun⟩) goes_loop rfl rfl rfl rfl rfl ?_ id
    exact h.following_loop following.1 fun _ => following.2
  · cases step

theorem Sound.cancelFollower {accepted : Bool} (step : call.step (.cancelFollower accepted) = some call') :
    Sound (facts.follow (.cancelFollower accepted)) call' := by
  have cancels {aborts : List AbortEnd} (before : call.follower.Goes) :
      Sound (facts.follow (.cancelFollower accepted)) { call with follower := .ended .cancelled false, aborts } :=
    h.advance before goes_ended rfl rfl rfl rfl rfl rfl id
  simp only [TaskCall.step] at step
  split at step
  · rename_i created
    cases step
    exact cancels (by rw [created]; exact ⟨nofun, nofun⟩)
  · rename_i waiting
    cases step
    exact cancels (by rw [waiting]; exact ⟨nofun, nofun⟩)
  · rename_i interrupted
    cases step
    exact cancels (by rw [interrupted]; exact ⟨nofun, nofun⟩)
  · rename_i leaving
    cases step
    exact cancels (by rw [leaving]; exact ⟨nofun, nofun⟩)
  · rename_i sending
    cases step
    exact cancels (by rw [sending]; exact ⟨nofun, nofun⟩)
  · cases step

theorem Sound.settles (step : call.step .settle = some call') : Sound facts call' := by
  simp only [TaskCall.step] at step
  split at step
  · rename_i end_ ended
    cases step
    have following := h.following
    have stage := h.stage
    rw [ended] at following stage
    cases phase : call.phase with
    | returned execution =>
      rw [phase] at stage
      obtain ⟨reply, returned, task, -⟩ := stage
      have accepted : facts.Accepted := ⟨⟨execution, reply⟩, returned⟩
      have open_ : call.Open := ⟨by rw [phase]; nofun, by rw [ended]; exact goes_ended.2⟩
      refine h.close open_ rfl (fun fc => ?_) rfl (fun open' => open'.2 end_ rfl) ?_ h.ended h.future ?_ h.abort
      · cases end_ with
        | returned result => exact ⟨fc, ⟨accepted, following.1⟩, following.2⟩
        | failed aborted => exact ⟨fc, ⟨accepted, following.1⟩, following.2⟩
        | unknown =>
          refine ⟨fc, fun execution same => ?_, fun _ => following.2⟩
          rw [reply] at same
          cases same
        | cancelled =>
          refine ⟨fc, fun execution same => ?_, fun followed => ?_⟩
          · rw [reply] at same
            cases same
          · have isCancelled : facts.followerCancelled = true := following
            have uncancelled := followed.2
            rw [isCancelled] at uncancelled
            cases uncancelled
      · exact ⟨reply, returned, task, nofun⟩
      · cases end_ <;> exact following
    | _ =>
      rw [phase] at stage
      simp [Stage] at stage
  · cases step

theorem Sound.cancelFuture (step : call.step .cancelFuture = some call') :
    Sound (facts.follow .cancelFuture) call' := by
  simp only [TaskCall.step] at step
  split at step
  · cases step
  · rename_i unsettled
    cases step
    have open_ : call.Open := Classical.byContradiction fun closed => unsettled (h.closed closed)
    refine ⟨?_, h.ended, h.future, ?_, h.abort, fun outcome settled => ?_, fun _ => rfl, fun _ outcome settled => ?_,
      absurd open_⟩
    · have stage := h.stage
      show Stage _ call.call.task call.follower call.phase
      cases phase : call.phase <;> rw [phase] at stage <;> exact stage
    · exact h.following.mono rfl (fun _ => id) id id
    · cases settled
      rfl
    · exact (Option.some.inj settled).symm

/-- Each step keeps the invariant. -/
theorem Sound.step (step : call.step label = some call') : Sound (facts.follow label) call' := by
  cases label with
  | send ready => exact h.send step
  | reply reply => exact h.reply step
  | cancelSend => exact h.cancelSend step
  | event event => exact h.event step
  | loseEvents =>
    obtain ⟨long, stopped, rfl⟩ := Option.map_eq_some_iff.1 step
    exact h.stop stopped
  | cancelEvents =>
    obtain ⟨long, stopped, rfl⟩ := Option.map_eq_some_iff.1 step
    exact h.stop stopped
  | longCallDone => exact h.longCallDone step
  | invoked => exact h.invoked step
  | abort =>
    cases step
    exact h.requestAbort
  | follow => exact h.follow step
  | abortReply end_ => exact h.abortReply step
  | cancelFollower accepted => exact h.cancelFollower step
  | settle => exact h.settles step
  | cancelFuture => exact h.cancelFuture step

/-- A run keeps it. -/
theorem Sound.run {labels : List (CallLabel ρ ε)} (ran : exec TaskCall.step call labels = some call') :
    Sound (labels.foldl Facts.follow facts) call' := by
  induction labels generalizing facts call with
  | nil =>
    cases ran
    exact h
  | cons label labels ih =>
    obtain ⟨next, step, rest⟩ := exec_cons_eq_some.1 ran
    exact ih (h.step step) rest

end

end SensorKit.Core.TaskCalls
