import SensorKit.Sensor.Dispatch
import SensorKit.Sensor.Lowering

/-!
# One call, one account

Whatever order calls, timeouts and cancellations of the caller come in, `perform` records its attempt before
the call, notifies one begin and one terminal event, and attempts one Abort for a dropped call. It ends
when its tasks have, and raises the first cancellation of its caller if one has arrived.
-/

namespace SensorKit.Sensor

open Lib

variable {κ ν : Type}

/-- What a run of `perform` has done so far. -/
structure Account (κ ν : Type) where
  /-- The command has been given to the client. -/
  sent : Bool
  /-- An Abort has been given to the client. -/
  aborted : Bool
  interruption : Option Interruption
  terminal : Option (OperationOutcome ν)

/-- The deeds of an account: an attempt and a begin event, then the call, the Abort and its outcome, then
a terminal event. -/
def Account.deeds (a : Account κ ν) (operation : Operation) (node : ℕ) (command : Outgoing κ) : List (Deed κ ν) :=
  [.attempt operation, .notify ⟨operation, node, .begin⟩] ++ (if a.sent then [.send command] else []) ++
    (if a.aborted then [.abort] else []) ++ a.interruption.toList.map .interrupted ++
    a.terminal.toList.map fun outcome => .notify ⟨operation, node, outcome⟩

namespace OwnedTask

variable {task task' : OwnedTask ν} {ending : CallEnd ν}

theorem sent_cancel : task.cancel.sent = task.sent := by
  cases task <;> rfl

theorem begins_eq_some (h : task.begins = some task') : task = .created false ∧ task' = .running := by
  unfold begins at h
  split at h
  · exact ⟨rfl, (Option.some.inj h).symm⟩
  · cases h

theorem ends_eq_some (h : task.ends ending = some task') :
    task.done = false ∧ task'.sent = task.sent := by
  unfold ends at h
  split at h
  · cases h
    exact ⟨rfl, rfl⟩
  · split at h
    · cases h
      exact ⟨rfl, rfl⟩
    · cases h
  · cases h

end OwnedTask

/-- What a wake does: it may cancel the task, and holds the first cancellation of the caller. -/
theorem OwnedWait.resume_eq_some {seconds : Option ℚ} {interruptible : Bool} {arrived : ℕ} {task task' : OwnedTask ν}
    {w w' : OwnedWait} {cause : Wake} (h : w.resume seconds interruptible arrived task cause = some (task', w')) :
    task'.sent = task.sent ∧
      w'.cancelled = if cause = .cancelled then w.cancelled.or (some arrived) else w.cancelled := by
  cases cause with
  | done =>
    simp only [resume] at h
    split_ifs at h
    split at h
    · cases h
      exact ⟨OwnedTask.sent_cancel, rfl⟩
    · cases h
      exact ⟨rfl, rfl⟩
  | timeout =>
    simp only [resume] at h
    split_ifs at h
    cases h
    exact ⟨OwnedTask.sent_cancel, rfl⟩
  | cancelled =>
    simp only [resume] at h
    split_ifs at h
    · cases h
      exact ⟨OwnedTask.sent_cancel, rfl⟩
    · cases h
      exact ⟨rfl, rfl⟩

namespace Performing

variable {d : Dispatcher κ} {operation : Operation} {node : ℕ} {s t : Performing κ ν} {command : Outgoing κ}
  {call : CallEnd ν} {sent : Bool} {expired : Bool} {cancelled : Option ℕ}

/-- The first of the cancellations that have arrived. -/
def firstOf (cancellations : ℕ) : Option ℕ :=
  if cancellations = 0 then none else some 0

/-- A further cancellation is held if it is the first. -/
theorem firstOf_succ (n : ℕ) : (firstOf n).or (some n) = firstOf (n + 1) := by
  cases n <;> simp [firstOf]

section Arrive

variable (cause : Wake)

@[simp] theorem arrive_phase : (s.arrive cause).phase = s.phase := by
  unfold arrive
  split_ifs <;> rfl

@[simp] theorem arrive_call : (s.arrive cause).call = s.call := by
  unfold arrive
  split_ifs <;> rfl

@[simp] theorem arrive_abort : (s.arrive cause).abort = s.abort := by
  unfold arrive
  split_ifs <;> rfl

theorem arrive_deeds : (s.arrive cause).deeds = s.deeds := by
  unfold arrive
  split_ifs <;> rfl

theorem arrive_firstOf : firstOf (s.arrive cause).cancellations =
    if cause = .cancelled then (firstOf s.cancellations).or (some s.cancellations) else firstOf s.cancellations := by
  unfold arrive
  split_ifs
  · exact (firstOf_succ _).symm
  · rfl

end Arrive

/-- The call of the run has ended in this way. -/
def CallEnded (s : Performing κ ν) (call : CallEnd ν) : Prop :=
  ∃ command sent, s.call = some (command, .ended sent call)

/-- What a run has come to when it has ended. -/
structure Closed (operation : Operation) (s : Performing κ ν) (a : Account κ ν) (ending : PerformEnding ν) : Prop where
  terminal : ∃ outcome, a.terminal = some outcome ∧ outcome ≠ .begin
  /-- Its tasks have ended. -/
  abort : ∀ abort, s.abort = some abort → abort.done = true
  /-- An Abort outcome is recorded if and only if the call was dropped. The first cancellation that arrived is
  raised, and without one the call's own end. -/
  call : ∃ call, s.CallEnded call ∧ (a.interruption.isSome = true ↔ call.dropped = true) ∧
    (0 < s.cancellations → ending = .raised (.cancelled (some 0))) ∧
    (s.cancellations = 0 → ∃ expired, ending = (concluded operation call expired none).2)

/-- **The account of a run.** -/
structure Accounted (d : Dispatcher κ) (operation : Operation) (node : ℕ) (command : Outgoing κ) (s : Performing κ ν)
    (a : Account κ ν) : Prop where
  deeds : s.deeds = a.deeds operation node command
  /-- An Abort is sent only for a call that was dropped, to a device that supports it. -/
  aborted : a.aborted = true → d.supportsAbort operation.target.device = true ∧
    ∃ call, s.CallEnded call ∧ call.dropped = true
  /-- There is no terminal event before the end, and no Abort outcome before the call has ended. -/
  going : (∀ ending, s.phase ≠ .ended ending) → a.terminal = none ∧ a.interruption = none
  ended : ∀ ending, s.phase = .ended ending → Closed operation s a ending

/-- Where a run is, with its account. -/
def Sound (d : Dispatcher κ) (operation : Operation) (node : ℕ) (command : Outgoing κ) (s : Performing κ ν) : Prop :=
  match s.phase with
  | .calling wait => ∃ task, s.call = some (command, task) ∧ s.abort = none ∧
      wait.cancelled = firstOf s.cancellations ∧
      s.deeds = Account.deeds ⟨task.sent, false, none, none⟩ operation node command
  | .aborting _ cancelled wait => ∃ sent call abort, s.call = some (command, .ended sent call) ∧
      call.dropped = true ∧ d.supportsAbort operation.target.device = true ∧ s.abort = some abort ∧
      cancelled.or wait.cancelled = firstOf s.cancellations ∧
      s.deeds = Account.deeds ⟨sent, abort.sent, none, none⟩ operation node command
  | .ended ending => ∃ a, s.deeds = Account.deeds a operation node command ∧
      (a.aborted = true → d.supportsAbort operation.target.device = true ∧ ∃ call, s.CallEnded call ∧ call.dropped = true) ∧
      Closed operation s a ending

theorem Sound.accounted (h : s.Sound d operation node command) : ∃ a, Accounted d operation node command s a := by
  unfold Sound at h
  split at h
  · rename_i wait phase
    obtain ⟨task, -, -, -, deeds⟩ := h
    exact ⟨_, deeds, by simp, fun _ => ⟨rfl, rfl⟩, fun ending same => by simp [phase] at same⟩
  · rename_i expired cancelled wait phase
    obtain ⟨sent, call, abort, ended, dropped, supported, -, -, deeds⟩ := h
    exact ⟨_, deeds, fun _ => ⟨supported, call, ⟨_, _, ended⟩, dropped⟩, fun _ => ⟨rfl, rfl⟩,
      fun ending same => by simp [phase] at same⟩
  · rename_i ending phase
    obtain ⟨a, deeds, aborted, closed⟩ := h
    refine ⟨a, deeds, aborted, fun going => absurd phase (going ending), fun ending' same => ?_⟩
    obtain rfl : ending = ending' := by simpa [phase] using same
    exact closed

/-- **The end of a run**, whose Abort outcome has been recorded if its call was dropped. -/
theorem sound_conclude {aborted : Bool} {interruption : Option Interruption} (ended : s.call = some (command, .ended sent call))
    (deeds : s.deeds = Account.deeds ⟨sent, aborted, interruption, none⟩ operation node command)
    (supported : aborted = true → d.supportsAbort operation.target.device = true)
    (abort : ∀ abort, s.abort = some abort → abort.done = true) (dropped : aborted = true → call.dropped = true)
    (recorded : interruption.isSome = true ↔ call.dropped = true) (first : cancelled = firstOf s.cancellations) :
    (s.conclude operation node call expired cancelled).Sound d operation node command := by
  have here : (s.conclude operation node call expired cancelled).CallEnded call := ⟨command, sent, ended⟩
  refine ⟨⟨sent, aborted, interruption, some (concluded operation call expired cancelled).1⟩, ?_,
    fun sent => ⟨supported sent, call, here, dropped sent⟩, ⟨_, rfl, ?_⟩, abort, call, here, recorded, fun some_ => ?_,
    fun none_ => ⟨expired, ?_⟩⟩
  · simp [conclude, notify, deeds, Account.deeds]
  · unfold concluded
    split
    · simp
    · simp
    · split_ifs <;> simp
  · have arrived : 0 < s.cancellations := some_
    obtain rfl : cancelled = some 0 := by simpa [firstOf, arrived.ne'] using first
    rfl
  · have none_ : s.cancellations = 0 := none_
    obtain rfl : cancelled = none := by simpa [firstOf, none_] using first
    rfl

theorem sound_start (known : operation.target.device ∈ d.clients) (builds : d.outgoing operation = .ok command) :
    (start d operation node : Performing κ ν).Sound d operation node command := by
  simp only [start, known, builds, not_true, if_false]
  exact ⟨.created false, rfl, rfl, rfl, rfl⟩

/-- The run goes on from a call that has ended. -/
theorem sound_afterCall {wait : OwnedWait} (ended : s.call = some (command, .ended sent call)) (abort : s.abort = none)
    (first : wait.cancelled = firstOf s.cancellations)
    (deeds : s.deeds = Account.deeds ⟨sent, false, none, none⟩ operation node command) :
    (s.afterCall d operation node call expired wait.cancelled).Sound d operation node command := by
  unfold afterCall
  split_ifs with dropped supported
  · refine ⟨sent, call, _, ended, dropped, supported, rfl, ?_, deeds⟩
    simpa using first
  · have recorded : s.deeds ++ [Deed.interrupted .unsupported] =
        Account.deeds ⟨sent, false, some .unsupported, none⟩ operation node command := by simp [deeds, Account.deeds]
    exact sound_conclude ended recorded (by simp) (by simp [abort]) (by simp) (by simp [dropped]) first
  · exact sound_conclude ended deeds (by simp) (by simp [abort]) (by simp) (by simpa using dropped) first

/-- The run goes on from an Abort that has ended. -/
theorem sound_afterAbort {abort : CallEnd ν} {abortSent abortExpired : Bool} {wait : OwnedWait}
    (ended : s.call = some (command, .ended sent call)) (dropped : call.dropped = true)
    (supported : d.supportsAbort operation.target.device = true) (aborted : s.abort = some (.ended abortSent abort))
    (first : cancelled.or wait.cancelled = firstOf s.cancellations)
    (deeds : s.deeds = Account.deeds ⟨sent, abortSent, none, none⟩ operation node command) :
    (s.afterAbort operation node call expired cancelled abort abortExpired wait.cancelled).Sound d operation node command := by
  unfold afterAbort
  have recorded : s.deeds ++ [Deed.interrupted (interruption abort abortExpired)] =
      Account.deeds ⟨sent, abortSent, some (interruption abort abortExpired), none⟩ operation node command := by
    simp [deeds, Account.deeds]
  refine sound_conclude ended recorded (fun _ => supported) (fun task same => ?_) (fun _ => dropped) (by simp [dropped]) first
  cases aborted.symm.trans same
  rfl

/-- **A wait that goes on** keeps the account. -/
theorem Sound.wake {cause : Wake} (h : s.Sound d operation node command) (hs : s.wake d operation node cause = some t) :
    t.Sound d operation node command := by
  simp only [Performing.wake, arrive_phase, arrive_call] at hs
  unfold Sound at h
  split at h
  · rename_i wait phase
    obtain ⟨task, called, none_, first, deeds⟩ := h
    rw [phase, called] at hs
    simp only [Option.bind_eq_bind, Option.bind_eq_some_iff] at hs
    obtain ⟨⟨task', wait'⟩, resumed, hs⟩ := hs
    obtain ⟨sent, held⟩ := OwnedWait.resume_eq_some resumed
    rw [first, ← arrive_firstOf] at held
    rw [← sent, ← arrive_deeds cause] at deeds
    rw [← arrive_abort cause] at none_
    dsimp only at hs
    split at hs
    · cases hs
      exact sound_afterCall rfl none_ held deeds
    · cases hs
      exact ⟨_, rfl, none_, held, deeds⟩
  · rename_i expired cancelled wait phase
    obtain ⟨sent, call, abort, called, dropped, supported, aborting, first, deeds⟩ := h
    rw [phase, called] at hs
    simp only [arrive_abort, aborting, Option.bind_eq_bind, Option.bind_some, Option.bind_eq_some_iff] at hs
    obtain ⟨⟨abort', wait'⟩, resumed, hs⟩ := hs
    obtain ⟨same, held⟩ := OwnedWait.resume_eq_some resumed
    rw [← same, ← arrive_deeds cause] at deeds
    have first' : cancelled.or wait'.cancelled = firstOf (s.arrive cause).cancellations := by
      rw [held, arrive_firstOf, ← first]
      split_ifs
      · rw [Option.or_assoc]
      · rfl
    dsimp only at hs
    split at hs
    · cases hs
      exact sound_afterAbort rfl dropped supported rfl first' deeds
    · cases hs
      exact ⟨sent, call, _, rfl, dropped, supported, rfl, first', deeds⟩
  · rename_i ending phase
    simp [phase] at hs

/-- **A step keeps the account.** -/
theorem Sound.step {label : PerformLabel ν} (h : s.Sound d operation node command)
    (hs : s.step d operation node label = some t) : t.Sound d operation node command := by
  cases label with
  | callBegins =>
    simp only [Performing.step, Option.bind_eq_bind, Option.bind_eq_some_iff, Option.pure_def, Option.some.injEq] at hs
    obtain ⟨⟨command', task⟩, present, task', begins, rfl⟩ := hs
    obtain ⟨rfl, rfl⟩ := OwnedTask.begins_eq_some begins
    unfold Sound at h ⊢
    dsimp only
    split at h
    · obtain ⟨task, called, abort, first, deeds⟩ := h
      cases called.symm.trans present
      refine ⟨.running, rfl, abort, first, ?_⟩
      simp [deeds, Account.deeds, OwnedTask.sent]
    · obtain ⟨sent, call, abort, called, -⟩ := h
      simp [called] at present
    · obtain ⟨a, -, -, closed⟩ := h
      obtain ⟨call, ⟨_, _, called⟩, -⟩ := closed.call
      simp [called] at present
  | callEnds call =>
    simp only [Performing.step, Option.bind_eq_bind, Option.bind_eq_some_iff, Option.pure_def, Option.some.injEq] at hs
    obtain ⟨⟨command', task⟩, present, task', ends, rfl⟩ := hs
    obtain ⟨going, same⟩ := OwnedTask.ends_eq_some ends
    unfold Sound at h ⊢
    dsimp only
    split at h
    · obtain ⟨task, called, abort, first, deeds⟩ := h
      cases called.symm.trans present
      exact ⟨task', rfl, abort, first, by rw [same]; exact deeds⟩
    · obtain ⟨sent, call, abort, called, -⟩ := h
      cases called.symm.trans present
      cases going
    · obtain ⟨a, -, -, closed⟩ := h
      obtain ⟨call, ⟨_, _, called⟩, -⟩ := closed.call
      cases called.symm.trans present
      cases going
  | abortBegins =>
    simp only [Performing.step, Option.bind_eq_bind, Option.bind_eq_some_iff, Option.pure_def, Option.some.injEq] at hs
    obtain ⟨abort, present, abort', begins, rfl⟩ := hs
    obtain ⟨rfl, rfl⟩ := OwnedTask.begins_eq_some begins
    unfold Sound at h ⊢
    dsimp only
    split at h
    · obtain ⟨task, called, none_, -⟩ := h
      simp [none_] at present
    · obtain ⟨sent, call, abort, called, dropped, supported, aborting, first, deeds⟩ := h
      cases aborting.symm.trans present
      refine ⟨sent, call, .running, called, dropped, supported, rfl, first, ?_⟩
      simp [deeds, Account.deeds, OwnedTask.sent]
    · obtain ⟨a, -, -, closed⟩ := h
      have done := closed.abort _ present
      cases done
  | abortEnds ending =>
    simp only [Performing.step, Option.bind_eq_bind, Option.bind_eq_some_iff, Option.pure_def, Option.some.injEq] at hs
    obtain ⟨abort, present, abort', ends, rfl⟩ := hs
    obtain ⟨going, same⟩ := OwnedTask.ends_eq_some ends
    unfold Sound at h ⊢
    dsimp only
    split at h
    · obtain ⟨task, called, none_, -⟩ := h
      simp [none_] at present
    · obtain ⟨sent, call, abort, called, dropped, supported, aborting, first, deeds⟩ := h
      cases aborting.symm.trans present
      exact ⟨sent, call, abort', called, dropped, supported, rfl, first, by rw [same]; exact deeds⟩
    · obtain ⟨a, -, -, closed⟩ := h
      simp [closed.abort _ present] at going
  | wake cause => exact h.wake hs

/-- What a run waits for has ended: its call, or the Abort of its call. -/
def Awaited (s : Performing κ ν) : Prop :=
  match s.phase with
  | .calling _ => ∃ command task, s.call = some (command, task) ∧ task.done = true
  | .aborting _ _ _ => ∃ abort, s.abort = some abort ∧ abort.done = true
  | .ended _ => False

/-- How far a run has come. -/
def stage (s : Performing κ ν) : ℕ :=
  match s.phase with
  | .calling _ => 0
  | .aborting _ _ _ => 1
  | .ended _ => 2

/-- A wait for a task that has ended is over. -/
theorem returned_of_done {seconds : Option ℚ} {interruptible : Bool} {arrived : ℕ} {task : OwnedTask ν} {w : OwnedWait}
    (done : task.done = true) : ∃ w' expired, w.resume seconds interruptible arrived task .done = some (task, w') ∧
      w'.returned task = some expired := by
  cases task with
  | created => cases done
  | running => cases done
  | ended sent ending =>
    cases draining : w.draining with
    | none => exact ⟨{ w with draining := some false }, false,
        by simp [OwnedWait.resume, OwnedWait.stop, OwnedTask.done, OwnedTask.cancel, draining], rfl⟩
    | some expired =>
      exact ⟨w, expired, by simp [OwnedWait.resume, OwnedTask.done, draining], by simp [OwnedWait.returned, OwnedTask.done, draining]⟩

/-- **A run whose task has ended goes on**, from the call to its Abort or its end, and from the Abort to its end. -/
theorem Sound.goes_on (h : s.Sound d operation node command) (awaited : s.Awaited) :
    ∃ t, s.step d operation node (.wake .done) = some t ∧ s.stage < t.stage := by
  unfold Sound at h
  unfold Awaited at awaited
  have arrived : s.arrive .done = s := rfl
  simp only [Performing.step, Performing.wake, arrived]
  cases phase : s.phase with
  | calling wait =>
    simp only [phase] at h awaited
    obtain ⟨command, task, called, done⟩ := awaited
    have finished : ∃ w expired, wait.resume operation.timeoutS true s.cancellations task .done = some (task, w) ∧
        w.returned task = some expired := returned_of_done done
    obtain ⟨wait', expired, resumed, returned⟩ := finished
    cases task with
    | created => cases done
    | running => cases done
    | ended sent call =>
      simp only [called, resumed, returned, Option.bind_eq_bind, Option.bind_some, Option.pure_def]
      refine ⟨_, rfl, ?_⟩
      simp only [stage, phase, afterCall]
      split_ifs <;> exact Nat.zero_lt_succ _
  | aborting expired cancelled wait =>
    simp only [phase] at h awaited
    obtain ⟨abort, aborting, done⟩ := awaited
    obtain ⟨sent, call, _, called, -⟩ := h
    have finished : ∃ w expired, wait.resume (some abortTimeoutS) false s.cancellations abort .done = some (abort, w) ∧
        w.returned abort = some expired := returned_of_done done
    obtain ⟨wait', abortExpired, resumed, returned⟩ := finished
    cases abort with
    | created => cases done
    | running => cases done
    | ended abortSent abort =>
      simp only [called, aborting, resumed, returned, Option.bind_eq_bind, Option.bind_some, Option.pure_def]
      refine ⟨_, rfl, ?_⟩
      simp only [stage, phase]
      exact Nat.one_lt_two
  | ended => simp only [phase] at awaited

end Performing

/-- **One call, one account.** For every operation with a known client, in every run of `perform`, however the call and the
Abort end, whenever the timeouts pass and the caller is cancelled: if its command can be built, the run has an account, and
goes on when the task that it waits for has ended. If not, the error is raised with nothing done. -/
theorem oneAccount {d : Dispatcher κ} {operation : Operation} {node : ℕ} {s : Performing κ ν}
    (known : operation.target.device ∈ d.clients)
    (run : Reaches (Performing.step d operation node) always (Performing.start d operation node) s) :
    (∀ command, d.outgoing operation = .ok command → (∃ a, Performing.Accounted d operation node command s a) ∧
      (s.Awaited → ∃ t, s.step d operation node (.wake .done) = some t ∧ s.stage < t.stage)) ∧
    ∀ error, d.outgoing operation = .error error → s = { phase := .ended (.header error) } := by
  constructor
  · intro command builds
    have sound : s.Sound d operation node command :=
      run.invariant (Performing.sound_start known builds) fun _ _ _ sound _ taken => sound.step taken
    exact ⟨sound.accounted, sound.goes_on⟩
  · intro error fails
    refine run.invariant (I := fun s => s = { phase := .ended (.header error) }) ?_ fun _ label t same _ taken => ?_
    · simp [Performing.start, known, fails]
    · subst same
      cases label <;> simp [Performing.step, Performing.wake] at taken

/-! ## Runs -/

/-- A mount that can be stopped and aborted. -/
def mounted : Dispatcher Unit where
  sensor := { stopOnly with details := .ofList [("mount", { supportedCommands := ["Stop", "Abort"] })] }
  clients := ["mount"]
  planned := fun _ => ()
  merge := fun _ => ()

def stopMount : Operation where
  target := ⟨"mount", []⟩
  command := ⟨⟨"Stop", none⟩, []⟩
  origin := ⟨"run", [.name "stop"], ""⟩
  timeoutS := some 1

/-- An acquisition of the mount, which is no instrument. -/
def strayExposure : Operation :=
  { stopMount with acquisition := some { request := "field", index := 0, frameNumber := 0 } }

/-- The stop expires and is cancelled. Its caller is cancelled twice while the Abort is under way. -/
theorem oneAccount_expired : ∃ s : Performing Unit Unit, s.phase = .ended (.raised (.cancelled (some 0))) ∧
    ∃ a, Performing.Accounted mounted stopMount 0 ⟨stopMount.command, none⟩ s a := by
  have found : (exec (Performing.step mounted stopMount 0) (Performing.start mounted stopMount 0 : Performing Unit Unit)
      [.callBegins, .wake .timeout, .callEnds .cancelled, .wake .done, .abortBegins, .wake .cancelled, .wake .cancelled,
        .abortEnds (.result ()), .wake .done]).map Performing.phase = some (.ended (.raised (.cancelled (some 0)))) := by
    decide +kernel
  obtain ⟨s, run, ended⟩ := Option.map_eq_some_iff.1 found
  have known : stopMount.target.device ∈ mounted.clients := by decide
  exact ⟨s, ended, ((oneAccount known (reaches_of_exec run okAlong_always)).1 _ rfl).1⟩

/-- An acquisition whose header cannot be built is not attempted, though its client is known. -/
theorem unattempted : strayExposure.target.device ∈ mounted.clients ∧
    ¬ ∀ s : Performing Unit Unit, Reaches (Performing.step mounted strayExposure 0) always
      (Performing.start mounted strayExposure 0) s → (∃ ending, s.phase = .ended ending) →
      Deed.attempt strayExposure ∈ s.deeds := by
  refine ⟨by decide, fun all => ?_⟩
  have attempted := all _ (.refl _) ⟨.header (.key ⟨"mount", []⟩), by decide +kernel⟩
  revert attempted
  decide +kernel

end SensorKit.Sensor
