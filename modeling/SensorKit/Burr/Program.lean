import SensorKit.Lib.Run
import SensorKit.Lib.Trace

/-!
# The requests of the burr program

`next_task` hands out the tasks of one request after the other, and records how the request ended at the task that is its
last. A task that fails takes the rest of its request with it; one whose generator is cancelled leaves the rest in the queue.
-/

namespace SensorKit.Burr

open Lib

/-- What comes of asking a slot's source for a request: `generate_request` raises or returns nothing, or there is a request,
of which `build_sk_tasks` raises or returns tasks. -/
inductive Generated where
  | raised
  | nothing
  | request (tasks : Option ℕ)
deriving DecidableEq, Repr

/-- A task that waits to be handed to the executor. The task is its place among those of the request. -/
structure PendingTask where
  task : ℕ
  slot : String
  request : ℕ
  isLastOfRequest : Bool
deriving DecidableEq, Repr

/-- How `await (yield task)` ends. -/
inductive TaskEnd where
  | succeeded
  | failed (message : String)
  | cancelled
deriving DecidableEq, Repr

/-- What has been done, in order. -/
inductive Entry where
  /-- `record_failure` of a slot. -/
  | slotFailure (slot : String)
  | slotSuccess (slot : String)
  | enqueued (request tasks : ℕ)
  | yielded (request task : ℕ)
  | taskSucceeded (request task : ℕ)
  | taskFailed (request task : ℕ)
  | taskCancelled (request task : ℕ)
  /-- `on_request_completed` -/
  | completed (request : ℕ)
  /-- `on_request_failed` -/
  | failed (request : ℕ) (message : String)
deriving DecidableEq, Repr

/-- The entry ends the request. -/
def Entry.ends (request : ℕ) : Entry → Bool
  | completed r | failed r _ => r == request
  | _ => false

/-- The request that an entry is about. -/
def Entry.request? : Entry → Option ℕ
  | slotFailure _ | slotSuccess _ => none
  | enqueued r _ | yielded r _ | taskSucceeded r _ | taskFailed r _ | taskCancelled r _ | completed r | failed r _ => some r

theorem Entry.about_of_ends {e : Entry} {request : ℕ} (ends : e.ends request = true) : e.request? = some request := by
  cases e <;> simp_all [Entry.ends, Entry.request?]

structure BurrProgram where
  /-- `scheduler` is set, and `run` and `sources` with it. -/
  scheduler : Bool := false
  queue : List PendingTask := []
  /-- The task at whose yield the generator waits. -/
  awaited : Option PendingTask := none
  /-- The number of task ids that have been minted. -/
  minted : ℕ := 0
  log : List Entry := []
deriving DecidableEq, Repr

namespace BurrProgram

variable (p : BurrProgram)

def record (entries : List Entry) : BurrProgram :=
  { p with log := p.log ++ entries }

/-- The pending tasks of a request. -/
def fanOut (slot : String) (request tasks : ℕ) : List PendingTask :=
  (List.range tasks).map fun i => ⟨i, slot, request, i == tasks - 1⟩

/-- `_enqueue_next_request`, over the suitable slots in priority order. -/
def enqueueNextRequest : BurrProgram → List (String × Generated) → BurrProgram
  | p, [] => p
  | p, (slot, generated) :: candidates =>
    let minted := { p with minted := p.minted + 1 }
    match generated with
    | .raised | .nothing => enqueueNextRequest (minted.record [.slotFailure slot]) candidates
    | .request none => minted.record [.slotFailure slot]
    | .request (some tasks) =>
      { minted.record [.enqueued p.minted tasks] with queue := p.queue ++ fanOut slot p.minted tasks }

/-- The rest of a failed request is dropped: the task that ends it, and the queue after that. -/
def drain (pending : PendingTask) : List PendingTask → PendingTask × List PendingTask
  | [] => (pending, [])
  | next :: queue => if pending.isLastOfRequest then (pending, next :: queue) else drain next queue

/-- `next_task`, up to its yield. -/
def nextTask (candidates : List (String × Generated)) : BurrProgram :=
  let p := if p.queue = [] ∧ p.scheduler then p.enqueueNextRequest candidates else p
  match p.queue with
  -- Without a scheduler the request for a task raises.
  | [] => p
  | pending :: queue => { p.record [.yielded pending.request pending.task] with queue, awaited := some pending }

/-- `finalize`, if the request has come to its last task. -/
def finalize (pending : PendingTask) (error : Option String) : BurrProgram :=
  if ¬ pending.isLastOfRequest then p
  else match error with
    | some message =>
      p.record [.slotFailure pending.slot, .failed pending.request (if message = "" then "unknown" else message)]
    | none => p.record [.slotSuccess pending.slot, .completed pending.request]

/-- `next_task`, after its yield. -/
def resumed (pending : PendingTask) : TaskEnd → BurrProgram
  | .succeeded => (p.record [.taskSucceeded pending.request pending.task]).finalize pending none
  | .failed message =>
    let (last, queue) := drain pending p.queue
    { p.record [.taskFailed pending.request pending.task] with queue }.finalize last (some message)
  -- A cancellation is no `Exception`: it leaves the generator at once.
  | .cancelled => p.record [.taskCancelled pending.request pending.task]

end BurrProgram

/-- What happens to the program. -/
inductive Label where
  | enable
  | disable
  | nextTask (candidates : List (String × Generated))
  | ended (outcome : TaskEnd)
deriving DecidableEq, Repr

def BurrProgram.step (p : BurrProgram) : Label → Option BurrProgram
  | .enable => some { p with scheduler := true }
  | .disable => some { p with scheduler := false }
  | .nextTask candidates => if p.awaited = none then some (p.nextTask candidates) else none
  | .ended outcome => p.awaited.map fun pending => { p with awaited := none }.resumed pending outcome

/-- The task is not ended by a cancellation. -/
def uncancelled (_ : BurrProgram) (label : Label) : Prop :=
  label ≠ .ended .cancelled

/-! ## Accounting for the requests -/

/-- What must have been done before an entry. -/
def Entry.Due (before : List Entry) : Entry → Prop
  | yielded r i =>
    (i = 0 → ∀ q j, yielded q j ∈ before → before.countP (Entry.ends q) = 1) ∧ ∀ j, taskFailed r j ∉ before
  | completed r => ∃ n, enqueued r n ∈ before ∧ ∀ i < n, yielded r i ∈ before ∧ taskSucceeded r i ∈ before
  | _ => True

/-- Each request is accounted for once. -/
def Accounted (log : List Entry) : Prop :=
  Traced Entry.Due log

namespace BurrProgram

variable {p : BurrProgram} {slot : String} {q n i : ℕ}

/-- Every request that had a task yielded has ended. -/
def Settled (log : List Entry) : Prop :=
  ∀ q i, .yielded q i ∈ log → log.countP (Entry.ends q) = 1

/-- Where the request `q` of `n` tasks is, of which `i` have been handed out. -/
structure Open (log : List Entry) (queue : List PendingTask) (slot : String) (q n i : ℕ) : Prop where
  enqueued : .enqueued q n ∈ log
  queue : queue = (fanOut slot q n).drop i
  yielded : ∀ j < i, .yielded q j ∈ log
  unfailed : ∀ j, .taskFailed q j ∉ log
  unended : log.countP (Entry.ends q) = 0
  others : ∀ r j, .yielded r j ∈ log → r ≠ q → log.countP (Entry.ends r) = 1

/-- The tasks before the one that is handed out last, or all of them, have succeeded. -/
def Handed (p : BurrProgram) : Prop :=
  match p.awaited with
  | none => p.queue = [] ∧ Settled p.log ∨
      ∃ slot q n i, Open p.log p.queue slot q n i ∧ 0 < i ∧ i < n ∧ ∀ j < i, .taskSucceeded q j ∈ p.log
  | some pending => ∃ slot q n i, Open p.log p.queue slot q n (i + 1) ∧ i < n ∧ pending = ⟨i, slot, q, i == n - 1⟩ ∧
      ∀ j < i, .taskSucceeded q j ∈ p.log

structure Sound (p : BurrProgram) : Prop where
  accounted : Accounted p.log
  minted : ∀ e ∈ p.log, ∀ r, e.request? = some r → r < p.minted
  handed : p.Handed

theorem drop_fanOut (lt : i < n) :
    (fanOut slot q n).drop i = ⟨i, slot, q, i == n - 1⟩ :: (fanOut slot q n).drop (i + 1) := by
  rw [List.drop_eq_getElem_cons (by simpa [fanOut] using lt)]
  simp [fanOut]

theorem drop_fanOut_length : (fanOut slot q n).drop n = [] := by
  simp [fanOut]

/-- **A failed task takes the rest of its request** with it. -/
theorem drain_fanOut (lt : i < n) :
    drain ⟨i, slot, q, i == n - 1⟩ ((fanOut slot q n).drop (i + 1)) = (⟨n - 1, slot, q, true⟩, []) := by
  obtain ⟨more, rfl⟩ : ∃ more, n = i + 1 + more := ⟨n - (i + 1), by omega⟩
  induction more generalizing i with
  | zero =>
    rw [Nat.add_zero, drop_fanOut_length]
    simp [drain]
  | succ more ih =>
    have here : (i == i + 1 + (more + 1) - 1) = false := by
      rw [beq_eq_false_iff_ne]
      omega
    have rest := ih (i := i + 1) (by omega)
    rw [show i + 1 + 1 + more = i + 1 + (more + 1) by omega] at rest
    rw [drop_fanOut (by omega), drain, here]
    simpa using rest

/-- What holds while the program waits to be asked for a task, with no request under way. -/
structure Ready (p : BurrProgram) : Prop where
  accounted : Accounted p.log
  minted : ∀ e ∈ p.log, ∀ r, e.request? = some r → r < p.minted
  idle : p.awaited = none
  settled : Settled p.log

/-- A slot that yields no request is recorded, and the next one asked. -/
theorem Ready.passOver (h : Ready p) (slot : String) :
    Ready ({ p with minted := p.minted + 1 }.record [.slotFailure slot]) where
  accounted := h.accounted.snoc trivial
  minted e mem r about := by
    rcases mem_snoc.1 mem with mem | mem
    · exact Nat.lt_succ_of_lt (h.minted e mem r about)
    · rw [mem] at about
      cases about
  idle := h.idle
  settled r j mem := by
    have mem : .yielded r j ∈ p.log := by simpa [record] using mem
    simpa [record, Entry.ends] using h.settled r j mem

/-- What `_enqueue_next_request` leaves: nothing, or one request that is new. -/
theorem Ready.enqueueNextRequest (candidates : List (String × Generated)) (h : Ready p) (empty : p.queue = []) :
    Ready (p.enqueueNextRequest candidates) ∧ ((p.enqueueNextRequest candidates).queue = [] ∨
      ∃ slot q n, 0 < n ∧ Open (p.enqueueNextRequest candidates).log
        (p.enqueueNextRequest candidates).queue slot q n 0) := by
  induction candidates generalizing p with
  | nil => exact ⟨h, .inl empty⟩
  | cons candidate candidates ih =>
    obtain ⟨slot, generated⟩ := candidate
    unfold BurrProgram.enqueueNextRequest
    cases generated with
    | raised | nothing => exact ih (h.passOver slot) empty
    | request tasks =>
      cases tasks with
      | none => exact ⟨h.passOver slot, .inl empty⟩
      | some n =>
        have new (r j : ℕ) (mem : .yielded r j ∈ p.log) : r ≠ p.minted := by
          have := h.minted _ mem r rfl
          omega
        have plain (r : ℕ) : ([.enqueued p.minted n] : List Entry).countP (Entry.ends r) = 0 := by simp [Entry.ends]
        refine ⟨⟨h.accounted.snoc trivial, fun e mem r about => ?_, h.idle, fun r j mem => ?_⟩, ?_⟩
        · rcases mem_snoc.1 mem with mem | mem
          · exact Nat.lt_succ_of_lt (h.minted e mem r about)
          · rw [mem] at about
            cases about
            exact Nat.lt_succ_self _
        · have mem : .yielded r j ∈ p.log := by simpa [record] using mem
          simpa [record, Entry.ends] using h.settled r j mem
        · by_cases none : n = 0
          · subst none
            exact .inl (by simp [empty, fanOut])
          · refine .inr ⟨slot, p.minted, n, Nat.pos_of_ne_zero none, by simp [record], by simp [empty],
              fun j lt => absurd lt (Nat.not_lt_zero j), fun j mem => ?_, ?_, fun r j mem other => ?_⟩
            · have mem : .taskFailed p.minted j ∈ p.log := by simpa [record] using mem
              exact absurd (h.minted _ mem p.minted rfl) (Nat.lt_irrefl _)
            · have fresh : p.log.countP (Entry.ends p.minted) = 0 := by
                refine List.countP_eq_zero.2 fun e mem ends => ?_
                exact absurd (h.minted e mem p.minted (Entry.about_of_ends ends)) (Nat.lt_irrefl _)
              simpa [record, Entry.ends] using fresh
            · have mem : .yielded r j ∈ p.log := by simpa [record] using mem
              simpa [record, Entry.ends] using h.settled r j mem

/-- **A task is handed out** when those before it have succeeded, and the first of a request when no other is open. -/
theorem Open.handOut (o : Open p.log p.queue slot q n i) (accounted : Accounted p.log)
    (minted : ∀ e ∈ p.log, ∀ r, e.request? = some r → r < p.minted) (lt : i < n) (first : i = 0 → Settled p.log)
    (done : ∀ j < i, .taskSucceeded q j ∈ p.log) :
    Sound { p.record [.yielded q i] with
      queue := (fanOut slot q n).drop (i + 1), awaited := some ⟨i, slot, q, i == n - 1⟩ } where
  accounted := accounted.snoc ⟨first, o.unfailed⟩
  minted e mem r about := by
    rcases mem_snoc.1 mem with mem | mem
    · exact minted e mem r about
    · rw [mem] at about
      cases about
      exact minted _ o.enqueued _ rfl
  handed := by
    refine ⟨slot, q, n, i, ⟨by simp [record, o.enqueued], rfl, fun j below => ?_, ?_, ?_, ?_⟩, lt, rfl, fun j below => ?_⟩
    · rcases Nat.lt_succ_iff_lt_or_eq.1 below with below | rfl
      · simp [record, o.yielded j below]
      · simp [record]
    · simpa [record] using o.unfailed
    · simpa [record, Entry.ends] using o.unended
    · intro r j mem other
      have mem : .yielded r j ∈ p.log := by simpa [record, other] using mem
      simpa [record, Entry.ends] using o.others r j mem other
    · simp [record, done j below]

/-- **The open request ends**, once, and with it every request that had a task yielded has. -/
theorem Open.ended {entries : List Entry} (o : Open p.log p.queue slot q n i)
    (minted : ∀ e ∈ p.log, ∀ r, e.request? = some r → r < p.minted) (accounted : Accounted (p.log ++ entries))
    (about : ∀ e ∈ entries, ∀ r, e.request? = some r → r = q) (once : entries.countP (Entry.ends q) = 1)
    (quiet : ∀ r j, .yielded r j ∉ entries) :
    Sound { p with log := p.log ++ entries, queue := [], awaited := none } where
  accounted := accounted
  minted e mem r here := by
    rcases List.mem_append.1 mem with mem | mem
    · exact minted e mem r here
    · rw [about e mem r here]
      exact minted _ o.enqueued q rfl
  handed := by
    refine .inl ⟨rfl, fun r j mem => ?_⟩
    have mem : .yielded r j ∈ p.log := (List.mem_append.1 mem).resolve_right (quiet r j)
    rw [List.countP_append]
    by_cases same : r = q
    · rw [same, o.unended, once]
    · have none : entries.countP (Entry.ends r) = 0 :=
        List.countP_eq_zero.2 fun e mem ends => same (about e mem r (Entry.about_of_ends ends))
      rw [o.others r j mem same, none]

theorem Sound.nextTask (candidates : List (String × Generated)) (h : Sound p) (idle : p.awaited = none) :
    Sound (p.nextTask candidates) := by
  have handed := h.handed
  unfold Handed at handed
  rw [idle] at handed
  unfold BurrProgram.nextTask
  rcases handed with ⟨empty, settled⟩ | ⟨slot, q, n, i, o, pos, lt, done⟩
  · have ready : Ready p := ⟨h.accounted, h.minted, idle, settled⟩
    by_cases enabled : p.scheduler
    · obtain ⟨ready, rest⟩ := ready.enqueueNextRequest candidates empty
      simp only [empty, enabled, and_self, if_true]
      rcases rest with empty | ⟨slot, q, n, pos, o⟩
      · rw [empty]
        refine ⟨ready.accounted, ready.minted, ?_⟩
        unfold Handed
        rw [ready.idle]
        exact .inl ⟨empty, ready.settled⟩
      · rw [o.queue, drop_fanOut pos]
        exact o.handOut ready.accounted ready.minted pos (fun _ => ready.settled) fun j below => absurd below (Nat.not_lt_zero j)
    · simp only [empty, enabled, Bool.false_eq_true, and_false, if_false]
      exact h
  · have some : p.queue ≠ [] := by simp [o.queue, drop_fanOut lt]
    simp only [some, false_and, if_false]
    rw [o.queue, drop_fanOut lt]
    exact o.handOut h.accounted h.minted lt (fun zero => absurd zero (by omega)) done

theorem Sound.resumed {pending : PendingTask} {outcome : TaskEnd} (h : Sound p) (awaited : p.awaited = some pending)
    (uncancelled : outcome ≠ .cancelled) : Sound ({ p with awaited := none }.resumed pending outcome) := by
  have handed := h.handed
  unfold Handed at handed
  rw [awaited] at handed
  obtain ⟨slot, q, n, i, o, lt, rfl, done⟩ := handed
  cases outcome with
  | cancelled => exact absurd rfl uncancelled
  | succeeded =>
    by_cases last : i = n - 1
    · -- The last task of the request: it is completed.
      have through : i + 1 = n := by omega
      have accounted : Accounted (p.log ++ [.taskSucceeded q i, .slotSuccess slot, .completed q]) := by
        have plain (before : List Entry) : Entry.Due before (.taskSucceeded q i) ∧ Entry.Due before (.slotSuccess slot) :=
          ⟨trivial, trivial⟩
        have due : Entry.Due (p.log ++ [.taskSucceeded q i] ++ [.slotSuccess slot]) (.completed q) := by
          refine ⟨n, by simp [o.enqueued], fun j below => ⟨by simp [o.yielded j (by omega)], ?_⟩⟩
          by_cases here : j = i
          · simp [here]
          · simp [done j (by omega)]
        simpa [Accounted] using ((h.accounted.snoc (plain _).1).snoc (plain _).2).snoc due
      have queue : p.queue = [] := by rw [o.queue, through, drop_fanOut_length]
      have sound := o.ended h.minted accounted (by simp [Entry.request?]) (by simp [Entry.ends]) (by simp)
      simpa [BurrProgram.resumed, finalize, record, last, queue] using sound
    · have more : (i == n - 1) = false := by simpa using last
      simp only [BurrProgram.resumed, finalize, more, Bool.false_eq_true, not_false_eq_true, if_true]
      refine ⟨h.accounted.snoc trivial, fun e mem r about => ?_, .inr ⟨slot, q, n, i + 1, ⟨?_, o.queue, ?_, ?_, ?_, ?_⟩,
        Nat.succ_pos i, by omega, fun j below => ?_⟩⟩
      · rcases mem_snoc.1 mem with mem | mem
        · exact h.minted e mem r about
        · rw [mem] at about
          cases about
          exact h.minted _ o.enqueued _ rfl
      · simp [record, o.enqueued]
      · exact fun j below => by simp [record, o.yielded j below]
      · simpa [record] using o.unfailed
      · simpa [record, Entry.ends] using o.unended
      · intro r j mem other
        have mem : .yielded r j ∈ p.log := by simpa [record] using mem
        simpa [record, Entry.ends] using o.others r j mem other
      · rcases Nat.lt_succ_iff_lt_or_eq.1 below with below | rfl
        · simp [record, done j below]
        · simp [record]
  | failed message =>
    have accounted (text : String) : Accounted (p.log ++ [.taskFailed q i, .slotFailure slot, .failed q text]) := by
      have plain (before : List Entry) : Entry.Due before (.taskFailed q i) ∧ Entry.Due before (.slotFailure slot) ∧
          Entry.Due before (.failed q text) := ⟨trivial, trivial, trivial⟩
      simpa [Accounted] using ((h.accounted.snoc (plain _).1).snoc (plain _).2.1).snoc (plain _).2.2
    have sound (text : String) := o.ended h.minted (accounted text) (by simp [Entry.request?]) (by simp [Entry.ends]) (by simp)
    simpa [BurrProgram.resumed, o.queue, drain_fanOut lt, finalize, record] using sound _

theorem Sound.step {label : Label} {p' : BurrProgram} (h : Sound p) (ok : uncancelled p label)
    (taken : p.step label = some p') : Sound p' := by
  cases label with
  | enable | disable =>
    cases taken
    exact ⟨h.accounted, h.minted, h.handed⟩
  | nextTask candidates =>
    obtain ⟨idle, rfl⟩ : p.awaited = none ∧ p.nextTask candidates = p' := by
      simpa [BurrProgram.step] using taken
    exact h.nextTask candidates idle
  | ended outcome =>
    obtain ⟨pending, awaited, rfl⟩ := Option.map_eq_some_iff.1 taken
    exact h.resumed awaited fun cancelled => ok (cancelled ▸ rfl)

end BurrProgram

/-- **Every request is accounted for once**, in a run in which no yielded task is cancelled. -/
theorem requests_accounted {p : BurrProgram} (h : Reaches BurrProgram.step uncancelled {} p) : Accounted p.log := by
  refine (h.invariant ?_ fun p label p' sound ok taken => BurrProgram.Sound.step sound ok taken).accounted
  exact ⟨traced_nil, by simp, .inl ⟨rfl, fun q i mem => absurd mem List.not_mem_nil⟩⟩

theorem requests_accounted_example : Accounted [.enqueued 0 2, .yielded 0 0, .taskSucceeded 0 0, .yielded 0 1,
    .taskSucceeded 0 1, .slotSuccess "flats", .completed 0] :=
  requests_accounted (p := { scheduler := true, minted := 1, log := _ }) (reaches_of_exec (show exec BurrProgram.step {}
    [.enable, .nextTask [("flats", .request (some 2))], .ended .succeeded, .nextTask [], .ended .succeeded] = _ by
      decide +kernel) (okAlong_of_forall fun label mem _ => by
        simp only [List.mem_cons, List.not_mem_nil, or_false] at mem
        rcases mem with rfl | rfl | rfl | rfl | rfl <;> simp [uncancelled]))

/-- A request whose first task is cancelled counts as completed. -/
theorem completed_of_cancelled : ¬ ∀ (labels : List Label) (p : BurrProgram),
    exec BurrProgram.step {} labels = some p → Accounted p.log := fun all => by
  have accounted := all [.enable, .nextTask [("flats", .request (some 2))], .ended .cancelled, .nextTask [],
    .ended .succeeded] _ (by decide +kernel : _ = some { scheduler := true, minted := 1, log := [.enqueued 0 2, .yielded 0 0,
      .taskCancelled 0 0, .yielded 0 1, .taskSucceeded 0 1, .slotSuccess "flats", .completed 0] })
  obtain ⟨n, enqueued, all⟩ := accounted 6 (.completed 0) rfl
  obtain rfl : n = 2 := by simpa using enqueued
  have := (all 0 (by decide)).2
  simp at this

end SensorKit.Burr
