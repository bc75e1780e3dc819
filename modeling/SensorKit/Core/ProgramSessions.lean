import SensorKit.Core.ProgramOrder

/-!
# Tasking sessions do not overlap

While publications succeed, each session publishes its active state, its tasking and stopping states, the cleared
tasking state and the inactive state. A stop request that arrives while the session is being cleared may still publish
its stopping state before the inactive one.
-/

namespace SensorKit.Core.Tasking

open Lib

/-- How far a session's events have come. -/
inductive SessionStage where
  | unpublished
  | tasking
  | cleared
  | ended
deriving DecidableEq, Repr

/-- The events that may follow. Stopping states after the cleared state are allowed or not. -/
def SessionStage.next (lateStops : Bool) (session : ℕ) : SessionStage → Event → Option SessionStage
  | .unpublished, .active event => if event.active ∧ !event.stopping then some .tasking else none
  | .tasking, .active event => if event.active ∧ event.stopping then some .tasking else none
  | .tasking, .tasking event =>
    match event.loopState with
    | some loopState => if loopState.sessionId = session then some .tasking else none
    | none => some .cleared
  | .cleared, .active event =>
    if event.active then if event.stopping ∧ lateStops then some .cleared else none else some .ended
  | _, _ => none

/-- Read a session's events in order. -/
def readSession (lateStops : Bool) (session : ℕ) (events : List Event) : Option SessionStage :=
  events.foldlM (SessionStage.next lateStops session) .unpublished

theorem readSession_snoc {lateStops : Bool} {session : ℕ} {events : List Event} {event : Event} {stage : SessionStage}
    (h : readSession lateStops session events = some stage) :
    readSession lateStops session (events ++ [event]) = stage.next lateStops session event := by
  unfold readSession at h ⊢
  rw [List.foldlM_append, h]
  simp

namespace ProgramImpl

variable (s : ProgramImpl)

/-- What has been published on behalf of the session. -/
def published (session : ℕ) : List Event :=
  s.stream.filter (·.session = some session)

/-- The update publishes a report of the session's tasks. -/
def reportAt (k : ℕ) : Bool :=
  match s.updates[k]? with
  | some { job := .report _, .. } => true
  | _ => false

/-- Publications succeed, and the process does not end. The report of a loop's task may be cut short, since requests may
cancel the task. -/
def PublicationsSucceed : ProgramLabel → Prop
  | .init _ _ raises => raises = false
  | .crash => False
  | .emit _ raises | .put _ raises => raises = true → s.reportAt 0 = true
  | .cancel k => s.reportAt k = true
  | _ => True

instance (label : ProgramLabel) : Decidable (s.PublicationsSucceed label) :=
  match label with
  | .init _ _ raises => inferInstanceAs (Decidable (raises = false))
  | .crash => inferInstanceAs (Decidable False)
  | .emit _ raises => inferInstanceAs (Decidable (raises = true → s.reportAt 0 = true))
  | .put _ raises => inferInstanceAs (Decidable (raises = true → s.reportAt 0 = true))
  | .cancel k => inferInstanceAs (Decidable (s.reportAt k = true))
  | .enter _ | .start _ | .startResumes | .startReturns | .stop .. | .setEnableState _ | .enableResumes | .hooksReturn
  | .advance .. | .fail .. | .execute .. | .report _ | .producerExits _ | .finalize .. | .clear _ =>
    inferInstanceAs (Decidable True)

/-- The update at the head is one of the loop's own, and is published. -/
def emits (i : ℕ) : Bool :=
  match s.updateStage, s.updates with
  | .putting, u :: _ => u.job.owner = some i
  | _, _ => false

end ProgramImpl

/-- How far the session's events have come, as the loop and its finalizer tell. -/
def TaskingLoop.stage (loop : TaskingLoop) (emitted : Bool) : SessionStage :=
  match loop.finalizer with
  | .waiting => if loop.started ∨ emitted then .tasking else .unpublished
  | .clearing => if emitted then .cleared else .tasking
  | .ending => if emitted then .ended else .cleared
  | _ => .ended

namespace ProgramImpl

variable {s s' : ProgramImpl} {u : Update} {i n : ℕ} {loop loop' : TaskingLoop} {rest : List Update} {event : Event}
  {contexts : TaskContextMap}

/-- The sessions from `n` on have published what their loops tell. -/
structure InOrder (n : ℕ) (s : ProgramImpl) : Prop where
  bounded : n ≤ s.loops.length
  away : s.mode ≠ .attached → s.loops.length = n
  current : ∀ i, s.taskLoop = some i → n ≤ i
  alive : ∀ (i : ℕ) loop, n ≤ i → s.loops[i]? = some loop → loop.finalizer ≠ .lost ∧ loop.finalizer ≠ .failed
  older : ∀ u ∈ s.updates, u.job = .initClear ∨ u.job = .initEnd → ∀ i ∈ u.event.session, i < n
  unstarted : ∀ (i : ℕ) loop, s.taskLoop = some i → s.loops[i]? = some loop → loop.started = false →
    ∃ u ∈ s.updates, u.job = .start i
  reads : ∀ (i : ℕ) loop, n ≤ i → s.loops[i]? = some loop →
    readSession true i (s.published i) = some (loop.stage (s.emits i))

/-- Nothing is emitted before the first update is. -/
theorem emits_eq_false (idle : s.updateStage ≠ .putting) : s.emits i = false := by
  unfold emits
  split
  · rename_i putting _
    exact absurd putting idle
  · rfl

/-- While the lock is busy, its holder is at the head. -/
def HeadBusy (s : ProgramImpl) : Prop :=
  s.updateStage ≠ .entering → ∃ u rest, s.updates = u :: rest

theorem Sound.headBusy (sound : s.Sound) : s.HeadBusy := by
  intro busy
  obtain ⟨u, rest, -, head, -⟩ := sound.stage busy
  exact ⟨u, rest, head⟩

theorem emits_update {guard : Option ℕ} {job : Job} (busy : s.HeadBusy) :
    (s.update event guard job).emits i = s.emits i := by
  by_cases putting : s.updateStage = .putting
  · obtain ⟨u, rest, head⟩ := busy (by rw [putting]; rintro ⟨⟩)
    unfold emits ProgramImpl.update
    dsimp only
    rw [putting, head]
    rfl
  · rw [emits_eq_false putting]
    exact emits_eq_false putting

/-! ## Frames -/

/-- Nothing is published, and each loop stands where it stood. -/
structure Still (s s' : ProgramImpl) : Prop where
  stream : s'.stream = s.stream
  mode : s'.mode = s.mode
  taskLoop : s'.taskLoop = s.taskLoop
  length : s'.loops.length = s.loops.length
  loops : ∀ (i : ℕ) loop', s'.loops[i]? = some loop' → ∃ loop, s.loops[i]? = some loop ∧
    loop'.started = loop.started ∧ loop'.finalizer = loop.finalizer
  emits : ∀ i, s'.emits i = s.emits i
  updates : ∀ u ∈ s'.updates, u.job = .initClear ∨ u.job = .initEnd → u ∈ s.updates
  starts : ∀ u ∈ s.updates, ∀ i, u.job = .start i → u ∈ s'.updates

theorem stage_of_eq {emitted : Bool} (started : loop'.started = loop.started) (finalizer : loop'.finalizer = loop.finalizer) :
    loop'.stage emitted = loop.stage emitted := by
  unfold TaskingLoop.stage
  rw [started, finalizer]

theorem InOrder.still (h : InOrder n s) (still : Still s s') : InOrder n s' where
  bounded := by
    rw [still.length]
    exact h.bounded
  away := by
    rw [still.mode, still.length]
    exact h.away
  current := by
    rw [still.taskLoop]
    exact h.current
  alive i loop' le found := by
    obtain ⟨loop, before, -, finalizer⟩ := still.loops i loop' found
    rw [finalizer]
    exact h.alive i loop le before
  older u mem init := h.older u (still.updates u mem init) init
  unstarted i loop' current found unstarted := by
    obtain ⟨loop, before, started, -⟩ := still.loops i loop' found
    obtain ⟨u, mem, start⟩ := h.unstarted i loop (still.taskLoop.symm.trans current) before (started.symm.trans unstarted)
    exact ⟨u, still.starts u mem i start, start⟩
  reads i loop' le found := by
    obtain ⟨loop, before, started, finalizer⟩ := still.loops i loop' found
    unfold ProgramImpl.published
    rw [still.stream, still.emits, stage_of_eq started finalizer]
    exact h.reads i loop le before

theorem Still.trans {s'' : ProgramImpl} (h : Still s s') (h' : Still s' s'') : Still s s'' where
  stream := h'.stream.trans h.stream
  mode := h'.mode.trans h.mode
  taskLoop := h'.taskLoop.trans h.taskLoop
  length := h'.length.trans h.length
  loops i loop'' found := by
    obtain ⟨loop', there, started', finalizer'⟩ := h'.loops i loop'' found
    obtain ⟨loop, before, started, finalizer⟩ := h.loops i loop' there
    exact ⟨loop, before, started'.trans started, finalizer'.trans finalizer⟩
  emits i := (h'.emits i).trans (h.emits i)
  updates u mem init := h.updates u (h'.updates u mem init) init
  starts u mem i start := h'.starts u (h.starts u mem i start) i start

theorem still_control {control : Control} {replies : List Reply} : Still s { s with control, replies } :=
  ⟨rfl, rfl, rfl, rfl, fun _ loop found => ⟨loop, found, rfl, rfl⟩, fun _ => rfl, fun _ mem _ => mem,
    fun _ mem _ _ => mem⟩

theorem still_setLoop (found : s.loops[i]? = some loop) (started : loop'.started = loop.started)
    (finalizer : loop'.finalizer = loop.finalizer) : Still s (s.setLoop i loop') where
  stream := rfl
  mode := rfl
  taskLoop := rfl
  length := List.length_set
  loops k l there := by
    obtain ⟨rfl, rfl⟩ | ⟨-, before⟩ := found_set there
    · exact ⟨loop, found, started, finalizer⟩
    · exact ⟨l, before, rfl, rfl⟩
  emits _ := rfl
  updates _ mem _ := mem
  starts _ mem _ _ := mem

theorem still_update {guard : Option ℕ} {job : Job} (busy : s.HeadBusy)
    (other : job ≠ .initClear ∧ job ≠ .initEnd) : Still s (s.update event guard job) where
  stream := rfl
  mode := rfl
  taskLoop := rfl
  length := rfl
  loops _ loop found := ⟨loop, found, rfl, rfl⟩
  emits _ := emits_update busy
  updates u mem init := by
    rcases mem_snoc.1 mem with mem | mem
    · exact mem
    · rw [mem] at init
      rcases init with rfl | rfl
      · exact absurd rfl other.1
      · exact absurd rfl other.2
  starts u mem _ _ := List.mem_append_left _ mem

theorem reportAt_eq_true {k : ℕ} (report : s.reportAt k = true) (found : s.updates[k]? = some u) :
    ∃ i, u.job = .report i := by
  unfold reportAt at report
  rw [found] at report
  obtain ⟨event, loop, job⟩ := u
  cases job <;> first | exact ⟨_, rfl⟩ | cases report

/-! ## Publishing an event -/

/-- A session's events after another event has been published. -/
theorem published_emit :
    ({ s with stream := s.stream ++ [event], updateStage := .putting } : ProgramImpl).published i =
      s.published i ++ if event.session = some i then [event] else [] := by
  unfold ProgramImpl.published
  dsimp only
  rw [List.filter_append]
  congr 1
  split_ifs with mine
  · simp [mine]
  · simp [mine]

theorem emits_putting {stream : List Event} (head : s.updates = u :: rest) :
    ({ s with stream, updateStage := .putting } : ProgramImpl).emits i = decide (u.job.owner = some i) := by
  unfold emits
  dsimp only
  rw [head]

/-- What the update at the head publishes is what its session's loop tells. -/
theorem InOrder.next {eventId : ℕ} (h : InOrder n s) (sound : s.Sound)
    (head : s.updates = u :: rest) (is : event = u.event.withId eventId)
    (guarded : ∀ i, u.loop = some i → s.taskLoop = some i) (le : n ≤ i) (found : s.loops[i]? = some loop)
    (mine : event.session = some i) :
    (loop.stage false).next true i event = some (loop.stage (decide (u.job.owner = some i))) := by
  have expects := sound.expects u (by simp [head])
  obtain ⟨notLost, notFailed⟩ := h.alive i loop le found
  have fifo := sound.fifo
  rw [head] at fifo
  -- A stopping state follows the active state of its session.
  have stops : ∀ origin contexts, s.taskLoop = some i → u.job.owner ≠ some i →
      u.event = .active { active := true, origin, stopping := true, contexts, session := some i } →
      (loop.stage false).next true i event = some (loop.stage (decide (u.job.owner = some i))) := by
    intro origin contexts current other shape
    have live := (sound.live i loop found).1 current
    rw [is, shape]
    simp only [other, decide_false]
    unfold TaskingLoop.stage
    cases finalizer : loop.finalizer with
    | waiting =>
      have started : loop.started = true := by
        by_contra unstarted
        obtain ⟨v, mem, start⟩ := h.unstarted i loop current found (by simpa using unstarted)
        rw [head] at mem
        rcases List.mem_cons.1 mem with rfl | later
        · rw [start] at other
          exact other rfl
        · exact (List.pairwise_cons.1 fifo).1 v later i start (by rw [shape]; rfl)
      simp [started, SessionStage.next, Event.withId]
    | clearing => rfl
    | ending => rfl
    | done => exact absurd finalizer live.1
    | failed => exact absurd finalizer notFailed
    | lost => exact absurd finalizer notLost
  subst is
  obtain ⟨shape, guard, job⟩ := u
  rw [Event.session_withId] at mine
  cases job with
  | start k =>
    obtain ⟨-, -, ⟨l, there, unstarted, waiting⟩, contexts, rfl⟩ := expects
    cases mine
    rw [found] at there
    cases there
    simp [TaskingLoop.stage, waiting, unstarted, SessionStage.next, Event.withId, Job.owner]
  | report k =>
    obtain ⟨-, l, there, reporting, loopState, executionState, rfl, named, -⟩ := expects
    cases mine
    rw [found] at there
    cases there
    simp [TaskingLoop.stage, reporting.waiting, reporting.started, SessionStage.next, Event.withId, named]
  | clear k =>
    obtain ⟨-, ⟨l, there, started, clearing⟩, executionState, rfl⟩ := expects
    cases mine
    rw [found] at there
    cases there
    simp [TaskingLoop.stage, clearing, SessionStage.next, Event.withId, Job.owner]
  | finish k =>
    obtain ⟨-, ⟨l, there, started, ending⟩, origin, rfl⟩ := expects
    cases mine
    rw [found] at there
    cases there
    simp [TaskingLoop.stage, ending, SessionStage.next, Event.withId, Job.owner]
  | stop k =>
    obtain ⟨-, guard', -, origin, contexts, rfl⟩ := expects
    cases mine
    exact stops origin contexts (guarded i guard') (by rintro ⟨⟩) rfl
  | enableStop k =>
    obtain ⟨-, guard', -, origin, contexts, rfl⟩ := expects
    cases mine
    exact stops origin contexts (guarded i guard') (by rintro ⟨⟩) rfl
  | enable =>
    obtain ⟨-, -, enabled, controller, rfl⟩ := expects
    cases mine
  | initClear =>
    have older := h.older _ (by rw [head]; exact List.mem_cons_self) (.inl rfl) i mine
    omega
  | initEnd =>
    have older := h.older _ (by rw [head]; exact List.mem_cons_self) (.inr rfl) i mine
    omega

/-- An owner's update is about its session. -/
theorem Expects.session_of_owner (h : s.Expects u) (mine : u.job.owner = some i) : u.event.session = some i := by
  obtain ⟨event, guard, job⟩ := u
  cases job <;> cases mine
  case start =>
    obtain ⟨-, -, -, contexts, rfl⟩ := h
    rfl
  case report =>
    obtain ⟨-, l, -, -, loopState, executionState, rfl, -⟩ := h
    rfl
  case clear =>
    obtain ⟨-, -, executionState, rfl⟩ := h
    rfl
  case finish =>
    obtain ⟨-, -, origin, rfl⟩ := h
    rfl

theorem InOrder.emitted (h : InOrder n s) (sound : s.Sound)
    (head : s.updates = u :: rest) (emitting : s.updateStage = .emitting event) :
    InOrder n { s with stream := s.stream ++ [event], updateStage := .putting } := by
  obtain ⟨v, rest', eventId, head', -, is, guarded⟩ := sound.stage (by rw [emitting]; rintro ⟨⟩)
  rw [head] at head'
  cases head'
  have is := is event emitting
  have expects := sound.expects u (by simp [head])
  refine { h with reads := fun i loop le found => ?_ }
  have before := h.reads i loop le found
  rw [emits_eq_false (by rw [emitting]; rintro ⟨⟩)] at before
  rw [published_emit, emits_putting head]
  by_cases mine : event.session = some i
  · rw [if_pos mine, readSession_snoc before]
    exact h.next sound head is guarded le found mine
  · have other : u.job.owner ≠ some i := by
      intro own
      rw [is, Event.session_withId] at mine
      exact mine (expects.session_of_owner own)
    rw [if_neg mine, List.append_nil, before, decide_eq_false other]

/-! ## After an update -/

theorem emits_head (head : s.updates = u :: rest) (putting : s.updateStage = .putting) :
    s.emits i = decide (u.job.owner = some i) := by
  unfold emits
  rw [putting, head]

theorem emits_other (head : s.updates = u :: rest) (other : u.job.owner ≠ some i) :
    s.emits i = false := by
  by_cases putting : s.updateStage = .putting
  · rw [emits_head head putting, decide_eq_false other]
  · exact emits_eq_false putting

/-- The update at the head leaves, and its owner's loop goes on to where its events have come. -/
theorem InOrder.leaveLoop {stored : Option ProgramState} {k : ℕ} (h : InOrder n s)
    (head : s.updates = u :: rest) (found : s.loops[k]? = some loop)
    (own : u.job.owner = some k) (alive : loop'.finalizer ≠ .lost ∧ loop'.finalizer ≠ .failed)
    (stage : n ≤ k → loop'.stage false = loop.stage (s.emits k))
    (started : loop'.started = false → loop.started = false ∧ u.job ≠ .start k) :
    InOrder n (({ s with stored, updates := rest, updateStage := .entering } : ProgramImpl).setLoop k loop') where
  bounded := by
    unfold ProgramImpl.setLoop
    dsimp only
    rw [List.length_set]
    exact h.bounded
  away := by
    unfold ProgramImpl.setLoop
    dsimp only
    rw [List.length_set]
    exact h.away
  current := h.current
  alive i l le there := by
    obtain ⟨rfl, rfl⟩ | ⟨-, before⟩ := found_set there
    · exact alive
    · exact h.alive i l le before
  older v mem := h.older v (by rw [head]; exact List.mem_cons_of_mem _ mem)
  unstarted i l current there unstarted := by
    have early : ∀ l, s.loops[i]? = some l → l.started = false → u.job ≠ .start i →
        ∃ v ∈ rest, v.job = .start i := by
      intro l before unstarted other
      obtain ⟨v, mem, start⟩ := h.unstarted i l current before unstarted
      rw [head] at mem
      rcases List.mem_cons.1 mem with rfl | later
      · exact absurd start other
      · exact ⟨v, later, start⟩
    obtain ⟨rfl, rfl⟩ | ⟨ne, before⟩ := found_set there
    · obtain ⟨was, other⟩ := started unstarted
      exact early loop found was other
    · refine early l before unstarted fun start => ?_
      rw [start] at own
      exact ne (Option.some.inj own)
  reads i l le there := by
    have idle : (({ s with stored, updates := rest, updateStage := .entering } : ProgramImpl).setLoop k loop').emits i =
        false := emits_eq_false (by rintro ⟨⟩)
    rw [idle]
    obtain ⟨rfl, rfl⟩ | ⟨ne, before⟩ := found_set there
    · rw [stage le]
      exact h.reads i loop le found
    · have other : u.job.owner ≠ some i := by
        rw [own]
        intro same
        exact ne (Option.some.inj same).symm
      have reads := h.reads i l le before
      rw [emits_other head other] at reads
      exact reads

/-- The update at the head leaves, and no loop goes on. -/
theorem InOrder.leaveOther {stored : Option ProgramState} (h : InOrder n s)
    (head : s.updates = u :: rest) (own : u.job.owner = none) :
    InOrder n { s with stored, updates := rest, updateStage := .entering } where
  bounded := h.bounded
  away := h.away
  current := h.current
  alive := h.alive
  older v mem := h.older v (by rw [head]; exact List.mem_cons_of_mem _ mem)
  unstarted i l current found unstarted := by
    obtain ⟨v, mem, start⟩ := h.unstarted i l current found unstarted
    rw [head] at mem
    rcases List.mem_cons.1 mem with rfl | later
    · rw [start] at own
      cases own
    · exact ⟨v, later, start⟩
  reads i l le found := by
    have reads := h.reads i l le found
    rw [emits_other head (by rw [own]; rintro ⟨⟩)] at reads
    rw [emits_eq_false (by rintro ⟨⟩)]
    exact reads

section

variable (h : InOrder n s) (none : s.updates = []) (idle : s.updateStage = .entering) (away : s.mode ≠ .attached)
include h none idle away

/-- A program that starts publishes its first update, which is about an earlier session. -/
theorem InOrder.first {event : Event} {job : Job} (bounded : ∀ i ∈ event.session, i < n) :
    InOrder n (({ s with mode := .starting } : ProgramImpl).update event Option.none job) := by
  unfold ProgramImpl.update
  dsimp only
  rw [none]
  exact {
    bounded := h.bounded
    away := fun _ => h.away away
    current := h.current
    alive := h.alive
    older := fun u mem _ => by
      rw [List.mem_singleton.1 mem]
      exact bounded
    unstarted := fun i loop current found unstarted => by
      obtain ⟨u, mem, -⟩ := h.unstarted i loop current found unstarted
      rw [none] at mem
      cases mem
    reads := fun i loop le found => by
      have reads := h.reads i loop le found
      rw [emits_eq_false (by rw [idle]; rintro ⟨⟩)] at reads ⊢
      exact reads }

theorem InOrder.initEnd (bounded : ∀ i ∈ s.state.activeState.session, i < n) : InOrder n s.initEnd := by
  unfold ProgramImpl.initEnd
  split_ifs with active
  · exact h.first none idle away bounded
  · exact { h with away := fun ne => absurd rfl ne }

theorem InOrder.initClear (bounded : ∀ i ∈ s.state.activeState.session, i < n)
    (bounded' : ∀ loopState, s.state.taskingState.loopState = some loopState → loopState.sessionId < n) :
    InOrder n s.initClear := by
  unfold ProgramImpl.initClear
  split
  · rename_i loopState tasking
    refine h.first none idle away ?_
    rintro i ⟨⟩
    exact bounded' loopState tasking
  · exact h.initEnd none idle away bounded

end

theorem InOrder.leave {ok : Bool} (stored : Option ProgramState) (h : InOrder n s)
    (sound : s.Sound) (ordered : s.Ordered) (head : s.updates = u :: rest)
    (succeeds : ok = true ∨ ∃ i, u.job = .report i) (putting : u.loop = none → s.updateStage = .putting) :
    InOrder n (({ s with stored } : ProgramImpl).leave u rest ok) := by
  have expects := sound.expects u (by simp [head])
  have idle : ∀ loops, ({ s with stored, updates := rest, updateStage := .entering, loops } : ProgramImpl).HeadBusy :=
    fun _ busy => absurd rfl busy
  have succeeded (other : ∀ k, u.job ≠ .report k) : ok = true := by
    rcases succeeds with ok | ⟨k, report⟩
    · exact ok
    · exact absurd report (other k)
  unfold ProgramImpl.leave
  unfold Expects at expects
  cases job : u.job with
  | start i =>
    rw [job] at expects
    obtain ⟨-, free, ⟨loop, found, unstarted, waiting⟩, -⟩ := expects
    obtain rfl := succeeded (by rw [job]; rintro k ⟨⟩)
    have own : u.job.owner = some i := by rw [job]; rfl
    have emits := emits_head head (putting free) (i := i)
    unfold ProgramImpl.proceed
    simp only [found, if_true]
    refine InOrder.still (h.leaveLoop head found own ?_ ?_ (by rintro ⟨⟩)) still_control
    · dsimp only
      rw [waiting]
      exact ⟨by rintro ⟨⟩, by rintro ⟨⟩⟩
    · intro _
      rw [emits, decide_eq_true own]
      simp [TaskingLoop.stage, waiting]
  | report i =>
    rw [job] at expects
    obtain ⟨-, loop, found, reporting, -⟩ := expects
    have own : u.job.owner = some i := by rw [job]; rfl
    unfold ProgramImpl.proceed
    simp only [found]
    refine h.leaveLoop head found own ?_ ?_ ?_
    · dsimp only
      rw [reporting.waiting]
      exact ⟨by rintro ⟨⟩, by rintro ⟨⟩⟩
    · intro _
      simp [TaskingLoop.stage, reporting.waiting, reporting.started]
    · intro unstarted
      cases reporting.started.symm.trans unstarted
  | clear i =>
    rw [job] at expects
    obtain ⟨free, ⟨loop, found, started, clearing⟩, -⟩ := expects
    obtain rfl := succeeded (by rw [job]; rintro k ⟨⟩)
    have own : u.job.owner = some i := by rw [job]; rfl
    have emits := emits_head head (putting free) (i := i)
    unfold ProgramImpl.proceed
    simp only [found, if_true]
    refine InOrder.still (h.leaveLoop head found own ⟨by rintro ⟨⟩, by rintro ⟨⟩⟩ ?_ ?_)
      (still_update (idle _) ⟨by rintro ⟨⟩, by rintro ⟨⟩⟩)
    · intro _
      rw [emits, decide_eq_true own]
      simp [TaskingLoop.stage, clearing]
    · intro unstarted
      cases started.symm.trans unstarted
  | finish i =>
    rw [job] at expects
    obtain ⟨free, ⟨loop, found, started, ending⟩, -⟩ := expects
    obtain rfl := succeeded (by rw [job]; rintro k ⟨⟩)
    have own : u.job.owner = some i := by rw [job]; rfl
    have emits := emits_head head (putting free) (i := i)
    unfold ProgramImpl.proceed
    simp only [found, if_true]
    have done : InOrder n (({ s with stored, updates := rest, updateStage := .entering } : ProgramImpl).setLoop i
        { loop with finalizer := .done }) := by
      refine h.leaveLoop head found own ⟨by rintro ⟨⟩, by rintro ⟨⟩⟩ ?_ ?_
      · intro _
        rw [emits, decide_eq_true own]
        simp [TaskingLoop.stage, ending]
      · intro unstarted
        cases started.symm.trans unstarted
    exact { done with
      current := by rintro k ⟨⟩
      unstarted := by rintro k l ⟨⟩ }
  | stop i => exact h.leaveOther head (by rw [job]; rfl)
  | enableStop i =>
    have left : InOrder n { s with stored, updates := rest, updateStage := .entering } :=
      h.leaveOther head (by rw [job]; rfl)
    unfold ProgramImpl.proceed
    dsimp only
    split
    · exact left.still still_control
    · exact left
  | enable => exact InOrder.still (h.leaveOther head (by rw [job]; rfl)) still_control
  | initClear =>
    rw [job] at expects
    obtain ⟨starting, -, -⟩ := expects
    have away : s.mode ≠ .attached := by rw [starting]; rintro ⟨⟩
    obtain rfl := succeeded (by rw [job]; rintro k ⟨⟩)
    have none : rest = [] := by
      have length := sound.starting starting
      rw [head, List.length_cons] at length
      exact List.length_eq_zero_iff.1 (by omega)
    have left : InOrder n { s with stored, updates := rest, updateStage := .entering } :=
      h.leaveOther head (by rw [job]; rfl)
    refine left.initEnd none rfl away ?_
    rw [← h.away away]
    exact ordered.state.active.bounded
  | initEnd =>
    obtain rfl := succeeded (by rw [job]; rintro k ⟨⟩)
    have left : InOrder n { s with stored, updates := rest, updateStage := .entering } :=
      h.leaveOther head (by rw [job]; rfl)
    exact { left with away := fun ne => absurd rfl ne }

/-! ## The steps -/

section

variable (h : InOrder n s) (sound : s.Sound)
include h sound

theorem InOrder.init {readable stored : Bool} (ordered : s.Ordered)
    (hs : s.step (.init readable stored false) = some s') : InOrder n s' := by
  unfold ProgramImpl.step at hs
  dsimp only at hs
  obtain ⟨guard, hs⟩ := Option.ite_none_left_eq_some.1 hs
  have down : s.mode = .down := by
    apply Classical.by_contradiction
    exact fun up => guard (.inl up)
  have away : s.mode ≠ .attached := by rw [down]; rintro ⟨⟩
  have none := sound.down down
  have length := h.away away
  have idle : s.updateStage = .entering := by
    by_contra busy
    obtain ⟨u, rest, head⟩ := sound.headBusy busy
    cases none.symm.trans head
  split at hs
  · rename_i state restored
    cases hs
    have known := ordered.stored state (Option.ite_none_right_eq_some.1 restored).2
    refine InOrder.initClear (s := { s with state }) { h with } none idle away ?_ ?_
    · rw [← length]
      exact known.active.bounded
    · intro loopState is
      obtain ⟨mem, session, -⟩ := known.tasking.below loopState is
      rw [← length]
      exact ordered.bounded _ mem _ session
  · cases hs
    refine InOrder.initClear (s := { s with state := {}, stored := _ }) { h with } none idle away ?_ ?_
    · rintro i ⟨⟩
    · rintro loopState ⟨⟩

theorem InOrder.enter {eventId : ℕ} (ordered : s.Ordered) (hs : s.step (.enter eventId) = some s') : InOrder n s' := by
  unfold ProgramImpl.step at hs
  dsimp only at hs
  split at hs
  · rename_i u rest head entering
    split_ifs at hs with replaced
    · cases hs
      exact h.leave s.stored sound ordered head (.inl rfl) fun free => absurd free replaced.1
    · cases hs
      refine { h with reads := fun i loop le found => ?_ }
      have reads := h.reads i loop le found
      rw [emits_eq_false (by rw [entering]; rintro ⟨⟩)] at reads
      rw [emits_eq_false (by rintro ⟨⟩)]
      exact reads
  · cases hs

theorem InOrder.emit {published raises : Bool} (ordered : s.Ordered) (succeeds : raises = true → s.reportAt 0 = true)
    (hs : s.step (.emit published raises) = some s') : InOrder n s' := by
  -- The event is published, whatever comes next.
  have streams : ∀ {u rest event}, s.updates = u :: rest → s.updateStage = .emitting event →
      s.step (.emit true false) = some { s with stream := s.stream ++ [event], updateStage := .putting } := by
    intro u rest event head emitting
    unfold ProgramImpl.step
    simp only [head, emitting, if_true, Bool.false_eq_true, if_false]
  unfold ProgramImpl.step at hs
  dsimp only at hs
  split at hs
  · rename_i u rest event head emitting
    have emitted := h.emitted sound head emitting
    have next := streams head emitting
    cases raises with
    | true =>
      obtain ⟨i, report⟩ := reportAt_eq_true (u := u) (succeeds rfl) (by simp [head])
      have guarded : u.loop ≠ none := by
        have expects := sound.expects u (by simp [head])
        unfold Expects at expects
        rw [report] at expects
        rw [expects.1]
        rintro ⟨⟩
      cases hs
      cases published with
      | true =>
        exact emitted.leave s.stored (sound.step next) (ordered.step sound next) head (.inr ⟨i, report⟩)
          fun _ => rfl
      | false =>
        exact h.leave s.stored sound ordered head (.inr ⟨i, report⟩) fun free => absurd free guarded
    | false =>
      cases published with
      | true =>
        cases hs
        exact emitted
      | false => cases hs
  · cases hs

theorem InOrder.put {stored raises : Bool} (ordered : s.Ordered) (succeeds : raises = true → s.reportAt 0 = true)
    (hs : s.step (.put stored raises) = some s') : InOrder n s' := by
  unfold ProgramImpl.step at hs
  dsimp only at hs
  split at hs
  · rename_i u rest head putting
    obtain ⟨-, ⟨⟩⟩ := Option.ite_none_right_eq_some.1 hs
    refine h.leave _ sound ordered head ?_ fun _ => putting
    cases raises with
    | true => exact .inr (reportAt_eq_true (succeeds rfl) (by simp [head]))
    | false => exact .inl rfl
  · cases hs

/-- A report that waits for the lock is given up. -/
theorem InOrder.cancel {k : ℕ} (succeeds : s.reportAt k = true) (hs : s.step (.cancel k) = some s') : InOrder n s' := by
  unfold ProgramImpl.step at hs
  dsimp only at hs
  obtain ⟨behind, hs⟩ := Option.ite_none_right_eq_some.1 hs
  split at hs
  · rename_i u found
    cases hs
    obtain ⟨i, report⟩ := reportAt_eq_true succeeds found
    have expects := sound.expects u (mem_of_found found)
    unfold Expects at expects
    rw [report] at expects
    obtain ⟨-, loop, there, -⟩ := expects
    have dropped : Still s { s with updates := s.updates.eraseIdx k } := {
      stream := rfl
      mode := rfl
      taskLoop := rfl
      length := rfl
      loops := fun _ l at_k => ⟨l, at_k, rfl, rfl⟩
      emits := fun j => by
        by_cases putting : s.updateStage = .putting
        · -- The update at the head is another one.
          obtain ⟨v, rest, head⟩ := sound.headBusy (by rw [putting]; rintro ⟨⟩)
          obtain ⟨m, rfl⟩ : ∃ m, k = m + 1 := by
            rcases behind with entering | later
            · cases putting.symm.trans entering
            · exact ⟨k - 1, by omega⟩
          rw [emits_head head putting]
          have erased : ({ s with updates := s.updates.eraseIdx (m + 1) } : ProgramImpl).updates = v :: rest.eraseIdx m := by
            simp [head]
          exact emits_head erased putting
        · rw [emits_eq_false putting]
          exact emits_eq_false putting
      updates := fun v mem _ => List.mem_of_mem_eraseIdx mem
      starts := fun v mem j start => by
        obtain ⟨m, at_m⟩ := List.getElem?_of_mem mem
        refine List.mem_eraseIdx_iff_getElem?.2 ⟨m, fun same => ?_, at_m⟩
        rw [same, found] at at_m
        cases at_m
        cases start.symm.trans report }
    unfold ProgramImpl.proceed
    rw [report]
    simp only [there]
    exact (h.still dropped).still (still_setLoop there rfl rfl)
  · cases hs

theorem InOrder.startLoop (ordered : s.Ordered) (attached : s.mode = .attached) : InOrder n (s.startLoop contexts) where
  bounded := by
    have bounded := h.bounded
    simp only [ProgramImpl.startLoop, ProgramImpl.update, List.length_append, List.length_singleton]
    omega
  away away := absurd attached away
  current := by
    rintro i ⟨⟩
    exact h.bounded
  alive i loop le found := by
    rcases found_snoc found with before | ⟨-, rfl⟩
    · exact h.alive i loop le before
    · exact ⟨by rintro ⟨⟩, by rintro ⟨⟩⟩
  older u mem init := by
    rcases mem_snoc.1 mem with mem | mem
    · exact h.older u mem init
    · rw [mem] at init
      rcases init with ⟨⟨⟩⟩ | ⟨⟨⟩⟩
  unstarted := by
    rintro i loop ⟨⟩ _ _
    exact ⟨_, List.mem_append_right _ (List.mem_singleton_self _), rfl⟩
  reads i loop le found := by
    have emits : (s.startLoop contexts).emits i = s.emits i := emits_update sound.headBusy
    rw [emits]
    rcases found_snoc found with before | ⟨rfl, rfl⟩
    · exact h.reads i loop le before
    · -- Nothing has been published on behalf of the new session.
      have unpublished : s.published s.loops.length = [] := by
        refine List.filter_eq_nil_iff.2 fun event mem mine => ?_
        have entered := ordered.published.subset (List.mem_append_left _ mem)
        have less := ordered.bounded event entered _ (of_decide_eq_true mine)
        omega
      have silent : s.emits s.loops.length = false := by
        by_cases putting : s.updateStage = .putting
        · obtain ⟨u, rest, head⟩ := sound.headBusy (by rw [putting]; rintro ⟨⟩)
          rw [emits_head head putting]
          refine decide_eq_false fun mine => ?_
          obtain ⟨l, there, -⟩ := (sound.expects u (by simp [head])).awaits mine
          have less := lt_of_found there
          omega
        · exact emits_eq_false putting
      show readSession true _ (s.published _) = _
      rw [unpublished, silent]
      rfl

end

theorem still_stopLoop {abort : Bool} {job : Job} (busy : s.HeadBusy) (found : s.loops[i]? = some loop)
    (other : job ≠ .initClear ∧ job ≠ .initEnd) : Still s (s.stopLoop i loop abort job) := by
  have moved : Still s (s.setLoop i (loop.requestStop abort)) := still_setLoop found rfl rfl
  have busy : (s.setLoop i (loop.requestStop abort)).HeadBusy := busy
  exact moved.trans (still_update busy other)

/-- Steps that publish nothing and end no loop keep the sessions' events. -/
theorem InOrder.goes (h : InOrder n s) (sound : s.Sound) (ordered : s.Ordered) (goes : Goes s s') : InOrder n s' := by
  have busy := sound.headBusy
  cases goes with
  | stays => exact h
  | replies => exact h.still still_control
  | control => exact h.still still_control
  | startLoop attached => exact h.startLoop sound ordered attached
  | stop _ found => exact h.still (still_stopLoop busy found ⟨by rintro ⟨⟩, by rintro ⟨⟩⟩)
  | @enableStop i loop request _ _ found =>
    have locked : Still s { s with control := .enableStopping i request } := still_control
    exact h.still (locked.trans (still_stopLoop busy found ⟨by rintro ⟨⟩, by rintro ⟨⟩⟩))
  | publishEnable => exact h.still (still_control.trans (still_update busy ⟨by rintro ⟨⟩, by rintro ⟨⟩⟩))
  | works found _ steps => exact h.still (still_setLoop found steps.started steps.finalizer)
  | @reports i loop found =>
    have publishing : Still s (s.setLoop i { loop with publishing := true }) := still_setLoop found rfl rfl
    have busy : (s.setLoop i { loop with publishing := true }).HeadBusy := busy
    exact h.still (publishing.trans (still_update busy ⟨by rintro ⟨⟩, by rintro ⟨⟩⟩))

theorem InOrder.clear (h : InOrder n s) (sound : s.Sound) (hs : s.step (.clear i) = some s') : InOrder n s' := by
  obtain ⟨loop, found, hs⟩ := Option.bind_eq_some_iff.1 hs
  obtain ⟨⟨finalized, waiting⟩, ⟨⟩⟩ := Option.ite_none_right_eq_some.1 hs
  have sane := sound.sane i loop found
  have started := sane.started (sane.producerDone finalized)
  have free : ∀ u ∈ s.updates, u.job.owner ≠ some i := by
    refine sound.unowned found started waiting fun reporting => ?_
    rw [reporting.unfinalized] at finalized
    cases finalized
  have silent : s.emits i = false := by
    by_cases putting : s.updateStage = .putting
    · obtain ⟨u, rest, head⟩ := sound.headBusy (by rw [putting]; rintro ⟨⟩)
      exact emits_other head (free u (by simp [head]))
    · exact emits_eq_false putting
  refine InOrder.still ?_ (still_update sound.headBusy ⟨by rintro ⟨⟩, by rintro ⟨⟩⟩)
  exact {
    bounded := by
      unfold ProgramImpl.setLoop
      rw [List.length_set]
      exact h.bounded
    away := by
      unfold ProgramImpl.setLoop
      rw [List.length_set]
      exact h.away
    current := h.current
    alive := fun k l le there => by
      obtain ⟨rfl, rfl⟩ | ⟨-, before⟩ := found_set there
      · exact ⟨by rintro ⟨⟩, by rintro ⟨⟩⟩
      · exact h.alive k l le before
    older := h.older
    unstarted := fun k l current there unstarted => by
      obtain ⟨rfl, rfl⟩ | ⟨-, before⟩ := found_set there
      · cases started.symm.trans unstarted
      · exact h.unstarted k l current before unstarted
    reads := fun k l le there => by
      obtain ⟨rfl, rfl⟩ | ⟨-, before⟩ := found_set there
      · have reads := h.reads k loop le found
        rw [silent] at reads
        show readSession true k (s.published k) = some (TaskingLoop.stage _ (s.emits k))
        rw [silent, reads]
        simp [TaskingLoop.stage, waiting, started]
      · exact h.reads k l le before }

theorem InOrder.step {a : ProgramLabel} (h : InOrder n s) (sound : s.Sound) (ordered : s.Ordered)
    (succeeds : s.PublicationsSucceed a) (hs : s.step a = some s') : InOrder n s' := by
  by_cases quiet : a.loud = false
  · exact h.goes sound ordered (sound.goes hs quiet)
  cases a with
  | init readable stored raises =>
    obtain rfl : raises = false := succeeds
    exact h.init sound ordered hs
  | crash => exact succeeds.elim
  | enter eventId => exact h.enter sound ordered hs
  | emit published raises => exact h.emit sound ordered succeeds hs
  | put stored raises => exact h.put sound ordered succeeds hs
  | cancel k => exact h.cancel sound succeeds hs
  | clear i => exact h.clear sound hs
  | _ => exact absurd rfl quiet

/-- A program that has not been started again has no session of its own. -/
theorem inOrder_down (sound : s.Sound) (down : s.mode = .down) : InOrder s.loops.length s where
  bounded := Nat.le_refl _
  away _ := rfl
  current i current := by
    cases (sound.detached (by rw [down]; rintro ⟨⟩)).2.symm.trans current
  alive i loop le found := by
    have less := lt_of_found found
    omega
  older u mem := by
    rw [sound.down down] at mem
    cases mem
  unstarted i loop current := by
    cases (sound.detached (by rw [down]; rintro ⟨⟩)).2.symm.trans current
  reads i loop le found := by
    have less := lt_of_found found
    omega

/-! ## Runs -/

/-- What is promised of the sessions from `n` on. -/
structure SessionsApart (n : ℕ) (s : ProgramImpl) : Prop where
  /-- At most one tasking loop is unfinalized. -/
  unfinalized : ∀ (i j : ℕ) loop loop', n ≤ i → n ≤ j → s.loops[i]? = some loop → s.loops[j]? = some loop' →
    loop.finalized = false → loop'.finalized = false → i = j
  /-- A start accepted while active is answered with the running session. -/
  accepted : ∀ a s' i, (∃ contexts, a = .start contexts) ∨ a = .startResumes → s.step a = some s' →
    s'.replies = s.replies ++ [.accepted i] → s.state.activeState.active = true →
      s'.loops = s.loops ∧ s.taskLoop = some i ∧ ∃ loop, s.loops[i]? = some loop ∧ loop.running = true
  /-- A request to stop or abort an ended session changes nothing. -/
  stopped : ∀ (i : ℕ) loop abort s', s.loops[i]? = some loop → loop.finalizer = .done →
    s.step (.stop (some i) abort) = some s' → s' = s
  /-- Each session publishes its events in order, and none after its inactive one. -/
  published : ∀ (i : ℕ) loop, n ≤ i → s.loops[i]? = some loop →
    ∃ stage, readSession true i (s.published i) = some stage ∧ (loop.finalizer = .done → stage = .ended)

/-- An active program that handles requests has a loop. -/
theorem Ordered.current_of_active (ordered : s.Ordered) (attached : s.mode = .attached)
    (active : s.state.activeState.active = true) : s.taskLoop ≠ none := by
  intro none
  obtain ⟨i, session, -⟩ := ordered.state.active.below active
  cases (none.symm.trans (ordered.state.active.current attached active)).trans session

/-- A start request that is accepted while active names the current loop. -/
theorem startTasking_accepted (active : s.state.activeState.active = true)
    (replied : (s.startTasking contexts).replies = s.replies ++ [.accepted i]) :
    (s.startTasking contexts).loops = s.loops ∧ s.taskLoop = some i := by
  unfold ProgramImpl.startTasking at replied ⊢
  split_ifs at replied ⊢
  · cases List.append_cancel_left replied
  · cases List.append_cancel_left replied
  · split at replied
    · rename_i session current
      cases List.append_cancel_left replied
      exact ⟨rfl, current⟩
    · cases List.append_cancel_left replied

theorem start_accepted (ordered : s.Ordered)
    (active : s.state.activeState.active = true) (hs : s.step (.start contexts) = some s')
    (replied : s'.replies = s.replies ++ [.accepted i]) :
    s'.loops = s.loops ∧ s.taskLoop = some i ∧ ∃ loop, s.loops[i]? = some loop ∧ loop.running = true := by
  unfold ProgramImpl.step at hs
  dsimp only at hs
  split_ifs at hs with detached held
  · cases hs
    cases List.append_cancel_left replied
  · split at hs
    · rename_i none
      exact absurd none (ordered.current_of_active (not_not.1 detached) active)
    · rename_i session current
      split at hs
      · cases hs
      · rename_i loop found
        split_ifs at hs with run unfinalized
        · cases hs
          obtain ⟨same, named⟩ := startTasking_accepted active replied
          obtain rfl : session = i := Option.some.inj (current.symm.trans named)
          exact ⟨same, current, loop, found, run⟩
        · cases hs
          cases List.append_cancel_left replied
        · cases hs
          have length := congrArg List.length replied
          simp at length

theorem startResumes_accepted (sound : s.Sound) (ordered : s.Ordered) (active : s.state.activeState.active = true)
    (hs : s.step .startResumes = some s') : s'.replies ≠ s.replies ++ [.accepted i] := by
  intro replied
  unfold ProgramImpl.step at hs
  dsimp only at hs
  split at hs
  · rename_i session contexts waiting
    split at hs
    · rename_i loop found
      split at hs
      · rename_i done
        have attached := sound.attached_of_control (by rw [waiting]; rintro ⟨⟩)
        exact ordered.current_of_active attached active (sound.noLoop waiting found done)
      · cases hs
        cases List.append_cancel_left replied
      · cases hs
    · cases hs
  · cases hs

theorem stop_ended {abort : Bool} (sound : s.Sound) (found : s.loops[i]? = some loop) (done : loop.finalizer = .done)
    (hs : s.step (.stop (some i) abort) = some s') : s' = s := by
  unfold ProgramImpl.step at hs
  dsimp only at hs
  obtain ⟨-, hs⟩ := Option.ite_none_left_eq_some.1 hs
  have other : s.targetedLoop (some i) = none := by
    unfold ProgramImpl.targetedLoop
    split
    · rfl
    · rename_i session current
      refine if_neg ?_
      rintro (⟨⟨⟩⟩ | ⟨⟨⟩⟩)
      exact ((sound.live i loop found).1 current).1 done
  rw [other] at hs
  exact (Option.some.inj hs).symm

theorem InOrder.apart (h : InOrder n s) (sound : s.Sound) (ordered : s.Ordered) : SessionsApart n s where
  unfinalized := by
    -- A loop that is not finalized is the current one.
    have current : ∀ (i : ℕ) loop, n ≤ i → s.loops[i]? = some loop → loop.finalized = false → s.taskLoop = some i := by
      intro i loop le found unfinalized
      refine (sound.live i loop found).2 (live_of (?_ : loop.finalizer = .waiting) (by decide))
      by_contra moved
      have finalized := (sound.sane i loop found).finalized moved (h.alive i loop le found).1
      cases unfinalized.symm.trans finalized
    intro i j loop loop' le le' found found' unfinalized unfinalized'
    exact Option.some.inj ((current i loop le found unfinalized).symm.trans (current j loop' le' found' unfinalized'))
  accepted := by
    rintro a s' i (⟨contexts, rfl⟩ | rfl) hs replied active
    · exact start_accepted ordered active hs replied
    · exact absurd replied (startResumes_accepted sound ordered active hs)
  stopped _ _ _ _ found done hs := stop_ended sound found done hs
  published i loop le found := by
    refine ⟨_, h.reads i loop le found, fun done => ?_⟩
    unfold TaskingLoop.stage
    rw [done]

/-- **Tasking sessions do not overlap or leak.** From any restart on, while publications succeed, at most one loop is
unfinalized, a start accepted while active names the running session, stopping an ended session changes nothing, and
each session publishes its events in order and none after its inactive one. -/
theorem sessions_apart {s₀ : ProgramImpl} (earlier : Reaches ProgramImpl.step always {} s₀) (down : s₀.mode = .down)
    (run : Reaches ProgramImpl.step ProgramImpl.PublicationsSucceed s₀ s) : SessionsApart s₀.loops.length s := by
  obtain ⟨sound₀, ordered₀⟩ := sound_and_ordered earlier
  have kept := run.invariant (I := fun s => InOrder s₀.loops.length s ∧ s.Sound ∧ s.Ordered)
    ⟨inOrder_down sound₀ down, sound₀, ordered₀⟩
    fun _ _ _ before succeeds hs => ⟨before.1.step before.2.1 before.2.2 succeeds hs, before.2.1.step hs,
      before.2.2.step before.2.1 hs⟩
  exact kept.1.apart kept.2.1 kept.2.2

/-! ## A stop request that comes late -/

/-- The first update is published under the given identifier. -/
def publishes (eventId : ℕ) : List ProgramLabel :=
  [.enter eventId, .emit true false, .put true false]

/-- A request to stop arrives while the tasking state is being cleared. -/
def stoppedLate : List ProgramLabel :=
  [.init true true false, .setEnableState ⟨true, some "dome"⟩] ++ publishes 1 ++ [.hooksReturn, .start []] ++
    publishes 2 ++ [.report 0] ++ publishes 3 ++ [.startReturns, .producerExits 0, .finalize 0 false, .clear 0] ++
    [.enter 4, .stop none false, .emit true false, .put true false] ++ publishes 5 ++ publishes 6

set_option maxRecDepth 100000 in
theorem sessions_apart_stoppedLate : ∃ s, exec ProgramImpl.step {} stoppedLate = some s ∧
    s.loops.map (·.finalizer) = [.done] ∧ SessionsApart 0 s := by
  have ends : ((exec ProgramImpl.step {} stoppedLate).map fun s => s.loops.map (·.finalizer)) = some [.done] := by
    decide +kernel
  obtain ⟨s, run, done⟩ := Option.map_eq_some_iff.1 ends
  have reaches : Reaches ProgramImpl.step ProgramImpl.PublicationsSucceed {} s := reaches_of_exec run (by decide +kernel)
  exact ⟨s, run, done, sessions_apart (.refl _) rfl reaches⟩

set_option maxRecDepth 100000 in
/-- The stopping state is published after the cleared tasking state. -/
theorem stopping_after_cleared : ∃ s, Reaches ProgramImpl.step ProgramImpl.PublicationsSucceed {} s ∧
    readSession false 0 (s.published 0) = none ∧ readSession true 0 (s.published 0) = some .ended := by
  have ends : ((exec ProgramImpl.step {} stoppedLate).map fun s =>
      (readSession false 0 (s.published 0), readSession true 0 (s.published 0))) = some (none, some .ended) := by
    decide +kernel
  obtain ⟨s, run, read⟩ := Option.map_eq_some_iff.1 ends
  simp only [Prod.mk.injEq] at read
  exact ⟨s, reaches_of_exec run (by decide +kernel), read⟩

end ProgramImpl

end SensorKit.Core.Tasking
