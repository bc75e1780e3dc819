import SensorKit.Core.ProgramImpl

/-!
# What the outstanding updates say

Each update that has asked for the state lock tells where its owner stands. No two updates belong to one owner, except
those of stop requests.
-/

namespace SensorKit.Core.Tasking

open Lib

/-- Any number of requests may stop a loop. -/
def Job.shared : Job → Bool
  | .stop _ => true
  | _ => false

/-- The loop whose start, report or finalizer goes on after the update. -/
def Job.owner : Job → Option ℕ
  | .start i | .report i | .clear i | .finish i => some i
  | _ => none

/-- The holder of the control lock goes on after the update. -/
def Job.controls : Job → Bool
  | .start _ | .enableStop _ | .enable => true
  | _ => false

/-- The holder of the control lock awaits no update. -/
def Control.idle : Control → Bool
  | .publishing _ | .enableStopping .. | .enabling => false
  | _ => true

/-- The only update that the holder of the control lock can await. -/
def Control.awaits : Control → Option Job
  | .publishing i => some (.start i)
  | .enableStopping i _ => some (.enableStop i)
  | .enabling => some .enable
  | _ => none

/-- What is asked of a loop while a task of it publishes its state. -/
structure Reporting (loop : TaskingLoop) : Prop where
  publishing : loop.publishing = true
  started : loop.started = true
  unfinalized : loop.finalized = false
  waiting : loop.finalizer = .waiting

/-- The finalizer has not ended, and neither has its process. -/
def TaskingLoop.Live (loop : TaskingLoop) : Prop :=
  loop.finalizer ≠ .done ∧ loop.finalizer ≠ .lost

structure TaskingLoop.Sane (loop : TaskingLoop) (i : ℕ) : Prop where
  named : loop.loopState.sessionId = i
  started : loop.producerDone = true → loop.started = true
  producerDone : loop.finalized = true → loop.producerDone = true
  finalized : loop.finalizer ≠ .waiting → loop.finalizer ≠ .lost → loop.finalized = true

/-- The only update of its own that the loop, or its finalizer, can await. -/
def TaskingLoop.awaits (loop : TaskingLoop) (i : ℕ) : Option Job :=
  if loop.started = false then some (.start i)
  else
    match loop.finalizer with
    | .waiting => some (.report i)
    | .clearing => some (.clear i)
    | .ending => some (.finish i)
    | _ => none

/-- It may publish an event, or end a loop. -/
def ProgramLabel.loud : ProgramLabel → Bool
  | .init .. | .crash | .enter _ | .emit .. | .put .. | .cancel _ | .clear _ => true
  | _ => false

namespace ProgramImpl

variable (s : ProgramImpl) {s' : ProgramImpl} {ok : Bool} {contexts : TaskContextMap} {rest : List Update}

/-- Where the owner of an outstanding update stands, and what it publishes. -/
def Expects (u : Update) : Prop :=
  match u.job with
  | .start i => s.control = .publishing i ∧ u.loop = none ∧
      (∃ loop, s.loops[i]? = some loop ∧ loop.started = false ∧ loop.finalizer = .waiting) ∧
        ∃ contexts, u.event = .active { active := true, origin := .request, contexts, session := some i }
  | .report i => u.loop = some i ∧ ∃ loop, s.loops[i]? = some loop ∧ Reporting loop ∧
      ∃ loopState executionState,
        u.event = .tasking { loopState := some loopState, executionState, session := some i } ∧
          loopState.sessionId = i ∧ (loopState.fault ≠ none → loop.loopState = loopState)
  | .clear i => u.loop = none ∧
      (∃ loop, s.loops[i]? = some loop ∧ loop.started = true ∧ loop.finalizer = .clearing) ∧
        ∃ executionState, u.event = .tasking { executionState, session := some i }
  | .finish i => u.loop = none ∧
      (∃ loop, s.loops[i]? = some loop ∧ loop.started = true ∧ loop.finalizer = .ending) ∧
        ∃ origin, u.event = .active { active := false, origin, session := some i }
  | .stop i => s.mode = .attached ∧ u.loop = some i ∧ i < s.loops.length ∧
      ∃ origin contexts, u.event = .active { active := true, origin, stopping := true, contexts, session := some i }
  | .enableStop i => (∃ request, s.control = .enableStopping i request) ∧ u.loop = some i ∧ i < s.loops.length ∧
      ∃ origin contexts, u.event = .active { active := true, origin, stopping := true, contexts, session := some i }
  | .enable => s.control = .enabling ∧ u.loop = none ∧
      ∃ enabled controller, u.event = .enable { enabled, controller }
  | .initClear => s.mode = .starting ∧ u.loop = none ∧
      ∃ executionState session, u.event = .tasking { executionState, session := some session }
  | .initEnd => s.mode = .starting ∧ u.loop = none ∧
      ∃ session, u.event = .active { active := false, origin := .init, session }

structure Sound : Prop where
  sane : ∀ (i : ℕ) loop, s.loops[i]? = some loop → loop.Sane i
  current : ∀ i, s.taskLoop = some i → i + 1 = s.loops.length
  live : ∀ (i : ℕ) loop, s.loops[i]? = some loop → (s.taskLoop = some i ↔ loop.Live)
  down : s.mode = .down → s.updates = []
  starting : s.mode = .starting → s.updates.length ≤ 1
  detached : s.mode ≠ .attached → s.control = .free ∧ s.taskLoop = none
  expects : ∀ u ∈ s.updates, s.Expects u
  unique : s.updates.Pairwise fun a b => a.job = b.job → a.job.shared = true
  stage : s.updateStage ≠ .entering → ∃ u rest id, s.updates = u :: rest ∧
    s.state.set (u.event.withId id) = s.state ∧ (∀ event, s.updateStage = .emitting event → event = u.event.withId id) ∧
      ∀ i, u.loop = some i → s.taskLoop = some i
  /-- Nothing of a session is ahead of its active state. -/
  fifo : s.updates.Pairwise fun a b => ∀ i, b.job = .start i → a.event.session ≠ some i
  running : ∀ (i : ℕ) loop, s.taskLoop = some i → s.loops[i]? = some loop → loop.running = true →
    s.state.activeState.active = true
  startWaiting : ∀ i contexts, s.control = .startWaiting i contexts → i + 1 = s.loops.length

/-- The update `u` is at hand: it has left the lock's queue, and its owner has not gone on yet. -/
structure AtHand (u : Update) : Prop where
  expects : s.Expects u
  alone : ∀ v ∈ s.updates, v.job = u.job → v.job.shared = true
  last : s.mode = .starting → s.updates = []

variable {s} {u v : Update} {i : ℕ} {loop loop' : TaskingLoop}

/-! ## Frames -/

/-- The loop tells which update of its own is outstanding, if any is. -/
theorem Expects.awaits (h : s.Expects u) (mine : u.job.owner = some i) :
    ∃ loop, s.loops[i]? = some loop ∧ loop.awaits i = some u.job := by
  obtain ⟨event, guard, job⟩ := u
  cases job <;> cases mine
  case start =>
    obtain ⟨-, -, ⟨loop, found, unstarted, -⟩, -⟩ := h
    exact ⟨loop, found, by simp [TaskingLoop.awaits, unstarted]⟩
  case report =>
    obtain ⟨-, loop, found, reporting, -⟩ := h
    exact ⟨loop, found, by simp [TaskingLoop.awaits, reporting.started, reporting.waiting]⟩
  case clear =>
    obtain ⟨-, ⟨loop, found, started, clearing⟩, -⟩ := h
    exact ⟨loop, found, by simp [TaskingLoop.awaits, started, clearing]⟩
  case finish =>
    obtain ⟨-, ⟨loop, found, started, ending⟩, -⟩ := h
    exact ⟨loop, found, by simp [TaskingLoop.awaits, started, ending]⟩

/-- Updates of one owner are the same: the owner stands at one place. -/
theorem Expects.job_eq (hu : s.Expects u) (hv : s.Expects v) (mine : u.job.owner = some i)
    (mine' : v.job.owner = some i) : v.job = u.job := by
  obtain ⟨loop, found, job⟩ := hu.awaits mine
  obtain ⟨loop', found', job'⟩ := hv.awaits mine'
  rw [found] at found'
  cases found'
  rw [job] at job'
  exact (Option.some.inj job').symm

/-- A step of the loop that the finalizer and the outstanding updates do not depend on. -/
structure Steps (loop loop' : TaskingLoop) : Prop where
  started : loop'.started = loop.started
  publishing : loop'.publishing = loop.publishing
  finalizer : loop'.finalizer = loop.finalizer
  finalized : loop.publishing = true → loop'.finalized = loop.finalized
  fault : loop.loopState.fault ≠ none → loop'.loopState = loop.loopState
  running : loop'.running = true → loop.running = true

theorem Steps.refl : Steps loop loop :=
  ⟨rfl, rfl, rfl, fun _ => rfl, fun _ => rfl, id⟩

/-- An update still tells where its owner stands, if the owner's loop does no more than a step. -/
theorem Expects.frame (h : s.Expects u) (control : s'.control = s.control) (mode : s'.mode = s.mode)
    (length : s.loops.length ≤ s'.loops.length)
    (loops : ∀ (i : ℕ) loop, u.job.owner = some i → s.loops[i]? = some loop →
      ∃ loop', s'.loops[i]? = some loop' ∧ Steps loop loop') : s'.Expects u := by
  obtain ⟨event, guard, job⟩ := u
  unfold Expects at h ⊢
  rw [control, mode]
  cases job
  case start i =>
    obtain ⟨control, free, ⟨loop, found, unstarted, waiting⟩, shape⟩ := h
    obtain ⟨loop', there, steps⟩ := loops i loop rfl found
    exact ⟨control, free, ⟨loop', there, steps.started.trans unstarted, steps.finalizer.trans waiting⟩, shape⟩
  case report i =>
    obtain ⟨guarded, loop, found, reporting, loopState, executionState, shape, named, kept⟩ := h
    obtain ⟨loop', there, steps⟩ := loops i loop rfl found
    refine ⟨guarded, loop', there, ?_, loopState, executionState, shape, named, ?_⟩
    · exact {
        publishing := steps.publishing.trans reporting.publishing
        started := steps.started.trans reporting.started
        unfinalized := (steps.finalized reporting.publishing).trans reporting.unfinalized
        waiting := steps.finalizer.trans reporting.waiting }
    · intro fault
      have same := kept fault
      rw [← same] at fault
      exact (steps.fault fault).trans same
  case clear i =>
    obtain ⟨free, ⟨loop, found, started, clearing⟩, shape⟩ := h
    obtain ⟨loop', there, steps⟩ := loops i loop rfl found
    exact ⟨free, ⟨loop', there, steps.started.trans started, steps.finalizer.trans clearing⟩, shape⟩
  case finish i =>
    obtain ⟨free, ⟨loop, found, started, ending⟩, shape⟩ := h
    obtain ⟨loop', there, steps⟩ := loops i loop rfl found
    exact ⟨free, ⟨loop', there, steps.started.trans started, steps.finalizer.trans ending⟩, shape⟩
  case stop i =>
    obtain ⟨attached, guarded, less, shape⟩ := h
    exact ⟨attached, guarded, Nat.lt_of_lt_of_le less length, shape⟩
  case enableStop i =>
    obtain ⟨held, guarded, less, shape⟩ := h
    exact ⟨held, guarded, Nat.lt_of_lt_of_le less length, shape⟩
  all_goals exact h

theorem Expects.steps (h : s.Expects u) (found : s.loops[i]? = some loop) (steps : Steps loop loop') :
    (s.setLoop i loop').Expects u := by
  refine h.frame rfl rfl (Nat.le_of_eq List.length_set.symm) fun k l _ there => ?_
  by_cases same : k = i
  · subst same
    rw [found] at there
    cases there
    exact ⟨loop', set_found found, steps⟩
  · exact ⟨l, found_set_of_ne there same, .refl⟩

/-- The change of a loop does not concern the other owners. -/
theorem Expects.setLoop (h : s.Expects u) (other : u.job.owner ≠ some i) : (s.setLoop i loop).Expects u := by
  refine h.frame rfl rfl (Nat.le_of_eq List.length_set.symm) fun k l mine there => ?_
  refine ⟨l, found_set_of_ne there ?_, .refl⟩
  rintro rfl
  exact other mine

/-- A step of the control lock's holder concerns only the updates that it awaits. -/
theorem Expects.control {control : Control} {replies : List Reply} (h : s.Expects u) (other : u.job.controls = false) :
    ({ s with control, replies } : ProgramImpl).Expects u := by
  obtain ⟨event, guard, job⟩ := u
  cases job <;> first | exact h | cases other

theorem Expects.controls_eq_false (h : s.Expects u) (idle : s.control.idle = true) : u.job.controls = false := by
  obtain ⟨event, guard, job⟩ := u
  cases job
  case start => rw [h.1] at idle; cases idle
  case enableStop =>
    obtain ⟨⟨request, control⟩, -⟩ := h
    rw [control] at idle
    cases idle
  case enable => rw [h.1] at idle; cases idle
  all_goals rfl

/-! ## What the operations keep -/

theorem Sound.update {event : Event} {guard : Option ℕ} {job : Job} (h : s.Sound) (attached : s.mode = .attached)
    (expects : s.Expects ⟨event, guard, job⟩) (new : ∀ v ∈ s.updates, v.job = job → v.job.shared = true)
    (first : ∀ i, job = .start i → ∀ v ∈ s.updates, v.event.session ≠ some i) :
    (s.update event guard job).Sound := by
  refine { h with down := ?_, starting := ?_, expects := ?_, unique := ?_, stage := ?_, fifo := ?_ }
  · intro down
    cases attached.symm.trans down
  · intro starting
    cases attached.symm.trans starting
  · intro u mem
    rcases mem_snoc.1 mem with mem | mem
    · exact h.expects u mem
    · rw [mem]
      exact expects
  · refine List.pairwise_append.2 ⟨h.unique, List.pairwise_singleton .., ?_⟩
    intro v mem w last same
    rw [List.mem_singleton.1 last] at same
    exact new v mem same
  · intro busy
    obtain ⟨u, rest, id, head, shown⟩ := h.stage busy
    refine ⟨u, rest ++ [⟨event, guard, job⟩], id, ?_, shown⟩
    show s.updates ++ _ = _
    rw [head, List.cons_append]
  · refine List.pairwise_append.2 ⟨h.fifo, List.pairwise_singleton .., ?_⟩
    intro v mem w last i start
    rw [List.mem_singleton.1 last] at start
    exact first i start v mem

theorem Sound.control {control : Control} {replies : List Reply} (h : s.Sound) (attached : s.mode = .attached)
    (others : ∀ u ∈ s.updates, u.job.controls = false)
    (waits : ∀ i contexts, control = .startWaiting i contexts → i + 1 = s.loops.length) :
    ({ s with control, replies } : ProgramImpl).Sound :=
  { h with
    detached := fun ne => absurd attached ne
    expects := fun u mem => (h.expects u mem).control (others u mem)
    startWaiting := waits }

theorem Sound.setLoop (h : s.Sound) (found : s.loops[i]? = some loop) (sane : loop'.Sane i)
    (live : loop'.Live ↔ loop.Live) (others : ∀ u ∈ s.updates, (s.setLoop i loop').Expects u)
    (running : loop'.running = true → loop.running = true ∨ s.state.activeState.active = true) :
    (s.setLoop i loop').Sound := by
  refine { h with sane := ?_, current := ?_, live := ?_, expects := others, running := ?_, startWaiting := ?_ }
  · intro k l there
    obtain ⟨rfl, rfl⟩ | ⟨-, before⟩ := found_set there
    · exact sane
    · exact h.sane k l before
  · intro k current
    unfold ProgramImpl.setLoop
    rw [List.length_set]
    exact h.current k current
  · intro k l there
    obtain ⟨rfl, rfl⟩ | ⟨-, before⟩ := found_set there
    · exact (h.live k loop found).trans live.symm
    · exact h.live k l before
  · intro k l current there run
    obtain ⟨rfl, rfl⟩ | ⟨-, before⟩ := found_set there
    · rcases running run with before | active
      · exact h.running k loop current found before
      · exact active
    · exact h.running k l current before run
  · intro k contexts waits
    unfold ProgramImpl.setLoop
    rw [List.length_set]
    exact h.startWaiting k contexts waits

theorem Sound.steps (h : s.Sound) (found : s.loops[i]? = some loop) (sane : loop'.Sane i)
    (steps : Steps loop loop') : (s.setLoop i loop').Sound := by
  refine h.setLoop found sane ?_ (fun u mem => (h.expects u mem).steps found steps) fun run => .inl (steps.running run)
  unfold TaskingLoop.Live
  rw [steps.finalizer]

/-- The other outstanding updates have other owners. -/
theorem AtHand.others (h : s.AtHand u) (sound : s.Sound) (mine : u.job.owner = some i) :
    ∀ v ∈ s.updates, v.job.owner ≠ some i := by
  intro v mem mine'
  have same := h.expects.job_eq (sound.expects v mem) mine mine'
  have shared := h.alone v mem same
  rw [same] at shared
  cases job : u.job <;> rw [job] at shared mine
  all_goals first | (cases shared; done) | cases mine

/-- After an update of its own, a loop goes on, or its finalizer does. -/
theorem AtHand.setLoop (h : s.AtHand u) (sound : s.Sound) (mine : u.job.owner = some i)
    (found : s.loops[i]? = some loop) (sane : loop'.Sane i) (live : loop'.Live ↔ loop.Live)
    (running : loop'.running = true → loop.running = true ∨ s.state.activeState.active = true) :
    (s.setLoop i loop').Sound :=
  sound.setLoop found sane live (fun v mem => (sound.expects v mem).setLoop (h.others sound mine v mem)) running

/-! ## Requests -/

theorem Sound.uncontrolled (h : s.Sound) (idle : s.control.idle = true) : ∀ u ∈ s.updates, u.job.controls = false :=
  fun u mem => (h.expects u mem).controls_eq_false idle

/-- A new loop concerns no outstanding update. -/
theorem Expects.newLoop {taskLoop : Option ℕ} (h : s.Expects u) :
    ({ s with loops := s.loops ++ [loop], taskLoop } : ProgramImpl).Expects u := by
  refine h.frame rfl rfl ?_ fun k l _ there => ⟨l, found_snoc_of_found there, .refl⟩
  dsimp only
  rw [List.length_append]
  omega

theorem live_of {stage : FinalizerStage} (is : loop.finalizer = stage) (going : stage ≠ .done ∧ stage ≠ .lost) :
    loop.Live := by
  rw [TaskingLoop.Live, is]
  exact going

theorem finalized_of {stage : FinalizerStage} (sane : loop.Sane i) (is : loop.finalizer = stage)
    (moved : stage ≠ .waiting ∧ stage ≠ .lost) : loop.finalized = true := by
  refine sane.finalized ?_ ?_
  · rw [is]
    exact moved.1
  · rw [is]
    exact moved.2

/-- An owner's loop exists. -/
theorem Expects.owner_lt (h : s.Expects u) (mine : u.job.owner = some i) : i < s.loops.length := by
  obtain ⟨loop, found, -⟩ := h.awaits mine
  exact lt_of_found found

/-- While requests are handled, the outstanding updates are about existing loops. -/
theorem Expects.session_lt (h : s.Expects u) (attached : s.mode = .attached) (mine : u.event.session = some i) :
    i < s.loops.length := by
  obtain ⟨event, guard, job⟩ := u
  cases job with
  | start k =>
    obtain ⟨-, -, ⟨loop, found, -⟩, contexts, rfl⟩ := h
    cases mine
    exact lt_of_found found
  | report k =>
    obtain ⟨-, loop, found, -, loopState, executionState, rfl, -⟩ := h
    cases mine
    exact lt_of_found found
  | clear k =>
    obtain ⟨-, ⟨loop, found, -⟩, executionState, rfl⟩ := h
    cases mine
    exact lt_of_found found
  | finish k =>
    obtain ⟨-, ⟨loop, found, -⟩, origin, rfl⟩ := h
    cases mine
    exact lt_of_found found
  | stop k =>
    obtain ⟨-, -, less, origin, contexts, rfl⟩ := h
    cases mine
    exact less
  | enableStop k =>
    obtain ⟨-, -, less, origin, contexts, rfl⟩ := h
    cases mine
    exact less
  | enable =>
    obtain ⟨-, -, enabled, controller, rfl⟩ := h
    cases mine
  | initClear => cases attached.symm.trans h.1
  | initEnd => cases attached.symm.trans h.1

theorem Sound.startLoop (h : s.Sound) (attached : s.mode = .attached)
    (others : ∀ u ∈ s.updates, u.job.controls = false) (none : s.taskLoop = none) : (s.startLoop contexts).Sound := by
  unfold ProgramImpl.startLoop
  refine Sound.update { h with
    sane := ?_, current := ?_, live := ?_, detached := ?_, expects := ?_, stage := ?_, running := ?_
    startWaiting := ?_ } attached ?_ ?_ ?_
  · intro i loop found
    rcases found_snoc found with before | ⟨rfl, rfl⟩
    · exact h.sane i loop before
    · exact ⟨rfl, by rintro ⟨⟩, by rintro ⟨⟩, fun waiting => absurd rfl waiting⟩
  · rintro i ⟨⟩
    show s.loops.length + 1 = (s.loops ++ _).length
    rw [List.length_append, List.length_singleton]
  · intro i loop found
    rcases found_snoc found with before | ⟨rfl, rfl⟩
    · -- The earlier loops have ended.
      have less := lt_of_found before
      have gone := h.live i loop before
      rw [none] at gone
      exact ⟨fun same => by cases same; omega, fun live => by cases gone.2 live⟩
    · exact ⟨fun _ => ⟨by rintro ⟨⟩, by rintro ⟨⟩⟩, fun _ => rfl⟩
  · exact fun ne => absurd attached ne
  · intro u mem
    exact (h.expects u mem).newLoop.control (others u mem)
  · intro busy
    obtain ⟨u, rest, id, head, shown, event, guarded⟩ := h.stage busy
    refine ⟨u, rest, id, head, shown, event, fun i guard => ?_⟩
    cases none.symm.trans (guarded i guard)
  · rintro i loop ⟨⟩ found run
    rcases found_snoc found with before | ⟨-, rfl⟩
    · have less := lt_of_found before
      omega
    · cases run
  · rintro i others ⟨⟩
  · exact ⟨rfl, rfl, ⟨_, List.getElem?_concat_length, rfl, rfl⟩, contexts, rfl⟩
  · intro v mem same
    have mine : v.job.owner = some s.loops.length := by
      rw [same]
      rfl
    have less := (h.expects v mem).owner_lt mine
    omega
  · rintro i ⟨⟩ v mem mine
    have less := (h.expects v mem).session_lt attached mine
    omega

theorem requestStop_steps {abort : Bool} : Steps loop (loop.requestStop abort) where
  started := rfl
  publishing := rfl
  finalizer := rfl
  finalized _ := rfl
  fault _ := rfl
  running run := by simp [TaskingLoop.running, TaskingLoop.requestStop] at run

theorem requestStop_sane {abort : Bool} (sane : loop.Sane i) : (loop.requestStop abort).Sane i where
  named := sane.named
  started := sane.started
  producerDone := sane.producerDone
  finalized := sane.finalized

theorem Sound.stopLoop {abort : Bool} {job : Job} (h : s.Sound) (attached : s.mode = .attached)
    (found : s.loops[i]? = some loop)
    (expects : ∀ origin contexts, s.Expects
      ⟨.active { active := true, origin, stopping := true, contexts, session := some i }, some i, job⟩)
    (other : job.owner = none) (new : ∀ v ∈ s.updates, v.job = job → v.job.shared = true) :
    (s.stopLoop i loop abort job).Sound := by
  unfold ProgramImpl.stopLoop
  have stopped : (s.setLoop i (loop.requestStop abort)).Sound :=
    h.steps found (requestStop_sane (h.sane i loop found)) requestStop_steps
  refine stopped.update attached ((expects _ _).setLoop (by rw [other]; rintro ⟨⟩)) new ?_
  rintro k rfl
  cases other

theorem Sound.publishEnable {request : EnableRequest} (h : s.Sound) (attached : s.mode = .attached)
    (others : ∀ u ∈ s.updates, u.job.controls = false) : (s.publishEnable request).Sound := by
  unfold ProgramImpl.publishEnable
  have locked : ({ s with control := .enabling } : ProgramImpl).Sound := h.control attached others (by rintro _ _ ⟨⟩)
  refine locked.update attached ⟨rfl, rfl, _, _, rfl⟩ ?_ (by rintro i ⟨⟩)
  intro v mem same
  have free := others v mem
  rw [same] at free
  cases free

/-! ## `init_impl` -/

section

variable (h : s.Sound) (none : s.updates = []) (away : s.mode ≠ .attached)
include h none away

/-- A program that starts publishes its first update. -/
theorem Sound.first {event : Event} {job : Job}
    (expects : ({ s with mode := .starting } : ProgramImpl).Expects ⟨event, Option.none, job⟩) :
    (({ s with mode := .starting } : ProgramImpl).update event Option.none job).Sound := by
  unfold ProgramImpl.update
  dsimp only
  rw [none]
  refine { h with
    down := ?_, starting := ?_, detached := ?_, expects := ?_, unique := ?_, stage := ?_
    fifo := List.pairwise_singleton .. }
  · rintro ⟨⟩
  · exact fun _ => Nat.le_refl 1
  · exact fun _ => h.detached away
  · intro u mem
    rw [List.mem_singleton.1 mem]
    exact expects
  · exact List.pairwise_singleton ..
  · intro busy
    obtain ⟨u, rest, id, head, -⟩ := h.stage busy
    rw [none] at head
    cases head

theorem Sound.initEnd : s.initEnd.Sound := by
  unfold ProgramImpl.initEnd
  split_ifs with active
  · exact h.first none away ⟨rfl, rfl, _, rfl⟩
  · refine { h with down := ?_, starting := ?_, detached := ?_, expects := ?_ }
    · rintro ⟨⟩
    · rintro ⟨⟩
    · exact fun ne => absurd rfl ne
    · intro u mem
      rw [none] at mem
      cases mem

theorem Sound.initClear : s.initClear.Sound := by
  unfold ProgramImpl.initClear
  split
  · exact h.first none away ⟨rfl, rfl, _, _, rfl⟩
  · exact h.initEnd none away

end

/-! ## After an update -/

/-- The active state of a session that has been published is the program's. -/
theorem Sound.active_of_shown {id : ℕ} (h : s.Expects u) (job : u.job = .start i)
    (shown : s.state.set (u.event.withId id) = s.state) : s.state.activeState.active = true := by
  obtain ⟨event, guard, job'⟩ := u
  cases job
  obtain ⟨-, -, -, contexts, rfl⟩ := h
  rw [← shown]
  rfl

theorem Sound.attached_of_control (h : s.Sound) (held : s.control ≠ .free) : s.mode = .attached :=
  Classical.by_contradiction fun away => held (h.detached away).1

theorem Sound.attached_of_loop (h : s.Sound) (current : s.taskLoop = some i) : s.mode = .attached := by
  apply Classical.by_contradiction
  intro away
  rw [(h.detached away).2] at current
  cases current

/-- The holder of the control lock tells which update it awaits. -/
theorem Expects.control_awaits (h : s.Expects u) (controls : u.job.controls = true) :
    s.control.awaits = some u.job := by
  obtain ⟨event, guard, job⟩ := u
  cases job <;> cases controls
  case start => rw [h.1]; rfl
  case enableStop =>
    obtain ⟨⟨request, control⟩, -⟩ := h
    rw [control]
    rfl
  case enable => rw [h.1]; rfl

section

variable (h : s.AtHand u) (sound : s.Sound)
include h sound

theorem AtHand.uncontrolled (controls : u.job.controls = true) : ∀ v ∈ s.updates, v.job.controls = false := by
  intro v mem
  apply Bool.eq_false_iff.2
  intro controls'
  have mine := h.expects.control_awaits controls
  rw [(sound.expects v mem).control_awaits controls'] at mine
  have same := Option.some.inj mine
  have shared := h.alone v mem same
  rw [same] at shared
  cases job : u.job <;> rw [job] at shared controls
  all_goals first | (cases shared; done) | cases controls

theorem AtHand.proceed_start (job : u.job = .start i) (active : ok = true → s.state.activeState.active = true) :
    (s.proceed (.start i) ok).Sound := by
  have others := h.uncontrolled sound (by rw [job]; rfl)
  have mine : u.job.owner = some i := by rw [job]; rfl
  have expects := h.expects
  obtain ⟨event, guard, _⟩ := u
  cases job
  obtain ⟨control, -, ⟨loop, found, unstarted, -⟩, -⟩ := expects
  have attached := sound.attached_of_control (by rw [control]; rintro ⟨⟩)
  have sane := sound.sane i loop found
  unfold ProgramImpl.proceed
  simp only [found]
  split_ifs with done
  · have started : (s.setLoop i { loop with started := true }).Sound := h.setLoop sound mine found
      ⟨sane.named, fun _ => rfl, sane.producerDone, sane.finalized⟩ Iff.rfl fun _ => .inr (active done)
    exact started.control attached others (by rintro _ _ ⟨⟩)
  · have started : (s.setLoop i { loop.requestStop true with started := true }).Sound := h.setLoop sound mine found
      ⟨sane.named, fun _ => rfl, sane.producerDone, sane.finalized⟩ Iff.rfl
      (by simp [TaskingLoop.running, TaskingLoop.requestStop])
    exact started.control attached others (by rintro _ _ ⟨⟩)

theorem AtHand.proceed_clear (job : u.job = .clear i) : (s.proceed (.clear i) ok).Sound := by
  have mine : u.job.owner = some i := by rw [job]; rfl
  have expects := h.expects
  obtain ⟨event, guard, _⟩ := u
  cases job
  obtain ⟨-, ⟨loop, found, started, clearing⟩, -⟩ := expects
  have sane := sound.sane i loop found
  have finalized := finalized_of sane clearing (by decide)
  have live := live_of clearing (by decide)
  have attached := sound.attached_of_loop ((sound.live i loop found).2 live)
  unfold ProgramImpl.proceed
  simp only [found]
  split_ifs with done
  · have ending : (s.setLoop i { loop with finalizer := .ending }).Sound := h.setLoop sound mine found
      ⟨sane.named, sane.started, sane.producerDone, fun _ _ => finalized⟩
      ⟨fun _ => live, fun _ => ⟨by rintro ⟨⟩, by rintro ⟨⟩⟩⟩ .inl
    refine ending.update attached ⟨rfl, ⟨_, set_found found, started, rfl⟩, ?_⟩ ?_ (by rintro k ⟨⟩)
    · unfold TaskingLoop.inactive
      split
      · exact ⟨_, rfl⟩
      · exact ⟨_, rfl⟩
    · intro v mem same
      refine absurd ?_ (h.others sound mine v mem)
      rw [same]
      rfl
  · exact h.setLoop sound mine found ⟨sane.named, sane.started, sane.producerDone, fun _ _ => finalized⟩
      ⟨fun _ => live, fun _ => ⟨by rintro ⟨⟩, by rintro ⟨⟩⟩⟩ .inl

/-- The finalizer ends, and forgets the loop. -/
theorem AtHand.proceed_finish (job : u.job = .finish i) (entering : ok = true → s.updateStage = .entering) :
    (s.proceed (.finish i) ok).Sound := by
  have mine : u.job.owner = some i := by rw [job]; rfl
  have expects := h.expects
  obtain ⟨event, guard, _⟩ := u
  cases job
  obtain ⟨-, ⟨loop, found, started, ending⟩, -⟩ := expects
  have sane := sound.sane i loop found
  have finalized := finalized_of sane ending (by decide)
  have live := live_of ending (by decide)
  have current := (sound.live i loop found).2 live
  have attached := sound.attached_of_loop current
  unfold ProgramImpl.proceed
  simp only [found]
  split_ifs with done
  · refine { sound with
      sane := ?_, current := ?_, live := ?_, detached := ?_, expects := ?_, running := ?_, startWaiting := ?_
      stage := fun busy => absurd (entering done) busy }
    · intro k l there
      obtain ⟨rfl, rfl⟩ | ⟨-, before⟩ := found_set there
      · exact ⟨sane.named, sane.started, sane.producerDone, fun _ _ => finalized⟩
      · exact sound.sane k l before
    · rintro k ⟨⟩
    · intro k l there
      obtain ⟨rfl, rfl⟩ | ⟨ne, before⟩ := found_set there
      · exact ⟨by rintro ⟨⟩, fun live => absurd rfl live.1⟩
      · -- The other loops were not current before.
        have gone := sound.live k l before
        rw [current] at gone
        exact ⟨by rintro ⟨⟩, fun live => absurd (Option.some.inj (gone.2 live)).symm ne⟩
    · exact fun away => absurd attached away
    · intro v mem
      exact (sound.expects v mem).setLoop (h.others sound mine v mem)
    · rintro k l ⟨⟩
    · intro k contexts waits
      unfold ProgramImpl.setLoop
      rw [List.length_set]
      exact sound.startWaiting k contexts waits
  · exact h.setLoop sound mine found ⟨sane.named, sane.started, sane.producerDone, fun _ _ => finalized⟩
      ⟨fun _ => live, fun _ => ⟨by rintro ⟨⟩, by rintro ⟨⟩⟩⟩ .inl

theorem AtHand.proceed (entering : ok = true → s.updateStage = .entering)
    (active : ok = true → ∀ i, u.job = .start i → s.state.activeState.active = true) : (s.proceed u.job ok).Sound := by
  cases job : u.job with
  | start i => exact h.proceed_start sound job fun done => active done i job
  | report i =>
    have mine : u.job.owner = some i := by rw [job]; rfl
    obtain ⟨loop, found, -⟩ := h.expects.awaits mine
    have sane := sound.sane i loop found
    unfold ProgramImpl.proceed
    simp only [found]
    exact h.setLoop sound mine found ⟨sane.named, sane.started, sane.producerDone, sane.finalized⟩ Iff.rfl .inl
  | clear i => exact h.proceed_clear sound job
  | finish i => exact h.proceed_finish sound job entering
  | stop i => exact sound
  | enableStop i =>
    have others := h.uncontrolled sound (by rw [job]; rfl)
    unfold ProgramImpl.proceed
    dsimp only
    split
    · rename_i k request control
      refine sound.control (sound.attached_of_control (by rw [control]; rintro ⟨⟩)) others ?_
      split <;> rintro _ _ ⟨⟩
    · exact sound
  | enable =>
    have others := h.uncontrolled sound (by rw [job]; rfl)
    have awaits := h.expects.control_awaits (by rw [job]; rfl)
    have held : s.control ≠ .free := by
      intro free
      rw [free] at awaits
      cases awaits
    unfold ProgramImpl.proceed
    refine sound.control (sound.attached_of_control held) others ?_
    split <;> rintro _ _ ⟨⟩
  | initClear =>
    have expects := h.expects
    unfold Expects at expects
    rw [job] at expects
    have none := h.last expects.1
    have away : s.mode ≠ .attached := by rw [expects.1]; rintro ⟨⟩
    unfold ProgramImpl.proceed
    dsimp only
    split_ifs
    · exact sound.initEnd none away
    · exact { sound with
        down := fun _ => none
        starting := by rintro ⟨⟩
        detached := fun _ => sound.detached away
        expects := by rw [none]; rintro _ ⟨⟩ }
  | initEnd =>
    have expects := h.expects
    unfold Expects at expects
    rw [job] at expects
    have none := h.last expects.1
    have away : s.mode ≠ .attached := by rw [expects.1]; rintro ⟨⟩
    unfold ProgramImpl.proceed
    exact { sound with
      down := fun _ => none
      starting := fun _ => by dsimp only; rw [none]; exact Nat.zero_le 1
      detached := fun _ => sound.detached away
      expects := by dsimp only; rw [none]; rintro _ ⟨⟩ }

end

/-! ## Leaving the lock -/

/-- The first update leaves the lock. -/
theorem Sound.dropHead (h : s.Sound) (head : s.updates = u :: rest) :
    ({ s with updates := rest, updateStage := .entering } : ProgramImpl).Sound ∧
      ({ s with updates := rest, updateStage := .entering } : ProgramImpl).AtHand u := by
  have unique := h.unique
  rw [head] at unique
  have short : s.mode = .starting → rest = [] := by
    intro starting
    have length := h.starting starting
    rw [head, List.length_cons] at length
    exact List.length_eq_zero_iff.1 (by omega)
  refine ⟨{ h with
    down := ?_, starting := ?_, expects := ?_, unique := (List.pairwise_cons.1 unique).2, stage := ?_
    fifo := ?_ }, ?_, ?_, short⟩
  · intro down
    cases head.symm.trans (h.down down)
  · intro starting
    dsimp only
    rw [short starting]
    exact Nat.zero_le 1
  · intro v mem
    exact h.expects v (by simp [head, show v ∈ rest from mem])
  · exact fun busy => absurd rfl busy
  · have fifo := h.fifo
    rw [head] at fifo
    exact (List.pairwise_cons.1 fifo).2
  · exact h.expects u (by simp [head])
  · intro v mem same
    have shared := (List.pairwise_cons.1 unique).1 v mem same.symm
    rw [same]
    exact shared

theorem Sound.leave (h : s.Sound) (head : s.updates = u :: rest)
    (active : ok = true → ∀ i, u.job = .start i → s.state.activeState.active = true) : (s.leave u rest ok).Sound := by
  obtain ⟨sound, at_hand⟩ := h.dropHead head
  exact at_hand.proceed sound (fun _ => rfl) active

/-- An update that waits for the lock leaves the queue. -/
theorem Sound.dropWaiting {k : ℕ} (h : s.Sound) (found : s.updates[k]? = some u)
    (behind : s.updateStage = .entering ∨ 0 < k) :
    ({ s with updates := s.updates.eraseIdx k } : ProgramImpl).Sound ∧
      ({ s with updates := s.updates.eraseIdx k } : ProgramImpl).AtHand u := by
  have short : s.mode = .starting → s.updates.eraseIdx k = [] := by
    intro starting
    have length := h.starting starting
    have less := lt_of_found found
    refine List.length_eq_zero_iff.1 ?_
    rw [List.length_eraseIdx_of_lt less]
    omega
  refine ⟨{ h with
    down := ?_, starting := ?_, expects := ?_, unique := ?_, stage := ?_, fifo := ?_ }, ?_, ?_, short⟩
  · intro down
    dsimp only
    rw [h.down down, List.eraseIdx_nil]
  · intro starting
    dsimp only
    rw [short starting]
    exact Nat.zero_le 1
  · intro v mem
    exact h.expects v (List.mem_of_mem_eraseIdx mem)
  · exact h.unique.sublist (List.eraseIdx_sublist ..)
  · intro busy
    obtain ⟨v, rest, id, head, shown⟩ := h.stage busy
    rcases behind with entering | later
    · exact absurd entering busy
    · obtain ⟨k, rfl⟩ := Nat.exists_eq_succ_of_ne_zero (Nat.ne_of_gt later)
      refine ⟨v, rest.eraseIdx k, id, ?_, shown⟩
      dsimp only
      rw [head, List.eraseIdx_cons_succ]
  · exact h.fifo.sublist (List.eraseIdx_sublist ..)
  · exact h.expects u (mem_of_found found)
  · intro v mem same
    obtain ⟨j, less, ne, rfl⟩ := List.mem_eraseIdx_iff_getElem.1 mem
    have bound := lt_of_found found
    have here : s.updates[k] = u := (List.getElem?_eq_some_iff.1 found).2
    have apart := List.pairwise_iff_getElem.1 h.unique
    rcases Nat.lt_or_gt_of_ne ne with before | after
    · exact apart j k less bound before (by rw [here]; exact same)
    · have shared := apart k j bound less after (by rw [here]; exact same.symm)
      rw [here, ← same] at shared
      exact shared

theorem event_shown (state : ProgramState) (event : Event) : (state.set event).set event = state.set event := by
  cases event <;> rfl

section

variable (h : s.Sound)
include h

/-- While a loop runs, what an update sets leaves the program active. -/
theorem Sound.active_of_enter {event : Event} {id : ℕ} (expects : s.Expects u) (is : event = u.event.withId id)
    (current : s.taskLoop = some i) (found : s.loops[i]? = some loop) (run : loop.running = true) :
    (s.state.set event).activeState.active = true := by
  have active := h.running i loop current found run
  obtain ⟨shape, guard, job⟩ := u
  subst is
  cases job with
  | start =>
    obtain ⟨-, -, -, contexts, rfl⟩ := expects
    rfl
  | report =>
    obtain ⟨-, l, -, -, loopState, executionState, rfl, -⟩ := expects
    exact active
  | clear =>
    obtain ⟨-, -, executionState, rfl⟩ := expects
    exact active
  | finish k =>
    -- The loop that ends does not run any more.
    obtain ⟨-, ⟨l, at_k, -, ending⟩, origin, rfl⟩ := expects
    have live := live_of ending (by decide)
    have same := (h.live k l at_k).2 live
    rw [current] at same
    cases same
    rw [found] at at_k
    cases at_k
    have sane := h.sane i loop found
    have done := sane.producerDone (finalized_of sane ending (by decide))
    rw [TaskingLoop.running, done] at run
    simp at run
  | stop =>
    obtain ⟨-, -, -, origin, contexts, rfl⟩ := expects
    rfl
  | enableStop =>
    obtain ⟨-, -, -, origin, contexts, rfl⟩ := expects
    rfl
  | enable =>
    obtain ⟨-, -, enabled, controller, rfl⟩ := expects
    exact active
  | initClear =>
    obtain ⟨-, -, executionState, session, rfl⟩ := expects
    exact active
  | initEnd =>
    cases (h.attached_of_loop current).symm.trans expects.1

theorem Sound.init {readable stored raises : Bool} (hs : s.step (.init readable stored raises) = some s') :
    s'.Sound := by
  unfold ProgramImpl.step at hs
  dsimp only at hs
  obtain ⟨guard, hs⟩ := Option.ite_none_left_eq_some.1 hs
  have down : s.mode = .down := by
    apply Classical.by_contradiction
    exact fun up => guard (.inl up)
  have none := h.down down
  have away : s.mode ≠ .attached := by rw [down]; rintro ⟨⟩
  have fresh : ∀ state kept, ({ s with state, stored := kept } : ProgramImpl).Sound := by
    intro state kept
    refine { h with stage := ?_, running := ?_ }
    · intro busy
      obtain ⟨u, rest, id, head, -⟩ := h.stage busy
      cases none.symm.trans head
    · intro i loop current
      cases (h.detached away).2.symm.trans current
  split at hs
  · cases hs
    exact (fresh _ _).initClear none away
  · split_ifs at hs
    all_goals cases hs
    all_goals first | exact (fresh _ _).initClear none away | exact fresh _ _

theorem Sound.crash (hs : s.step .crash = some s') : s'.Sound := by
  cases hs
  refine { h with
    sane := ?_, current := ?_, live := ?_, down := fun _ => rfl, starting := ?_, detached := fun _ => ⟨rfl, rfl⟩
    expects := ?_, unique := .nil, fifo := .nil, stage := ?_, running := ?_, startWaiting := ?_ }
  · intro i loop found
    rw [List.getElem?_map] at found
    obtain ⟨before, there, rfl⟩ := Option.map_eq_some_iff.1 found
    have sane := h.sane i before there
    split
    · exact sane
    · exact ⟨sane.named, sane.started, sane.producerDone, fun _ lost => absurd rfl lost⟩
  · rintro i ⟨⟩
  · intro i loop found
    rw [List.getElem?_map] at found
    obtain ⟨before, there, rfl⟩ := Option.map_eq_some_iff.1 found
    split_ifs with done
    · exact ⟨by rintro ⟨⟩, fun live => absurd done live.1⟩
    · exact ⟨by rintro ⟨⟩, fun live => absurd rfl live.2⟩
  · rintro ⟨⟩
  · rintro u ⟨⟩
  · exact fun busy => absurd rfl busy
  · rintro i loop ⟨⟩
  · rintro i contexts ⟨⟩

theorem Sound.enter {id : ℕ} (hs : s.step (.enter id) = some s') : s'.Sound := by
  unfold ProgramImpl.step at hs
  dsimp only at hs
  split at hs
  · rename_i u rest head entering
    have expects := h.expects u (by simp [head])
    split_ifs at hs with replaced
    · cases hs
      refine h.leave head ?_
      -- The active state is published whatever the loop.
      intro _ i job
      unfold Expects at expects
      rw [job] at expects
      exact absurd expects.2.1 replaced.1
    · cases hs
      refine { h with stage := ?_, running := ?_ }
      · intro _
        refine ⟨u, rest, id, head, event_shown .., ?_, fun i guard => ?_⟩
        · rintro event ⟨⟩
          rfl
        · -- The update is dropped unless its loop is the current one.
          by_contra other
          exact replaced ⟨by rw [guard]; rintro ⟨⟩, by rw [guard]; exact fun same => other same.symm⟩
      · intro i loop current found run
        exact h.active_of_enter expects rfl current found run
  · cases hs

/-- The update at the head has been set. -/
theorem Sound.shown (head : s.updates = u :: rest) (busy : s.updateStage ≠ .entering) (job : u.job = .start i) :
    s.state.activeState.active = true := by
  obtain ⟨v, rest', id, head', shown, -⟩ := h.stage busy
  rw [head] at head'
  cases head'
  exact Sound.active_of_shown (h.expects u (by simp [head])) job shown

theorem Sound.emit {published raises : Bool} (hs : s.step (.emit published raises) = some s') : s'.Sound := by
  unfold ProgramImpl.step at hs
  dsimp only at hs
  split at hs
  · rename_i u rest event head emitting
    have streamed : ∀ stream, ({ s with stream } : ProgramImpl).Sound := fun stream => { h with }
    split_ifs at hs
    all_goals cases hs
    all_goals first
      | exact Sound.leave (streamed _) head (by rintro ⟨⟩)
      | refine { h with stage := ?_ }
        obtain ⟨v, rest', id, head', shown, -, guarded⟩ := h.stage (by rw [emitting]; rintro ⟨⟩)
        exact fun _ => ⟨v, rest', id, head', shown, by rintro event ⟨⟩, guarded⟩
  · cases hs

theorem Sound.put {stored raises : Bool} (hs : s.step (.put stored raises) = some s') : s'.Sound := by
  unfold ProgramImpl.step at hs
  dsimp only at hs
  split at hs
  · rename_i u rest head putting
    have kept : ∀ stored, ({ s with stored } : ProgramImpl).Sound := fun stored => { h with }
    obtain ⟨-, ⟨⟩⟩ := Option.ite_none_right_eq_some.1 hs
    exact Sound.leave (kept _) head fun _ i job => h.shown head (by rw [putting]; rintro ⟨⟩) job
  · cases hs

/-- The loop that a start request has waited for has been the last one all along. -/
theorem Sound.noLoop (waiting : s.control = .startWaiting i contexts) (found : s.loops[i]? = some loop)
    (done : loop.finalizer = .done) : s.taskLoop = none := by
  have last := h.startWaiting i contexts waiting
  cases current : s.taskLoop with
  | none => rfl
  | some k =>
    have last' := h.current k current
    obtain rfl : k = i := by omega
    exact absurd done ((h.live k loop found).1 current).1

end

theorem advance_steps {stage : TaskingStage} {taskType : Option String} : Steps loop (loop.advance stage taskType) := by
  unfold TaskingLoop.advance
  split_ifs with healthy
  · exact ⟨rfl, rfl, rfl, fun _ => rfl, fun fault => absurd healthy fault, id⟩
  · exact ⟨rfl, rfl, rfl, fun _ => rfl, fun _ => rfl, id⟩

theorem advance_sane {stage : TaskingStage} {taskType : Option String} (sane : loop.Sane i) :
    (loop.advance stage taskType).Sane i := by
  unfold TaskingLoop.advance
  split_ifs
  · exact ⟨sane.named, sane.started, sane.producerDone, sane.finalized⟩
  · exact sane

theorem fail_steps {fault : TaskingFault} {error : String} {stage : Option TaskingStage} :
    Steps loop (loop.fail fault error stage) := by
  unfold TaskingLoop.fail
  split_ifs with healthy
  · exact ⟨rfl, rfl, rfl, fun _ => rfl, fun fault => absurd healthy fault, id⟩
  · exact ⟨rfl, rfl, rfl, fun _ => rfl, fun _ => rfl, id⟩

theorem fail_sane {fault : TaskingFault} {error : String} {stage : Option TaskingStage} (sane : loop.Sane i) :
    (loop.fail fault error stage).Sane i := by
  unfold TaskingLoop.fail
  split_ifs
  · exact ⟨sane.named, sane.started, sane.producerDone, sane.finalized⟩
  · exact sane

/-- A loop that is live is the current one, of a program that handles requests. -/
theorem Sound.attached_of_live (h : s.Sound) (found : s.loops[i]? = some loop) (live : loop.Live) : s.mode = .attached :=
  h.attached_of_loop ((h.live i loop found).2 live)

/-- While no task of a started loop publishes its state, no update of the loop's own is outstanding. -/
theorem Sound.unowned (h : s.Sound) (found : s.loops[i]? = some loop) (started : loop.started = true)
    (waiting : loop.finalizer = .waiting) (silent : ¬Reporting loop) : ∀ u ∈ s.updates, u.job.owner ≠ some i := by
  intro u mem mine
  have expects := h.expects u mem
  obtain ⟨l, there, awaits⟩ := expects.awaits mine
  rw [found] at there
  cases there
  simp only [TaskingLoop.awaits, started, waiting, Bool.true_eq_false, if_false, Option.some.injEq] at awaits
  unfold Expects at expects
  rw [← awaits] at expects
  obtain ⟨-, l, there, reporting, -⟩ := expects
  rw [found] at there
  cases there
  exact silent reporting

/-! ## The program goes on -/

/-- How the program goes on while it publishes nothing and ends no loop. -/
inductive Goes (s : ProgramImpl) : ProgramImpl → Prop where
  | stays : Goes s s
  | replies {replies : List Reply} : Goes s { s with replies }
  | control {control : Control} {replies : List Reply} (attached : s.mode = .attached)
      (others : ∀ u ∈ s.updates, u.job.controls = false)
      (waits : ∀ i contexts, control = .startWaiting i contexts → i + 1 = s.loops.length) :
      Goes s { s with control, replies }
  | startLoop {contexts : TaskContextMap} (attached : s.mode = .attached)
      (others : ∀ u ∈ s.updates, u.job.controls = false) (none : s.taskLoop = none) : Goes s (s.startLoop contexts)
  | stop {i : ℕ} {loop : TaskingLoop} {abort : Bool} (attached : s.mode = .attached)
      (found : s.loops[i]? = some loop) : Goes s (s.stopLoop i loop abort (.stop i))
  | enableStop {i : ℕ} {loop : TaskingLoop} {request : EnableRequest} (attached : s.mode = .attached)
      (others : ∀ u ∈ s.updates, u.job.controls = false) (found : s.loops[i]? = some loop) :
      Goes s (({ s with control := .enableStopping i request } : ProgramImpl).stopLoop i loop true (.enableStop i))
  | publishEnable {request : EnableRequest} (attached : s.mode = .attached)
      (others : ∀ u ∈ s.updates, u.job.controls = false) : Goes s (s.publishEnable request)
  | works {i : ℕ} {loop loop' : TaskingLoop} (found : s.loops[i]? = some loop) (sane : loop.Sane i → loop'.Sane i)
      (steps : Steps loop loop') : Goes s (s.setLoop i loop')
  | reports {i : ℕ} {loop : TaskingLoop} (found : s.loops[i]? = some loop) (started : loop.started = true)
      (unfinalized : loop.finalized = false) (unpublished : loop.publishing = false)
      (waiting : loop.finalizer = .waiting) :
      Goes s ((s.setLoop i { loop with publishing := true }).update
        (.tasking { loopState := some loop.loopState, executionState := loop.executionState, session := some i })
        (some i) (.report i))

theorem goes_startTasking {control : Control} (attached : s.mode = .attached)
    (others : ∀ u ∈ s.updates, u.job.controls = false)
    (none : s.state.activeState.active = false → s.taskLoop = none) :
    Goes s (({ s with control } : ProgramImpl).startTasking contexts) := by
  unfold ProgramImpl.startTasking
  split_ifs with disabled differs active
  · exact .control attached others (by rintro _ _ ⟨⟩)
  · exact .control attached others (by rintro _ _ ⟨⟩)
  · split
    · exact .control attached others (by rintro _ _ ⟨⟩)
    · exact .control attached others (by rintro _ _ ⟨⟩)
  · exact .startLoop attached others (none (by simpa using active))

theorem Sound.goes_start (h : s.Sound) (hs : s.step (.start contexts) = some s') : Goes s s' := by
  unfold ProgramImpl.step at hs
  dsimp only at hs
  split_ifs at hs with detached held
  · cases hs
    exact .replies
  · have attached : s.mode = .attached := not_not.1 detached
    have free : s.control = .free := not_not.1 held
    have others := h.uncontrolled (by rw [free]; rfl)
    split at hs
    · rename_i none
      cases hs
      exact goes_startTasking attached others fun _ => none
    · rename_i session current
      split at hs
      · cases hs
      · rename_i loop found
        split_ifs at hs with run unfinalized
        · cases hs
          refine goes_startTasking attached others fun inactive => ?_
          rw [h.running session loop current found run] at inactive
          cases inactive
        · cases hs
          exact .control attached others (by rintro _ _ ⟨⟩)
        · cases hs
          refine .control attached others ?_
          rintro i contexts ⟨⟩
          exact h.current session current

theorem Sound.goes_startResumes (h : s.Sound) (hs : s.step .startResumes = some s') : Goes s s' := by
  unfold ProgramImpl.step at hs
  dsimp only at hs
  split at hs
  · rename_i session contexts waiting
    have attached := h.attached_of_control (by rw [waiting]; rintro ⟨⟩)
    have others := h.uncontrolled (by rw [waiting]; rfl)
    split at hs
    · rename_i loop found
      split at hs
      · rename_i done
        cases hs
        exact goes_startTasking attached others fun _ => h.noLoop waiting found done
      · cases hs
        exact .control attached others (by rintro _ _ ⟨⟩)
      · cases hs
    · cases hs
  · cases hs

theorem Sound.goes_setEnableState {request : EnableRequest} (h : s.Sound) (attached : s.mode = .attached)
    (free : s.control = .free) : Goes s (s.setEnableState request) := by
  have others := h.uncontrolled (by rw [free]; rfl)
  unfold ProgramImpl.setEnableState
  dsimp only
  split_ifs
  · exact .stays
  · exact .stays
  · split
    · exact .publishEnable attached others
    · split
      · exact .stays
      · rename_i found
        exact .enableStop attached others found
  · exact .publishEnable attached others

theorem Sound.goes_enableResumes (h : s.Sound) (hs : s.step .enableResumes = some s') : Goes s s' := by
  unfold ProgramImpl.step at hs
  dsimp only at hs
  split at hs
  · rename_i session request waiting
    have attached := h.attached_of_control (by rw [waiting]; rintro ⟨⟩)
    have others := h.uncontrolled (by rw [waiting]; rfl)
    split at hs
    · split at hs
      · split_ifs at hs
        · cases hs
          exact .control attached others (by rintro _ _ ⟨⟩)
        · cases hs
          exact .publishEnable attached others
      · cases hs
        exact .control attached others (by rintro _ _ ⟨⟩)
      · cases hs
    · cases hs
  · cases hs

/-- A step of a label that is not loud is one of these. -/
theorem Sound.goes {a : ProgramLabel} (h : s.Sound) (hs : s.step a = some s') (quiet : a.loud = false) : Goes s s' := by
  cases a with
  | init | crash | enter | emit | put | cancel | clear => cases quiet
  | start contexts => exact h.goes_start hs
  | startResumes => exact h.goes_startResumes hs
  | startReturns =>
    unfold ProgramImpl.step at hs
    dsimp only at hs
    split at hs
    · rename_i session reporting
      split at hs
      · obtain ⟨-, ⟨⟩⟩ := Option.ite_none_right_eq_some.1 hs
        exact .control (h.attached_of_control (by rw [reporting]; rintro ⟨⟩)) (h.uncontrolled (by rw [reporting]; rfl))
          (by rintro _ _ ⟨⟩)
      · cases hs
    · cases hs
  | stop sessionId abort =>
    unfold ProgramImpl.step at hs
    dsimp only at hs
    split_ifs at hs with detached
    split at hs
    · cases hs
      exact .stays
    · split at hs
      · cases hs
      · rename_i found
        cases hs
        exact .stop (not_not.1 detached) found
  | setEnableState request =>
    obtain ⟨⟨attached, free⟩, ⟨⟩⟩ := Option.ite_none_right_eq_some.1 hs
    exact h.goes_setEnableState attached free
  | enableResumes => exact h.goes_enableResumes hs
  | hooksReturn =>
    obtain ⟨hooks, ⟨⟩⟩ := Option.ite_none_right_eq_some.1 hs
    exact .control (h.attached_of_control (by rw [hooks]; rintro ⟨⟩)) (h.uncontrolled (by rw [hooks]; rfl))
      (by rintro _ _ ⟨⟩)
  | advance i stage taskType =>
    obtain ⟨loop, found, ⟨⟩⟩ := Option.bind_eq_some_iff.1 hs
    exact .works found advance_sane advance_steps
  | fail i fault error stage =>
    obtain ⟨loop, found, ⟨⟩⟩ := Option.bind_eq_some_iff.1 hs
    exact .works found fail_sane fail_steps
  | execute i executionState =>
    obtain ⟨loop, found, ⟨⟩⟩ := Option.bind_eq_some_iff.1 hs
    exact .works found (fun sane => ⟨sane.named, sane.started, sane.producerDone, sane.finalized⟩)
      ⟨rfl, rfl, rfl, fun _ => rfl, fun _ => rfl, id⟩
  | report i =>
    obtain ⟨loop, found, hs⟩ := Option.bind_eq_some_iff.1 hs
    obtain ⟨⟨started, unfinalized, unpublished, waiting⟩, ⟨⟩⟩ := Option.ite_none_right_eq_some.1 hs
    exact .reports found started (by simpa using unfinalized) (by simpa using unpublished) waiting
  | producerExits i =>
    obtain ⟨loop, found, hs⟩ := Option.bind_eq_some_iff.1 hs
    obtain ⟨started, ⟨⟩⟩ := Option.ite_none_right_eq_some.1 hs
    exact .works found (fun sane => ⟨sane.named, fun _ => started, fun _ => rfl, sane.finalized⟩)
      ⟨rfl, rfl, rfl, fun _ => rfl, fun _ => rfl, by simp [TaskingLoop.running]⟩
  | finalize i unresolved =>
    obtain ⟨loop, found, hs⟩ := Option.bind_eq_some_iff.1 hs
    obtain ⟨⟨done, unpublished, -⟩, ⟨⟩⟩ := Option.ite_none_right_eq_some.1 hs
    refine .works found (fun sane => ⟨sane.named, sane.started, fun _ => done, fun _ _ => rfl⟩)
      ⟨rfl, rfl, rfl, ?_, fun _ => rfl, id⟩
    intro publishing
    rw [publishing] at unpublished
    cases unpublished

theorem Goes.sound (goes : Goes s s') (h : s.Sound) : s'.Sound := by
  cases goes with
  | stays => exact h
  | replies => exact { h with }
  | control attached others waits => exact h.control attached others waits
  | startLoop attached others none => exact h.startLoop attached others none
  | stop attached found =>
    refine h.stopLoop attached found ?_ rfl ?_
    · intro origin contexts
      exact ⟨attached, rfl, lt_of_found found, origin, contexts, rfl⟩
    · intro v mem same
      rw [same]
      rfl
  | @enableStop i loop request attached others found =>
    have locked : ({ s with control := .enableStopping i request } : ProgramImpl).Sound :=
      h.control attached others (by rintro _ _ ⟨⟩)
    refine locked.stopLoop attached found ?_ rfl ?_
    · intro origin contexts
      exact ⟨⟨request, rfl⟩, rfl, lt_of_found found, origin, contexts, rfl⟩
    · intro v mem same
      have free := others v mem
      rw [same] at free
      cases free
  | publishEnable attached others => exact h.publishEnable attached others
  | works found sane steps => exact h.steps found (sane (h.sane _ _ found)) steps
  | @reports i loop found started unfinalized unpublished waiting =>
    have sane := h.sane i loop found
    have attached := h.attached_of_live found (live_of waiting (by decide))
    have free : ∀ u ∈ s.updates, u.job.owner ≠ some i := by
      refine h.unowned found started waiting fun reporting => ?_
      cases reporting.publishing.symm.trans unpublished
    have publishing : (s.setLoop i { loop with publishing := true }).Sound := h.setLoop found
      ⟨sane.named, sane.started, sane.producerDone, sane.finalized⟩ Iff.rfl
      (fun u mem => (h.expects u mem).setLoop (free u mem)) .inl
    refine publishing.update attached ?_ ?_ (by rintro k ⟨⟩)
    · exact ⟨rfl, _, set_found found, ⟨rfl, started, unfinalized, waiting⟩, loop.loopState, loop.executionState, rfl,
        sane.named, fun _ => rfl⟩
    · intro v mem same
      refine absurd ?_ (free v mem)
      rw [same]
      rfl

/-! ## The system -/

theorem Sound.clear (h : s.Sound) (hs : s.step (.clear i) = some s') : s'.Sound := by
  obtain ⟨loop, found, hs⟩ := Option.bind_eq_some_iff.1 hs
  obtain ⟨⟨finalized, waiting⟩, ⟨⟩⟩ := Option.ite_none_right_eq_some.1 hs
  have sane := h.sane i loop found
  have live := live_of waiting (by decide)
  have attached := h.attached_of_live found live
  have started := sane.started (sane.producerDone finalized)
  have free : ∀ u ∈ s.updates, u.job.owner ≠ some i := by
    refine h.unowned found started waiting fun reporting => ?_
    rw [reporting.unfinalized] at finalized
    cases finalized
  have clearing : (s.setLoop i { loop with finalizer := .clearing }).Sound := h.setLoop found
    ⟨sane.named, sane.started, sane.producerDone, fun _ _ => finalized⟩
    ⟨fun _ => live, fun _ => ⟨by rintro ⟨⟩, by rintro ⟨⟩⟩⟩ (fun u mem => (h.expects u mem).setLoop (free u mem)) .inl
  refine clearing.update attached ⟨rfl, ⟨_, set_found found, started, rfl⟩, _, rfl⟩ ?_ (by rintro k ⟨⟩)
  intro v mem same
  refine absurd ?_ (free v mem)
  rw [same]
  rfl

theorem Sound.step {a : ProgramLabel} (h : s.Sound) (hs : s.step a = some s') : s'.Sound := by
  by_cases quiet : a.loud = false
  · exact (h.goes hs quiet).sound h
  cases a with
  | init readable stored raises => exact h.init hs
  | crash => exact h.crash hs
  | enter id => exact h.enter hs
  | emit published raises => exact h.emit hs
  | put stored raises => exact h.put hs
  | cancel k =>
    unfold ProgramImpl.step at hs
    dsimp only at hs
    obtain ⟨behind, hs⟩ := Option.ite_none_right_eq_some.1 hs
    split at hs
    · rename_i u found
      cases hs
      obtain ⟨sound, at_hand⟩ := h.dropWaiting found behind
      exact at_hand.proceed sound (by rintro ⟨⟩) (by rintro ⟨⟩)
    · cases hs
  | clear i => exact h.clear hs
  | _ => exact absurd rfl quiet

theorem sound_start : Sound {} := by
  refine ⟨?_, ?_, ?_, ?_, ?_, ?_, ?_, .nil, ?_, .nil, ?_, ?_⟩
  · rintro i loop ⟨⟩
  · rintro i ⟨⟩
  · rintro i loop ⟨⟩
  · exact fun _ => rfl
  · rintro ⟨⟩
  · exact fun _ => ⟨rfl, rfl⟩
  · rintro u ⟨⟩
  · exact fun busy => absurd rfl busy
  · rintro i loop ⟨⟩
  · rintro i contexts ⟨⟩

end ProgramImpl

end SensorKit.Core.Tasking
