import SensorKit.Auto.ProgramDrive

/-!
# Every program is re-driven

While no handler is still to read the program's state, the one that holds its lock has read the current state, and has
sent, if anything, the request for the current target.
-/

namespace SensorKit.Auto

open Lib Common SensorKit.Core

/-- A request brings the state to the target that it was made for. -/
theorem agrees_setEnableState (state : ProgramEnableState) (target : Option String) :
    Agrees (setEnableState state (requestFor target)) target := by
  unfold Agrees setEnableState requestFor
  split
  · simp
  · by_cases off : state.enabled = false <;> simp [off]

namespace ProgramDrive

variable {s t u : ProgramDrive} {a : DriveLabel} {program other : String} {k : ℕ} {task : DriveTask}
  {stage : HandlerStage} {P Q : HandlerStage → Prop}

/-! ## The invariant -/

/-- What the handlers of the program know is current. -/
def Current (s : ProgramDrive) (program : String) (state : ProgramEnableState) : HandlerStage → Prop
  | .waiting | .reading => False
  | .read known => known = some state
  | .requesting request effective => request = requestFor (s.desired program) ∧
      (effective = true → Agrees state (s.desired program))

/-- The program is as desired, or a handler is about to make it so. -/
def Driven (s : ProgramDrive) (program : String) : Prop :=
  ∃ state, s.remote.get? program = some state ∧
    (∀ task ∈ s.tasks, ∀ stage, task.handler = some (program, stage) → s.Current program state stage) ∧
    (Agrees state (s.desired program) ∨ s.Handled program fun _ => True)

/-- Two handlers do not hold one lock. -/
def Exclusive (s : ProgramDrive) : Prop :=
  ∀ (i j : ℕ) (task₁ task₂ : DriveTask) program stage₁ stage₂, s.tasks[i]? = some task₁ → s.tasks[j]? = some task₂ →
    task₁.handler = some (program, stage₁) → task₂.handler = some (program, stage₂) →
      stage₁ ≠ .waiting → stage₂ ≠ .waiting → i = j

structure Inv (s : ProgramDrive) : Prop where
  exclusive : s.Exclusive
  driven : ∀ program ∈ s.manager.allPrograms, program ∈ s.previousDiscovered → s.ToBeRead program ∨ s.Driven program
  latest : s.knownPrograms.Latest
  drained : s.tasks ≠ [] → s.knownPrograms.queued = [] →
    ∀ program ∈ s.knownPrograms.value, program ∈ s.previousDiscovered
  idle : s.tasks = [] → s.previousDiscovered = []
  open_ : s.tasks ≠ [] → s.onChange.queue.isSome = true ∧ s.knownPrograms.queue.isSome = true

/-- The task has the program's state to read. -/
def Reads (task : DriveTask) (program : String) : Prop :=
  program ∈ task.todo ∨ ∃ stage, task.handler = some (program, stage) ∧ Unread stage

theorem toBeRead_iff : s.ToBeRead program ↔ s.Changed program ∨ ∃ task ∈ s.tasks, Reads task program := by
  unfold ToBeRead Due Handled Reads
  constructor
  · rintro (changed | ⟨task, mem, due⟩ | ⟨task, mem, ⟨_, stage⟩, here, rfl, unread⟩)
    · exact .inl changed
    · exact .inr ⟨task, mem, .inl due⟩
    · exact .inr ⟨task, mem, .inr ⟨stage, here, unread⟩⟩
  · rintro (changed | ⟨task, mem, due | ⟨stage, here, unread⟩⟩)
    · exact .inl changed
    · exact .inr (.inl ⟨task, mem, due⟩)
    · exact .inr (.inr ⟨task, mem, _, here, rfl, unread⟩)

theorem toBeRead_of_mem (mem : task ∈ s.tasks) (reads : Reads task program) : s.ToBeRead program :=
  toBeRead_iff.2 (.inr ⟨task, mem, reads⟩)

theorem handled_of_mem (mem : task ∈ s.tasks) (here : task.handler = some (program, stage)) (at_ : P stage) :
    s.Handled program P :=
  ⟨task, mem, _, here, rfl, at_⟩

/-! ## A turn of one task -/

/-- One task goes on, and may leave a retry behind. -/
structure Turn (s t : ProgramDrive) (k : ℕ) (task after : DriveTask) : Prop where
  here : s.tasks[k]? = some task
  tasks : ∃ more, t.tasks = s.tasks.set k after ++ more ∧ ∀ retry ∈ more, retry.handler = none
  manager : t.manager = s.manager
  onChange : t.onChange = s.onChange
  knownPrograms : t.knownPrograms = s.knownPrograms
  previousDiscovered : t.previousDiscovered = s.previousDiscovered

namespace Turn

variable {after x : DriveTask} {i : ℕ} {state : ProgramEnableState}

section

variable (h : Turn s t k task after)
include h

theorem found (there : t.tasks[i]? = some x) : x.handler = none ∨ i = k ∧ x = after ∨ i ≠ k ∧ s.tasks[i]? = some x := by
  obtain ⟨more, tasks, retries⟩ := h.tasks
  rw [tasks] at there
  by_cases early : i < (s.tasks.set k after).length
  · rw [List.getElem?_append_left early] at there
    rcases found_set there with ⟨rfl, rfl⟩ | ⟨ne, found⟩
    · exact .inr (.inl ⟨rfl, rfl⟩)
    · exact .inr (.inr ⟨ne, found⟩)
  · rw [List.getElem?_append_right (Nat.not_lt.1 early)] at there
    exact .inl (retries x (mem_of_found there))

theorem mem_after : after ∈ t.tasks := by
  obtain ⟨more, tasks, -⟩ := h.tasks
  rw [tasks]
  exact List.mem_append_left _ (mem_of_found (set_found h.here))

theorem mem_of_mem (mem : x ∈ s.tasks) : x = task ∨ x ∈ t.tasks := by
  obtain ⟨more, tasks, -⟩ := h.tasks
  obtain ⟨i, found⟩ := List.mem_iff_getElem?.1 mem
  by_cases same : i = k
  · rw [same, h.here] at found
    exact .inl (Option.some.inj found).symm
  · rw [tasks]
    exact .inr (List.mem_append_left _ (mem_of_found (found_set_of_ne found same)))

theorem changed : t.Changed program ↔ s.Changed program := by
  unfold Changed
  rw [h.onChange]

theorem desired : t.desired program = s.desired program := by
  unfold ProgramDrive.desired
  rw [h.manager]

/-- What is to be read stays so, if the task still has what it had to read. -/
theorem toBeRead (read : s.ToBeRead program) (still : Reads task program → t.ToBeRead program) :
    t.ToBeRead program := by
  rcases toBeRead_iff.1 read with changed | ⟨x, mem, reads⟩
  · exact .inl (h.changed.2 changed)
  · rcases h.mem_of_mem mem with rfl | mem
    · exact still reads
    · exact toBeRead_of_mem mem reads

theorem exclusive (exclusive : s.Exclusive) (held : ∀ q stage, after.handler = some (q, stage) → stage ≠ .waiting →
      ¬ s.Locked q ∨ ∃ before ≠ .waiting, task.handler = some (q, before)) : t.Exclusive := by
  -- The program that the task holds after the turn is not held by another.
  have alone (i : ℕ) (x : DriveTask) (q : String) (stage stage' : HandlerStage) (ne : i ≠ k)
      (there : s.tasks[i]? = some x) (handles : x.handler = some (q, stage)) (holds : stage ≠ .waiting)
      (now : after.handler = some (q, stage')) (holds' : stage' ≠ .waiting) : False := by
    rcases held q stage' now holds' with free | ⟨before, held, was⟩
    · exact free ⟨x, mem_of_found there, _, handles, rfl, holds⟩
    · exact ne (exclusive i k x task q stage before there h.here handles was holds held)
  intro i j x y q stage stage' first second handles handles' holds holds'
  rcases h.found first with none | ⟨rfl, rfl⟩ | ⟨ne, there⟩
  · rw [none] at handles
    cases handles
  · rcases h.found second with none | ⟨rfl, rfl⟩ | ⟨ne', there'⟩
    · rw [none] at handles'
      cases handles'
    · rfl
    · exact (alone j y q stage' stage ne' there' handles' holds' handles holds).elim
  · rcases h.found second with none | ⟨rfl, rfl⟩ | ⟨ne', there'⟩
    · rw [none] at handles'
      cases handles'
    · exact (alone i x q stage stage' ne there handles holds handles' holds').elim
    · exact exclusive i j x y q stage stage' there there' handles handles' holds holds'

theorem current (now : s.Current program state stage) : t.Current program state stage := by
  unfold Current at now ⊢
  rw [h.desired]
  exact now

/-- A program that the task does not handle. -/
theorem apart (before : ∀ stage, task.handler ≠ some (program, stage))
    (then_ : ∀ stage, after.handler ≠ some (program, stage)) (todo : program ∈ task.todo → program ∈ after.todo)
    (remote : t.remote.get? program = s.remote.get? program) (was : s.ToBeRead program ∨ s.Driven program) :
    t.ToBeRead program ∨ t.Driven program := by
  rcases was with read | ⟨state, stored, current, goes⟩
  · refine .inl (h.toBeRead read ?_)
    rintro (due | ⟨stage, handles, -⟩)
    · exact toBeRead_of_mem h.mem_after (.inl (todo due))
    · exact absurd handles (before stage)
  · refine .inr ⟨state, remote.trans stored, ?_, ?_⟩
    · intro x mem stage handles
      obtain ⟨i, there⟩ := List.mem_iff_getElem?.1 mem
      rcases h.found there with none | ⟨-, rfl⟩ | ⟨-, there⟩
      · rw [none] at handles
        cases handles
      · exact absurd handles (then_ stage)
      · exact h.current (current x (mem_of_found there) stage handles)
    · rw [h.desired]
      refine goes.imp id ?_
      rintro ⟨x, mem, ⟨_, stage⟩, handles, rfl, -⟩
      rcases h.mem_of_mem mem with rfl | mem
      · exact absurd handles (before stage)
      · exact handled_of_mem mem handles trivial

/-- The program of a handler that holds its lock, and knows what is current. -/
theorem holder (exclusive : t.Exclusive) (handles : after.handler = some (program, stage)) (holds : stage ≠ .waiting)
    (stored : t.remote.get? program = some state) (current : t.Current program state stage) :
    t.ToBeRead program ∨ t.Driven program := by
  by_cases read : t.ToBeRead program
  · exact .inl read
  refine .inr ⟨state, stored, ?_, .inr (handled_of_mem h.mem_after handles trivial)⟩
  intro x mem stage' handles'
  have holds' : stage' ≠ .waiting := by
    rintro rfl
    exact read (toBeRead_of_mem mem (.inr ⟨.waiting, handles', trivial⟩))
  obtain ⟨i, there⟩ := List.mem_iff_getElem?.1 mem
  obtain ⟨more, tasks, -⟩ := h.tasks
  have at_ : t.tasks[k]? = some after := by
    rw [tasks, List.getElem?_append_left]
    · exact set_found h.here
    · exact lt_of_found (set_found h.here)
  obtain rfl := exclusive i k x after program stage' stage there at_ handles' handles holds' holds
  cases there.symm.trans at_
  rw [handles] at handles'
  cases handles'
  exact current

/-- The handler of the program is done: its state is as desired. -/
theorem finished (idle : after.handler = none) (todo : after.todo = task.todo)
    (handled : task.handler = some (program, stage)) (unread : ¬ Unread stage)
    (remote : t.remote.get? program = s.remote.get? program) (was : s.ToBeRead program ∨ s.Driven program)
    (agrees : ∀ state, s.remote.get? program = some state → s.Current program state stage →
      Agrees state (s.desired program)) : t.ToBeRead program ∨ t.Driven program := by
  rcases was with read | ⟨state, stored, current, -⟩
  · refine .inl (h.toBeRead read ?_)
    rintro (due | ⟨stage', handles, unread'⟩)
    · exact toBeRead_of_mem h.mem_after (.inl (todo ▸ due))
    · rw [handled] at handles
      cases handles
      exact absurd unread' unread
  · refine .inr ⟨state, remote.trans stored, ?_, .inl ?_⟩
    · intro x mem stage' handles
      obtain ⟨i, there⟩ := List.mem_iff_getElem?.1 mem
      rcases h.found there with none | ⟨-, rfl⟩ | ⟨-, there⟩
      · rw [none] at handles
        cases handles
      · rw [idle] at handles
        cases handles
      · exact h.current (current x (mem_of_found there) stage' handles)
    · rw [h.desired]
      exact agrees state stored (current task (mem_of_found h.here) stage handled)

end

end Turn

/-! ## Steps -/

theorem Inv.of_turn {after : DriveTask} (h : s.Inv) (turn : Turn s t k task after) (exclusive : t.Exclusive)
    (kept : ∀ program, s.ToBeRead program ∨ s.Driven program → t.ToBeRead program ∨ t.Driven program) : t.Inv := by
  have some_ : s.tasks ≠ [] := List.ne_nil_of_mem (mem_of_found turn.here)
  refine ⟨exclusive, ?_, ?_, ?_, ?_, ?_⟩
  · rw [turn.manager, turn.previousDiscovered]
    intro program mem seen
    exact kept program (h.driven program mem seen)
  · rw [turn.knownPrograms]
    exact h.latest
  · rw [turn.knownPrograms, turn.previousDiscovered]
    intro _
    exact h.drained some_
  · intro none
    exact absurd none (List.ne_nil_of_mem turn.mem_after)
  · rw [turn.onChange, turn.knownPrograms]
    intro _
    exact h.open_ some_

/-- The programs that the handler of the task is not about. -/
theorem Inv.of_turn_of_handler {after : DriveTask} (h : s.Inv) (turn : Turn s t k task after) (exclusive : t.Exclusive)
    (handled : task.handler = some (program, stage)) (todo : after.todo = task.todo)
    (same : ∀ other stage, after.handler = some (other, stage) → other = program)
    (remote : ∀ other, other ≠ program → t.remote.get? other = s.remote.get? other)
    (kept : s.ToBeRead program ∨ s.Driven program → t.ToBeRead program ∨ t.Driven program) : t.Inv := by
  refine h.of_turn turn exclusive ?_
  intro other was
  by_cases eq : other = program
  · subst eq
    exact kept was
  · refine turn.apart ?_ ?_ (by rw [todo]; exact id) (remote other eq) was
    · intro stage' handles
      rw [handled] at handles
      cases handles
      exact eq rfl
    · intro stage' handles
      exact eq (same other stage' handles)

theorem turn_setTask {after : DriveTask} (here : s.tasks[k]? = some task) : Turn s (s.setTask k after) k task after :=
  ⟨here, ⟨[], by simp [setTask], by simp⟩, rfl, rfl, rfl, rfl⟩

theorem turn_retry (here : s.tasks[k]? = some task) :
    Turn s (s.retry k task program) k task { task with handler := none } :=
  ⟨here, ⟨[{ todo := [program] }], rfl, by simp⟩, rfl, rfl, rfl, rfl⟩

theorem handling_eq_some {h : String × HandlerStage} (handling : s.handling k = some (task, h)) :
    s.tasks[k]? = some task ∧ task.handler = some h := by
  obtain ⟨task', here, rest⟩ := Option.bind_eq_some_iff.1 handling
  obtain ⟨h', handler, ⟨⟩⟩ := Option.bind_eq_some_iff.1 rest
  exact ⟨here, handler⟩

theorem Inv.next (h : s.Inv) (hs : s.step (.next k) = some t) : t.Inv := by
  obtain ⟨task, here, hs⟩ := Option.bind_eq_some_iff.1 hs
  split at hs
  · rename_i program todo due idle
    cases hs
    have turn : Turn s _ k task { todo, handler := some (program, .waiting) } := turn_setTask here
    refine h.of_turn turn (turn.exclusive h.exclusive (by simp +contextual)) ?_
    intro other was
    by_cases eq : other = program
    · subst eq
      exact .inl (toBeRead_of_mem turn.mem_after (.inr ⟨.waiting, rfl, trivial⟩))
    · refine turn.apart (by simp [idle]) ?_ ?_ rfl was
      · rintro stage ⟨⟩
        exact eq rfl
      · rw [due]
        intro mem
        exact (List.mem_cons.1 mem).resolve_left eq
  · cases hs

theorem Inv.acquire (h : s.Inv) (hs : s.step (.acquire k) = some t) : t.Inv := by
  obtain ⟨⟨task, program, stage⟩, handling, hs⟩ := Option.bind_eq_some_iff.1 hs
  obtain ⟨⟨-, free⟩, ⟨⟩⟩ := Option.ite_none_right_eq_some.1 hs
  obtain ⟨here, handled⟩ := handling_eq_some handling
  have turn : Turn s _ k task { task with handler := some (program, .reading) } := turn_setTask here
  refine h.of_turn_of_handler turn (turn.exclusive h.exclusive ?_) handled rfl (by simp +contextual) (fun _ _ => rfl) ?_
  · rintro q stage ⟨⟩ -
    exact .inl free
  · intro _
    exact .inl (toBeRead_of_mem turn.mem_after (.inr ⟨.reading, rfl, trivial⟩))

/-- The task goes on with its handler, whose lock it holds already. -/
theorem Turn.exclusive_of_held {after : DriveTask} (turn : Turn s t k task after) (exclusive : s.Exclusive)
    (handled : task.handler = some (program, stage)) (holds : stage ≠ .waiting)
    (same : ∀ other stage, after.handler = some (other, stage) → other = program) : t.Exclusive := by
  refine turn.exclusive exclusive ?_
  intro q stage' handles _
  obtain rfl := same q stage' handles
  exact .inr ⟨stage, holds, handled⟩

theorem Inv.read (h : s.Inv) (hs : s.step (.read k) = some t) : t.Inv := by
  obtain ⟨⟨task, program, stage⟩, handling, hs⟩ := Option.bind_eq_some_iff.1 hs
  obtain ⟨reading, ⟨⟩⟩ := Option.ite_none_right_eq_some.1 hs
  obtain ⟨here, handled⟩ := handling_eq_some handling
  have turn : Turn s _ k task { task with handler := some (program, .read (s.remote.get? program)) } :=
    turn_setTask here
  have exclusive := turn.exclusive_of_held h.exclusive handled (by rw [reading]; simp) (by simp +contextual)
  refine h.of_turn_of_handler turn exclusive handled rfl (by simp +contextual) (fun _ _ => rfl) ?_
  intro _
  cases stored : s.remote.get? program with
  | none =>
    rw [stored] at turn
    exact .inl (toBeRead_of_mem turn.mem_after (.inr ⟨.read none, rfl, trivial⟩))
  | some state =>
    rw [stored] at turn exclusive
    exact turn.holder exclusive rfl (by simp) stored rfl

/-- A call that has raised leaves a retry behind. -/
theorem Inv.retry (h : s.Inv) (here : s.tasks[k]? = some task) (handled : task.handler = some (program, stage)) :
    (s.retry k task program).Inv := by
  have turn : Turn s (s.retry k task program) k task { task with handler := none } := turn_retry here
  refine h.of_turn_of_handler turn (turn.exclusive h.exclusive (by simp)) handled rfl (by simp) (fun _ _ => rfl) ?_
  intro _
  exact .inl (toBeRead_of_mem (List.mem_append_right _ (List.mem_singleton_self _)) (.inl (List.mem_singleton_self _)))

theorem Inv.decided (h : s.Inv) (hs : s.step (.decide k) = some t) : t.Inv := by
  obtain ⟨⟨task, program, stage⟩, handling, hs⟩ := Option.bind_eq_some_iff.1 hs
  obtain ⟨here, handled⟩ := handling_eq_some handling
  dsimp only at hs
  split at hs
  · cases hs
    exact h.retry here handled
  · rename_i state
    split_ifs at hs with agrees
    · cases hs
      have turn : Turn s _ k task { task with handler := none } := turn_setTask here
      refine h.of_turn_of_handler turn (turn.exclusive h.exclusive (by simp)) handled rfl (by simp) (fun _ _ => rfl) ?_
      intro was
      refine turn.finished rfl rfl handled (by simp [Unread]) rfl was ?_
      rintro current stored ⟨⟩
      exact agrees
    · cases hs
      have turn : Turn s _ k task { task with
          handler := some (program, .requesting (requestFor (s.manager.getTargetController program)) false) } :=
        turn_setTask here
      have exclusive := turn.exclusive_of_held h.exclusive handled (by simp) (by simp +contextual)
      refine h.of_turn_of_handler turn exclusive handled rfl (by simp +contextual) (fun _ _ => rfl) ?_
      rintro (read | ⟨current, stored, -, -⟩)
      · refine .inl (turn.toBeRead read ?_)
        rintro (due | ⟨stage, handles, unread⟩)
        · exact toBeRead_of_mem turn.mem_after (.inl due)
        · rw [handled] at handles
          cases handles
          cases unread
      · exact turn.holder exclusive rfl (by simp) stored ⟨rfl, by simp⟩
  · cases hs

theorem serve_eq_some {request : ProgramEnableStateRequest} (hs : s.serve program request = some t) :
    ∃ state, s.remote.get? program = some state ∧
      t = { s with remote := s.remote.insert program (setEnableState state request) } := by
  obtain ⟨state, stored, ⟨⟩⟩ := Option.bind_eq_some_iff.1 hs
  exact ⟨state, stored, rfl⟩

theorem Inv.effect (h : s.Inv) (hs : s.step (.effect k) = some t) : t.Inv := by
  obtain ⟨⟨task, program, stage⟩, handling, hs⟩ := Option.bind_eq_some_iff.1 hs
  obtain ⟨here, handled⟩ := handling_eq_some handling
  dsimp only at hs
  split at hs
  · rename_i request
    obtain ⟨m, served, ⟨⟩⟩ := Option.bind_eq_some_iff.1 hs
    obtain ⟨state, stored, rfl⟩ := serve_eq_some served
    let remote := s.remote.insert program (setEnableState state request)
    have turn : Turn s (setTask { s with remote } k { task with handler := some (program, .requesting request true) })
        k task { task with handler := some (program, .requesting request true) } :=
      ⟨here, ⟨[], by simp [setTask], by simp⟩, rfl, rfl, rfl, rfl⟩
    have exclusive := turn.exclusive_of_held h.exclusive handled (by simp) (by simp +contextual)
    have others : ∀ other, other ≠ program → remote.get? other = s.remote.get? other :=
      fun other ne => Dict.get?_insert_of_ne ne
    refine h.of_turn_of_handler turn exclusive handled rfl (by simp +contextual) others ?_
    rintro (read | ⟨state', stored', current, -⟩)
    · refine .inl (turn.toBeRead read ?_)
      rintro (due | ⟨stage, handles, unread⟩)
      · exact toBeRead_of_mem turn.mem_after (.inl due)
      · rw [handled] at handles
        cases handles
        cases unread
    · -- The request is that for the current target.
      obtain ⟨same, -⟩ := current task (mem_of_found here) _ handled
      refine turn.holder exclusive rfl (by simp) Dict.get?_insert_self ⟨same, fun _ => ?_⟩
      rw [same]
      exact agrees_setEnableState state _
  · cases hs

theorem Inv.answer (h : s.Inv) (hs : s.step (.answer k) = some t) : t.Inv := by
  obtain ⟨⟨task, program, stage⟩, handling, hs⟩ := Option.bind_eq_some_iff.1 hs
  obtain ⟨here, handled⟩ := handling_eq_some handling
  dsimp only at hs
  split at hs
  · cases hs
    have turn : Turn s _ k task { task with handler := none } := turn_setTask here
    refine h.of_turn_of_handler turn (turn.exclusive h.exclusive (by simp)) handled rfl (by simp) (fun _ _ => rfl) ?_
    intro was
    exact turn.finished rfl rfl handled (by simp [Unread]) rfl was fun _ _ current => current.2 rfl
  · cases hs

theorem Inv.fail (h : s.Inv) (hs : s.step (.fail k) = some t) : t.Inv := by
  obtain ⟨⟨task, program, stage⟩, handling, hs⟩ := Option.bind_eq_some_iff.1 hs
  obtain ⟨here, handled⟩ := handling_eq_some handling
  dsimp only at hs
  split at hs
  · cases hs
    exact h.retry here handled
  · cases hs
    have kept := h.retry here handled
    exact ⟨kept.exclusive, kept.driven, kept.latest, kept.drained, kept.idle, kept.open_⟩
  · cases hs

/-- The programs whose stored state does not change. -/
theorem Inv.of_remote (h : s.Inv) {remote : Dict String ProgramEnableState}
    {abandoned : List (String × ProgramEnableStateRequest)}
    (kept : ∀ program, s.ToBeRead program ∨ remote.get? program = s.remote.get? program ∨ ¬ s.Driven program) :
    Inv { s with remote, abandoned } := by
  refine ⟨h.exclusive, ?_, h.latest, h.drained, h.idle, h.open_⟩
  intro program mem seen
  have was := h.driven program mem seen
  rcases kept program with read | same | idle
  · exact .inl read
  · refine was.imp id ?_
    rintro ⟨state, stored, rest⟩
    exact ⟨state, same.trans stored, rest⟩
  · exact .inl (was.resolve_right idle)

theorem Inv.lateEffect (h : s.Inv) {j : ℕ} (inTime : s.EffectsInTime (.lateEffect j))
    (hs : s.step (.lateEffect j) = some t) : t.Inv := by
  obtain ⟨⟨program, request⟩, there, hs⟩ := Option.bind_eq_some_iff.1 hs
  obtain ⟨m, served, ⟨⟩⟩ := Option.bind_eq_some_iff.1 hs
  obtain ⟨state, stored, rfl⟩ := serve_eq_some served
  refine h.of_remote ?_
  intro other
  by_cases eq : other = program
  · subst eq
    exact .inl (inTime _ there)
  · exact .inr (.inl (Dict.get?_insert_of_ne eq))

theorem Inv.register (h : s.Inv) {state : ProgramEnableState} (hs : s.step (.register program state) = some t) :
    t.Inv := by
  obtain ⟨new, ⟨⟩⟩ := Option.ite_none_right_eq_some.1 hs
  refine h.of_remote ?_
  intro other
  by_cases eq : other = program
  · subst eq
    refine .inr (.inr ?_)
    rintro ⟨state', stored, -⟩
    rw [new] at stored
    cases stored
  · exact .inr (.inl (Dict.get?_insert_of_ne eq))

theorem concerns_some (named : Concerns (some other) program) : other = program :=
  named other rfl

/-- A notification is taken: its programs are now due. -/
theorem Inv.takeChange (h : s.Inv) (hs : s.step .takeChange = some t) : t.Inv := by
  obtain ⟨idle, hs⟩ := Option.ite_none_right_eq_some.1 hs
  obtain ⟨⟨item, onChange⟩, taken, ⟨⟩⟩ := Option.bind_eq_some_iff.1 hs
  obtain ⟨queued, -, -, open_⟩ := AsyncObserver.take_eq_some taken
  have some_ : s.tasks ≠ [] := List.ne_nil_of_mem (mem_of_found idle)
  have turn (todo : List String) : Turn { s with onChange } (setTask { s with onChange } 0 { todo }) 0
      { todo := [] } { todo } := turn_setTask idle
  refine ⟨(turn _).exclusive h.exclusive (by simp), ?_, h.latest, fun _ => h.drained some_, ?_, ?_⟩
  · intro program mem seen
    have after : Concerns item program ∨ (ToBeRead { s with onChange } program ∨
        Driven { s with onChange } program) := by
      rcases h.driven program mem seen with (⟨other, waits, concerns⟩ | due) | driven
      · rw [queued] at waits
        rcases List.mem_cons.1 waits with rfl | waits
        · exact .inl concerns
        · exact .inr (.inl (.inl ⟨other, waits, concerns⟩))
      · exact .inr (.inl (.inr due))
      · exact .inr (.inr driven)
    rcases after with concerns | was
    · refine .inl (toBeRead_of_mem (turn _).mem_after (.inl ?_))
      cases item with
      | none => exact mem
      | some named => exact List.mem_singleton.2 (concerns_some concerns).symm
    · exact (turn _).apart (by simp) (by simp) (by simp) rfl was
  · intro none
    exact absurd none (List.ne_nil_of_mem (turn _).mem_after)
  · intro _
    exact ⟨open_, (h.open_ some_).2⟩

theorem Inv.takeDiscovered (h : s.Inv) (hs : s.step .takeDiscovered = some t) : t.Inv := by
  obtain ⟨idle, hs⟩ := Option.ite_none_right_eq_some.1 hs
  obtain ⟨⟨programs, knownPrograms⟩, taken, ⟨⟩⟩ := Option.bind_eq_some_iff.1 hs
  obtain ⟨queued, value, -, open_⟩ := AsyncObserver.take_eq_some taken
  have some_ : s.tasks ≠ [] := List.ne_nil_of_mem (mem_of_found idle)
  let todo := (symmetricDifference programs s.previousDiscovered).filter (· ∈ s.manager.allPrograms)
  let m : ProgramDrive := { s with knownPrograms, previousDiscovered := programs }
  have turn : Turn m (m.setTask 1 { todo }) 1 { todo := [] } { todo } := turn_setTask idle
  refine ⟨turn.exclusive h.exclusive (by simp), ?_, h.latest.take taken, ?_, ?_, ?_⟩
  · intro program mem now
    by_cases seen : program ∈ s.previousDiscovered
    · exact turn.apart (by simp) (by simp) (by simp) rfl (h.driven program mem seen)
    · have differs : program ∈ todo := by
        refine List.mem_filter.2 ⟨List.mem_append_left _ (List.mem_filter.2 ⟨now, ?_⟩), ?_⟩
        · exact decide_eq_true seen
        · exact decide_eq_true mem
      exact .inl (toBeRead_of_mem turn.mem_after (.inl differs))
  · intro _ empty program mem
    have last := h.latest (by simp [queued])
    rw [queued, show knownPrograms.queued = [] from empty] at last
    have same : programs = s.knownPrograms.value := Option.some.inj last
    show program ∈ programs
    rw [same, ← value]
    exact mem
  · intro none
    exact absurd none (List.ne_nil_of_mem turn.mem_after)
  · intro _
    exact ⟨(h.open_ some_).1, open_⟩

theorem Inv.start (h : s.Inv) (hs : s.step .start = some t) : t.Inv := by
  obtain ⟨none, ⟨⟩⟩ := Option.ite_none_right_eq_some.1 hs
  refine ⟨?_, ?_, AsyncObserver.latest_consume, ?_, by simp, fun _ => ⟨rfl, rfl⟩⟩
  · intro i j x y program stage stage' first _ handles
    have mem := mem_of_found first
    simp only [List.mem_cons, List.not_mem_nil, or_false, or_self] at mem
    rw [mem] at handles
    cases handles
  · intro program _ seen
    have seen : program ∈ s.previousDiscovered := seen
    rw [h.idle none] at seen
    cases seen
  · intro _ empty
    cases empty

theorem Inv.discovered (h : s.Inv) {programs : List String} :
    Inv { s with knownPrograms := s.knownPrograms.notify programs } := by
  refine ⟨h.exclusive, h.driven, AsyncObserver.latest_notify, ?_, h.idle, ?_⟩
  · intro some_ empty
    have empty : (s.knownPrograms.notify programs).queued = [] := empty
    rw [AsyncObserver.queued_notify (h.open_ some_).2] at empty
    exact absurd (empty ▸ AsyncObserver.mem_put : programs ∈ []) List.not_mem_nil
  · intro some_
    refine ⟨(h.open_ some_).1, ?_⟩
    exact AsyncObserver.isSome_notify.trans (h.open_ some_).2

/-- What is desired changes, and the watcher is notified of it. -/
theorem Inv.notify (h : s.Inv) {manager : ProgramStateManager} {item : Option String}
    (all : manager.allPrograms = s.manager.allPrograms)
    (concerns : ∀ program, manager.getTargetController program = s.desired program ∨ Concerns item program)
    (keeps : defaultMaxsize ≤ s.onChange.queued.length → ∀ lost ∈ s.onChange.queued.head?,
      ∀ program ∈ s.manager.allPrograms, Concerns lost program →
        ∃ other ∈ AsyncObserver.put s.onChange.queued item, Concerns other program) :
    Inv { s with manager, onChange := s.onChange.notify item } := by
  refine ⟨h.exclusive, ?_, h.latest, h.drained, h.idle, ?_⟩
  · intro program mem seen
    have mem : program ∈ s.manager.allPrograms := all ▸ mem
    have open_ : s.onChange.queue.isSome = true := by
      refine (h.open_ ?_).1
      intro none
      have seen : program ∈ s.previousDiscovered := seen
      rw [h.idle none] at seen
      cases seen
    have changed (other : Option String) (waits : other ∈ AsyncObserver.put s.onChange.queued item)
        (about : Concerns other program) :
        ToBeRead { s with manager, onChange := s.onChange.notify item } program := by
      refine .inl ⟨other, ?_, about⟩
      show other ∈ (s.onChange.notify item).queued
      rw [AsyncObserver.queued_notify open_]
      exact waits
    rcases h.driven program mem seen with (⟨other, waits, about⟩ | due) | ⟨state, stored, current, goes⟩
    · left
      by_cases room : s.onChange.queued.length < defaultMaxsize
      · exact changed other (AsyncObserver.mem_put_of_room room waits) about
      · cases queued : s.onChange.queued with
        | nil =>
          rw [queued] at waits
          cases waits
        | cons first rest =>
          rw [queued] at waits
          rcases List.mem_cons.1 waits with rfl | waits
          · obtain ⟨covers, waits, about⟩ := keeps (Nat.not_lt.1 room) other (by simp [queued]) program mem about
            exact changed covers waits about
          · exact changed other (AsyncObserver.mem_put_of_tail (by simp [queued, waits])) about
    · exact .inl (.inr due)
    · rcases concerns program with same | about
      · refine .inr ⟨state, stored, ?_, ?_⟩
        · intro x mem stage handles
          have now := current x mem stage handles
          unfold Current ProgramDrive.desired at now ⊢
          dsimp only
          rw [same]
          exact now
        · unfold ProgramDrive.desired
          dsimp only
          rw [same]
          exact goes
      · exact .inl (changed item AsyncObserver.mem_put about)
  · intro some_
    refine ⟨?_, (h.open_ some_).2⟩
    exact AsyncObserver.isSome_notify.trans (h.open_ some_).1

theorem enable_eq_ok {m m' : ProgramStateManager} (enabled : m.enable program = .ok m') :
    m'.allPrograms = m.allPrograms ∧ m'.globalEnabled = m.globalEnabled ∧
      ∀ other, other ≠ program → m'.desiredEnable.get? other = m.desiredEnable.get? other := by
  unfold ProgramStateManager.enable at enabled
  split at enabled
  · cases enabled
    exact ⟨rfl, rfl, fun _ _ => rfl⟩
  · split at enabled
    · cases enabled
      exact ⟨rfl, rfl, fun _ ne => Dict.get?_insert_of_ne ne⟩
    · split_ifs at enabled
      · cases enabled
        exact ⟨rfl, rfl, fun _ _ => rfl⟩
      · cases enabled
        exact ⟨rfl, rfl, fun _ ne => Dict.get?_insert_of_ne ne⟩

theorem Inv.enable (h : s.Inv) (keeps : s.KeepsNotices (.enable program)) (hs : s.step (.enable program) = some t) :
    t.Inv := by
  simp only [step] at hs
  split at hs
  · rename_i manager enabled
    cases hs
    obtain ⟨all, gate, others⟩ := enable_eq_ok enabled
    by_cases change : manager.desiredEnable.get? program ≠ s.manager.desiredEnable.get? program
    · rw [show decide (manager.desiredEnable.get? program ≠ s.manager.desiredEnable.get? program) = true from
        decide_eq_true change]
      refine h.notify all ?_ (keeps _ ?_)
      · intro other
        by_cases eq : other = program
        · right
          rintro _ ⟨⟩
          exact eq.symm
        · left
          unfold ProgramStateManager.getTargetController ProgramDrive.desired ProgramStateManager.getTargetController
          rw [gate, others other eq]
      · unfold notice
        simp [enabled, change]
    · rw [show decide (manager.desiredEnable.get? program ≠ s.manager.desiredEnable.get? program) = false from
        decide_eq_false change]
      exact h
  · cases hs
    exact h

theorem Inv.disable (h : s.Inv) (keeps : s.KeepsNotices (.disable program)) (hs : s.step (.disable program) = some t) :
    t.Inv := by
  cases hs
  cases desired : (s.manager.desiredEnable.get? program).isSome with
  | false => exact h
  | true =>
    refine h.notify rfl ?_ (keeps _ ?_)
    · intro other
      by_cases eq : other = program
      · right
        rintro _ ⟨⟩
        exact eq.symm
      · left
        unfold ProgramStateManager.getTargetController ProgramDrive.desired ProgramStateManager.getTargetController
          ProgramStateManager.disable
        rw [Dict.get?_erase, if_neg eq]
    · unfold notice
      simp [desired]

theorem Inv.setGlobal (h : s.Inv) {enabled : Bool} (keeps : s.KeepsNotices (.setGlobal enabled))
    (hs : s.step (.setGlobal enabled) = some t) : t.Inv := by
  cases hs
  cases change : s.manager.globalEnabled != enabled with
  | false => exact h
  | true =>
    refine h.notify rfl ?_ (keeps _ ?_)
    · intro other
      right
      rintro _ ⟨⟩
    · unfold notice
      simp [change]

/-- **Each step leaves a trace** of what is still to be driven. -/
theorem Inv.step (h : s.Inv) (keeps : s.KeepsNotices a) (inTime : s.EffectsInTime a) (hs : s.step a = some t) :
    t.Inv := by
  cases a with
  | assignController program controller =>
    cases hs
    exact ⟨h.exclusive, h.driven, h.latest, h.drained, h.idle, h.open_⟩
  | enable program => exact h.enable keeps hs
  | disable program => exact h.disable keeps hs
  | setGlobal enabled => exact h.setGlobal keeps hs
  | discovered programs =>
    cases hs
    exact h.discovered
  | register program state => exact h.register hs
  | start => exact h.start hs
  | takeChange => exact h.takeChange hs
  | takeDiscovered => exact h.takeDiscovered hs
  | next k => exact h.next hs
  | acquire k => exact h.acquire hs
  | read k => exact h.read hs
  | decide k => exact h.decided hs
  | effect k => exact h.effect hs
  | answer k => exact h.answer hs
  | fail k => exact h.fail hs
  | lateEffect j => exact h.lateEffect inTime hs

theorem inv_start {manager : ProgramStateManager} : Inv { manager } := by
  refine ⟨?_, by simp, ?_, by simp, fun _ => rfl, by simp⟩
  · intro i j x y program stage stage' first
    cases first
  · intro some_
    exact absurd rfl some_

/-! ## What is left -/

theorem undecided_of_unread (unread : Unread stage) : Undecided stage := by
  cases stage with
  | waiting | reading | read => trivial
  | requesting => cases unread

theorem Inv.traced (h : s.Inv) (started : s.tasks ≠ []) (known : s.Known program) : s.Traced program := by
  by_cases seen : program ∈ s.previousDiscovered
  · rcases h.driven program known.1 seen with (changed | due | ⟨x, mem, hd, handles, rfl, unread⟩) |
      ⟨state, stored, current, agrees | ⟨x, mem, ⟨_, stage⟩, handles, rfl, -⟩⟩
    · exact .inr (.inl changed)
    · exact .inr (.inr (.inr (.inr (.inl due))))
    · exact .inr (.inr (.inr (.inl ⟨x, mem, hd, handles, rfl, undecided_of_unread unread⟩)))
    · exact .inl ⟨state, stored, agrees⟩
    · have now := current x mem stage handles
      cases stage with
      | waiting => cases now
      | reading => cases now
      | read state => exact .inr (.inr (.inr (.inl (handled_of_mem mem handles trivial))))
      | requesting request effective =>
        exact .inr (.inr (.inr (.inr (.inr (handled_of_mem mem handles now.1)))))
  · -- The discovery that made the program known is still queued.
    refine .inr (.inr (.inl ⟨seen, s.knownPrograms.value, ?_, known.2⟩))
    have waits : s.knownPrograms.queued ≠ [] := fun empty => seen (h.drained started empty program known.2)
    exact List.mem_of_getLast? (h.latest waits)

/-- **Program enablement converges**: in every run in which no lost notification goes uncovered, and no request takes
effect after the state has been read anew, each known program is as desired, or some trace re-drives it. -/
theorem enablement_traced {manager : ProgramStateManager}
    (run : Reaches step (fun s a => s.KeepsNotices a ∧ s.EffectsInTime a) { manager } s) (started : s.tasks ≠ [])
    (known : s.Known program) : s.Traced program := by
  have inv : s.Inv := run.invariant inv_start fun _ _ _ inv ok hs => inv.step ok.1 ok.2 hs
  exact inv.traced started known

/-- Two programs that one controller may be tasked by, and which have been discovered. -/
def twoPrograms : ProgramDrive := { manager := { allPrograms := ["sky", "dark"] } }

def discoveredPrograms : List DriveLabel :=
  [.assignController "sky" "camera", .assignController "dark" "camera", .register "sky" {}, .register "dark" {},
    .discovered ["sky", "dark"], .start, .takeDiscovered]

/-- The task handles its next program. -/
def handled (k : ℕ) : List DriveLabel :=
  [.next k, .acquire k, .read k, .decide k]

/-- The watchers have handled both programs, and wait. -/
def settled : List DriveLabel :=
  discoveredPrograms ++ handled 1 ++ handled 1 ++ [.takeChange] ++ handled 0 ++ handled 0

/-- A program is disabled while the request to enable it is on its way. -/
theorem enablement_traced_example : ∃ s, exec step twoPrograms (settled ++ [.enable "sky", .takeChange] ++ handled 0 ++
    [.disable "sky", .effect 0, .answer 0, .takeChange] ++ handled 0) = some s ∧ s.Traced "sky" := by
  let labels := settled ++ [.enable "sky", .takeChange] ++ handled 0 ++
    [.disable "sky", .effect 0, .answer 0, .takeChange] ++ handled 0
  have ends : (exec step twoPrograms labels).map (fun s => (s.tasks.length, decide (s.Known "sky"))) =
      some (2, true) := by
    decide +kernel
  have ok : okAlong step (fun s a => s.KeepsNotices a ∧ s.EffectsInTime a) twoPrograms labels := by
    decide +kernel
  obtain ⟨s, run, shows⟩ := Option.map_eq_some_iff.1 ends
  rw [Prod.mk.injEq, decide_eq_true_eq] at shows
  obtain ⟨tasks, known⟩ := shows
  refine ⟨s, run, enablement_traced (reaches_of_exec run ok) ?_ known⟩
  intro none
  rw [none] at tasks
  cases tasks

theorem exists_of_exec (labels : List DriveLabel) {p : ProgramDrive → Prop} [DecidablePred p]
    (ends : (exec step twoPrograms labels).map (fun s => decide (p s)) = some true) :
    ∃ s, Reaches step always twoPrograms s ∧ p s := by
  obtain ⟨s, run, holds⟩ := Option.map_eq_some_iff.1 ends
  exact ⟨s, reaches_of_exec run okAlong_always, of_decide_eq_true holds⟩

/-- The desired target of a program is notified, and 1024 changes of another while a handler reads. -/
def overflow : List DriveLabel :=
  discoveredPrograms ++ handled 1 ++ handled 1 ++ [.takeChange] ++ handled 0 ++ [.next 0, .acquire 0, .enable "sky"] ++
    (List.replicate 512 [.enable "dark", .disable "dark"]).flatten

/-- A request fails at its caller, and takes effect after the retry has found nothing to do. -/
def lateRequest : List DriveLabel :=
  settled ++ [.enable "sky", .takeChange] ++ handled 0 ++ [.fail 0, .disable "sky", .takeChange] ++ handled 0 ++
    handled 2 ++ [.lateEffect 0]

set_option maxRecDepth 100000 in
/-- The traces that are named first are not enough while a request is on its way. A full queue drops the notification of
a program, and a request may take effect late: then nothing re-drives the program. -/
theorem not_traced :
    (∃ s, Reaches step always twoPrograms s ∧ s.Known "sky" ∧ ¬ s.NarrowlyTraced "sky") ∧
    (∃ s, Reaches step always twoPrograms s ∧ s.Known "sky" ∧ s.abandoned = [] ∧ ¬ s.Traced "sky") ∧
      ∃ s, Reaches step always twoPrograms s ∧ s.Known "sky" ∧ s.onChange.queued = [] ∧ ¬ s.Traced "sky" := by
  refine ⟨?_, ?_, ?_⟩
  · exact exists_of_exec (settled ++ [.enable "sky", .takeChange] ++ handled 0) (by decide +kernel)
  · exact exists_of_exec overflow (by decide +kernel)
  · exact exists_of_exec lateRequest (by decide +kernel)

end ProgramDrive

end SensorKit.Auto
