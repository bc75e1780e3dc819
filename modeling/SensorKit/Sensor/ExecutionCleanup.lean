import SensorKit.Sensor.ExecutionSteps

/-!
# Cleanup after a run

The main graph drains before any cleanup starts. Its outcome and what it attempted decide which cleanups
run, in their order; a cleanup that fails or expires changes nothing for those after it, and the first
cancellation from then on is the last thing a cleanup waits for.
-/

namespace SensorKit.Sensor

open Lib Common
open Execution (After endsAs)

variable {workflow : ExecutableWorkflow} {answers : List Bool} {w w' : WorkflowExecution}
  {cleanup : Cleanup} {index : ℕ} {rest done : List (Cleanup × ℕ)} {b : Bounded}

/-! ## From one cleanup to the next -/

/-- The main run has returned, and no cancellation has arrived since. The cleanups `done` are decided. -/
structure Between (workflow : ExecutableWorkflow) (answers : List Bool) (w : WorkflowExecution)
    (done rest : List (Cleanup × ℕ)) : Prop where
  same : w.workflow = workflow
  counted : w.cancellations = answers.length
  main : After workflow.graph (answers.take w.main.cancellations) w.main
  returned : ∃ aborted, w.main.phase = .finished (.returned aborted)
  split : workflow.cleanup.zipIdx = done ++ rest
  started : w.started = done.filter (w.eligible ·.1)
  reported : w.reports.map CleanupReport.cleanup = w.started.map Prod.fst
  quiet : w.main.cancellations = answers.length

/-- The run is aborted if a cancellation arrived at the main graph or later, and was absorbed. -/
theorem aborted_of_returned (main : After workflow.graph (answers.take w.main.cancellations) w.main)
    (returned : ∃ aborted, w.main.phase = .finished (.returned aborted)) :
    (w.run.aborted || decide (w.main.cancellations < answers.length)) = !answers.isEmpty := by
  obtain ⟨aborted, returned⟩ := returned
  have counted := main.counted
  have ended := (main.ended returned).1
  obtain ⟨-, eq⟩ := endsAs_returned ended.symm
  have run : w.run.aborted = aborted := by
    unfold WorkflowExecution.run
    cases aborted <;> simp [returned]
  rw [run, eq]
  rw [List.length_take] at counted
  cases answers with
  | nil => simp
  | cons answer answers =>
    cases cancellations : w.main.cancellations with
    | zero => simp
    | succ n => simp

theorem conclude_executes {ended : Bool} (same : w.workflow = workflow) (counted : w.cancellations = answers.length)
    (main : After workflow.graph (answers.take w.main.cancellations) w.main)
    (returned : ∃ aborted, w.main.phase = .finished (.returned aborted)) (absorbed : false ∉ answers)
    (reported : w.reports.map CleanupReport.cleanup = w.started.map Prod.fst)
    (complete : w.main.cancellations = answers.length → w.started = workflow.cleanup.zipIdx.filter (w.eligible ·.1))
    (start : w.started <+: workflow.cleanup.zipIdx.filter (w.eligible ·.1))
    (late : ended = decide (w.main.cancellations < answers.length)) :
    Executes workflow answers (w.conclude ended) := by
  refine ⟨same, counted, main, .concluded _ rfl ⟨returned, absorbed, reported, complete, start, ?_⟩⟩
  rw [late, aborted_of_returned main returned, Bool.not_not]
  rfl

/-- **The loop over the cleanups**, by induction on those ahead. -/
theorem Between.nextCleanup (rest : List (Cleanup × ℕ)) : ∀ {done : List (Cleanup × ℕ)} {w : WorkflowExecution},
    Between workflow answers w done rest → Executes workflow answers (w.nextCleanup rest) := by
  induction rest with
  | nil =>
    intro done w h
    have all : w.started = workflow.cleanup.zipIdx.filter (w.eligible ·.1) := by
      rw [h.split, List.append_nil]
      exact h.started
    unfold WorkflowExecution.nextCleanup
    apply conclude_executes h.same h.counted h.main h.returned _ h.reported (fun _ => all)
    · rw [all]
    · simp [h.quiet]
    · obtain ⟨aborted, returned⟩ := h.returned
      have absorbed := (endsAs_returned (h.main.ended returned).1.symm).1
      rwa [h.quiet, List.take_length] at absorbed
  | cons head rest ih =>
    intro done w h
    obtain ⟨cleanup, index⟩ := head
    unfold WorkflowExecution.nextCleanup
    split_ifs with eligible
    · obtain ⟨aborted, returned⟩ := h.returned
      have absorbed := (endsAs_returned (h.main.ended returned).1.symm).1
      rw [h.quiet, List.take_length] at absorbed
      refine ⟨h.same, h.counted, h.main, .cleaning cleanup index rest done {} rfl
        ⟨h.returned, h.split, eligible, ?_, h.reported.trans (congrArg _ h.started), ?_, ?_, trivial⟩⟩
      · show w.started ++ [(cleanup, index)] = _
        rw [h.started]
        rfl
      · show false = decide (w.main.cancellations < answers.length)
        simp [h.quiet]
      · exact (Execution.undeclined_iff.2 absorbed).symm
    · have skipped : Between workflow answers w (done ++ [(cleanup, index)]) rest := by
        refine { h with split := ?_, started := ?_ }
        · rw [h.split, List.append_assoc]
          rfl
        · rw [List.filter_append, h.started]
          simp [eligible]
      exact ih skipped

/-! ## After the main graph -/

/-- The main graph's run has ended, or the executor goes on with it. -/
theorem afterMain_executes (same : w.workflow = workflow) (counted : w.cancellations = answers.length)
    (main : After workflow.graph answers w.main) (phase : w.phase = .main) (started : w.started = [])
    (reports : w.reports = []) : Executes workflow answers w.afterMain := by
  have quiet : w.main.cancellations = answers.length := main.counted
  have main' : After workflow.graph (answers.take w.main.cancellations) w.main := by
    rwa [quiet, List.take_length]
  unfold WorkflowExecution.afterMain
  split
  · rename_i aborted returned
    rw [same]
    have between : Between workflow answers w [] workflow.cleanup.zipIdx :=
      ⟨same, counted, main', ⟨aborted, returned⟩, rfl, started, by rw [reports, started]; rfl, quiet⟩
    exact Between.nextCleanup _ between
  · rename_i cancellation raised
    have ended := (main.ended raised).1
    refine ⟨same, counted, main', .raised _ rfl ⟨.inl started, ?_, ?_, ?_, ?_⟩⟩
    · rintro ⟨aborted, returned⟩
      rw [raised] at returned
      cases returned
    · show w.reports.map _ = w.started.map _
      rw [reports, started]
      rfl
    · show w.started <+: _
      rw [started]
      exact List.nil_prefix
    · cases declined : answers.findIdx? (!·) with
      | none =>
        rw [Execution.endsAs_absorbed (Execution.undeclined_iff.1 declined)] at ended
        cases ended
      | some first =>
        rw [Execution.endsAs_declined declined] at ended
        exact ⟨first, rfl, by rw [Ending.raised.inj ended]⟩
  · rename_i deadlocked
    exact absurd (main.ended deadlocked).1.symm (Execution.endsAs_ne_deadlock _)
  · rename_i notReturned notRaised notStuck
    refine ⟨same, counted, main', .main phase (fun ending finished => ?_) quiet started reports⟩
    cases ending with
    | returned aborted => exact notReturned aborted finished
    | raised cancellation => exact notRaised cancellation finished
    | deadlock => exact notStuck finished

theorem start_executes (valid : workflow.graph.Valid) : Executes workflow [] (.start workflow) :=
  afterMain_executes rfl rfl (After.start valid) rfl rfl rfl

/-! ## The end of a cleanup -/

/-- The task of a cleanup ends with a report: no cancellation raises out of it, and it has no deadlock. -/
theorem CleanupTask.Runs.result {task : CleanupTask} {result : Except String (RunReport (Option Operation))}
    (runs : task.Runs cleanup) (ended : task.result cleanup = some result) : ∃ report, result = .ok report := by
  cases task with
  | created => cases ended
  | unstarted => exact ⟨_, (Option.some.inj ended).symm⟩
  | running run =>
    obtain ⟨seen, absorbed, after⟩ := runs
    unfold CleanupTask.result at ended
    dsimp only at ended
    split at ended
    · exact ⟨_, (Option.some.inj ended).symm⟩
    · exact ⟨_, (Option.some.inj ended).symm⟩
    · rename_i deadlocked
      exact absurd (after.ended deadlocked).1.symm (Execution.endsAs_ne_deadlock _)
    · cases ended

/-- **The end of a cleanup**, and of a turn of the loop. -/
theorem Cleaning.settle (same : w.workflow = workflow) (counted : w.cancellations = answers.length)
    (main : After workflow.graph (answers.take w.main.cancellations) w.main)
    (h : Cleaning workflow answers w cleanup index rest done b) (hs : w.settle cleanup rest b = some w') :
    Executes workflow answers w' := by
  unfold WorkflowExecution.settle at hs
  have started : (done ++ [(cleanup, index)]).filter (w.eligible ·.1) = w.started := by
    rw [List.filter_append, h.started]
    simp [h.eligible]
  have start : w.started <+: workflow.cleanup.zipIdx.filter (w.eligible ·.1) := by
    rw [h.split, List.append_cons, List.filter_append, started]
    exact List.prefix_append _ _
  split at hs
  · cases hs
  · rename_i ended
    obtain ⟨report, eq⟩ := h.runs.result ended
    cases eq
  · rename_i run _
    generalize one : ({ cleanup, run, expired := b.expired } : CleanupReport) = report at hs
    have reported : (w.reports ++ [report]).map CleanupReport.cleanup = w.started.map Prod.fst := by
      rw [List.map_append, h.reported, h.started, List.map_append, ← one]
      rfl
    have declined := h.declined
    dsimp only at hs
    split at hs
    · rename_i cancellation raised
      cases hs
      refine ⟨same, counted, main, .raised _ rfl ⟨.inr h.returned, fun _ => ?_, reported, start, cancellation, ?_, rfl⟩⟩
      · rw [raised] at declined
        show w.main.cancellations < answers.length
        by_contra quiet
        obtain ⟨aborted, returned⟩ := h.returned
        have absorbed := (endsAs_returned (main.ended returned).1.symm).1
        rw [List.take_of_length_le (Nat.le_of_not_lt quiet), ← Execution.undeclined_iff, ← declined] at absorbed
        cases absorbed
      · rw [← declined, raised]
    · rename_i unraised
      have absorbed : false ∉ answers := by
        rw [unraised] at declined
        exact Execution.undeclined_iff.1 declined.symm
      cases hs
      split_ifs with cancelled
      · have late : w.main.cancellations < answers.length := by
          rw [h.cancelled] at cancelled
          exact of_decide_eq_true cancelled
        apply conclude_executes (w := { w with reports := w.reports ++ [report] }) same counted main h.returned absorbed
          reported _ start
        · exact (decide_eq_true late).symm
        · intro quiet
          exact absurd quiet late.ne
      · have quiet : w.main.cancellations = answers.length := by
          rw [h.cancelled, decide_eq_true_eq] at cancelled
          have counts := main.counted
          rw [List.length_take] at counts
          omega
        have between : Between workflow answers { w with reports := w.reports ++ [report] }
            (done ++ [(cleanup, index)]) rest :=
          ⟨same, counted, main, h.returned, by rw [h.split, List.append_cons], started.symm, reported, quiet⟩
        exact Between.nextCleanup _ between

/-! ## One step -/

/-- A cancellation reaches the executor at a cleanup. -/
theorem Cleaning.cancelled_by (counted : w.cancellations = answers.length)
    (main : After workflow.graph (answers.take w.main.cancellations) w.main)
    (h : Cleaning workflow answers w cleanup index rest done b) (absorbed asked requested : Bool) :
    Cleaning workflow (answers ++ [absorbed]) (w.noted asked absorbed) cleanup index rest done
      { b with
        cancelled := true
        declined := b.declined.or (if absorbed then none else some w.cancellations)
        requested } := by
  refine { h with cancelled := ?_, declined := ?_ }
  · have counts := main.counted
    rw [List.length_take] at counts
    show true = decide (w.main.cancellations < (answers ++ [absorbed]).length)
    rw [List.length_append, List.length_singleton]
    exact (decide_eq_true (by omega)).symm
  · rw [declined_more, ← h.declined, counted]

/-- The answers at the main graph, with more since. -/
theorem After.take_append (main : After workflow.graph (answers.take w.main.cancellations) w.main) (absorbed : Bool) :
    After workflow.graph ((answers ++ [absorbed]).take w.main.cancellations) w.main := by
  have counts := main.counted
  rw [List.length_take] at counts
  rwa [List.take_append_of_le_length (by omega)]

/-- The cleanup at hand goes on, whatever it attempts. -/
theorem Cleaning.goes (h : Cleaning workflow answers w cleanup index rest done b) {b' : Bounded}
    {attempts : List Attempt} (owned : ∀ attempt ∈ attempts, attempt.cleanup = some index)
    (cancelled : b'.cancelled = b.cancelled) (declined : b'.declined = b.declined) (runs : b'.task.Runs cleanup) :
    Cleaning workflow answers
      { w with phase := .cleaning cleanup index rest b', attempted := w.attempted ++ attempts }
      cleanup index rest done b' := by
  have eligible : WorkflowExecution.eligible
      { w with phase := .cleaning cleanup index rest b', attempted := w.attempted ++ attempts } = w.eligible := by
    refine eligible_congr ?_ ?_ fun operation => ?_
    · rfl
    · rfl
    · show _ ∈ w.attempted ++ attempts ↔ _
      rw [List.mem_append, or_iff_left]
      intro mem
      cases owned _ mem
  refine ⟨h.returned, h.split, ?_, ?_, ?_, cancelled.trans h.cancelled, declined.trans h.declined, runs⟩
  · rw [eligible]
    exact h.eligible
  · rw [eligible]
    exact h.started
  · rw [eligible]
    exact h.reported

/-- **One step of a workflow's run.** -/
theorem Executes.step {label : WorkflowLabel} (valid : workflow.graph.Valid)
    (valids : ∀ cleanup ∈ workflow.cleanup, cleanup.graph.Valid) (h : Executes workflow answers w)
    (hs : w.step label = some w') : Executes workflow (answers ++ label.answer.toList) w' := by
  obtain ⟨same, counted, main, stage⟩ := h
  cases stage with
  | main phase unfinished all started reports =>
    rw [all, List.take_length] at main
    cases label with
    | graph label =>
      simp only [WorkflowExecution.step, phase] at hs
      obtain ⟨⟨next, attempts⟩, stepped, eq⟩ := Option.map_eq_some_iff.1 hs
      obtain rfl := eq
      obtain ⟨after, -, -⟩ := graphStep_after valid main stepped
      rw [show answers ++ (WorkflowLabel.graph label).answer.toList = answers from List.append_nil answers]
      refine afterMain_executes ?_ ?_ after ?_ ?_ ?_
      · exact same
      · exact counted
      · rfl
      · exact started
      · exact reports
    | cancel absorbed =>
      simp only [WorkflowExecution.step, phase] at hs
      obtain ⟨next, stepped, eq⟩ := Option.map_eq_some_iff.1 hs
      obtain rfl := eq
      have after := main.step valid stepped
      have count := after.counted
      have draining : ∀ ending, next.phase ≠ .finished ending := by
        intro ending finished
        simp only [Execution.step] at stepped
        split at stepped <;> cases stepped
        · cases finished
        · cases finished
      refine ⟨same, ?_, ?_, .main phase draining count started reports⟩
      · show w.cancellations + 1 = _
        rw [counted]
        simp [WorkflowLabel.answer]
      · show After workflow.graph ((answers ++ [absorbed]).take next.cancellations) next
        have count : next.cancellations = (answers ++ [absorbed]).length := count
        rw [count, List.take_length]
        exact after
    | _ => simp [WorkflowExecution.step, phase] at hs
  | cleaning cleanup index rest done b phase cleaning =>
    have member : cleanup ∈ workflow.cleanup := by
      have mem : (cleanup, index) ∈ workflow.cleanup.zipIdx := by simp [cleaning.split]
      exact List.fst_mem_of_mem_zipIdx mem
    have valid' := valids cleanup member
    have going {b' : Bounded} {attempts : List Attempt} (owned : ∀ attempt ∈ attempts, attempt.cleanup = some index)
        (cancelled : b'.cancelled = b.cancelled) (declined : b'.declined = b.declined) (runs : b'.task.Runs cleanup) :
        Executes workflow (answers ++ [])
          { w with phase := .cleaning cleanup index rest b', attempted := w.attempted ++ attempts } := by
      rw [List.append_nil]
      exact ⟨same, counted, main, .cleaning _ _ _ _ _ rfl (cleaning.goes owned cancelled declined runs)⟩
    have going' {b' : Bounded} (cancelled : b'.cancelled = b.cancelled) (declined : b'.declined = b.declined)
        (runs : b'.task.Runs cleanup) : Executes workflow (answers ++ []) (w.bounding cleanup index rest b') := by
      have owned : ∀ attempt ∈ ([] : List Attempt), attempt.cleanup = some index := by simp
      have goes := going owned cancelled declined runs
      rwa [List.append_nil w.attempted] at goes
    cases label with
    | graph label =>
      simp only [WorkflowExecution.step, phase] at hs
      split at hs
      · rename_i run task
        split_ifs at hs
        obtain ⟨⟨next, attempts⟩, stepped, eq⟩ := Option.map_eq_some_iff.1 hs
        obtain rfl := eq
        have runs := cleaning.runs
        rw [task] at runs
        obtain ⟨seen, absorbed, after⟩ := runs
        obtain ⟨after, -, owned⟩ := graphStep_after valid' after stepped
        exact going owned rfl rfl ⟨seen, absorbed, after⟩
      · cases hs
    | begins =>
      simp only [WorkflowExecution.step, phase] at hs
      split at hs
      · cases hs
        split_ifs
        · exact going' rfl rfl trivial
        · exact going' rfl rfl ⟨[], by simp, After.start valid'⟩
      · cases hs
    | deliver =>
      simp only [WorkflowExecution.step, phase] at hs
      split at hs
      · rename_i run task
        split_ifs at hs
        obtain ⟨next, stepped, eq⟩ := Option.map_eq_some_iff.1 hs
        obtain rfl := eq
        have runs := cleaning.runs
        rw [task] at runs
        obtain ⟨seen, absorbed, after⟩ := runs
        exact going' rfl rfl ⟨_, by simpa [RunLabel.answer] using absorbed, after.step valid' stepped⟩
      · cases hs
    | expire =>
      simp only [WorkflowExecution.step, phase] at hs
      split_ifs at hs
      cases hs
      exact going' rfl rfl cleaning.runs
    | resume =>
      simp only [WorkflowExecution.step, phase] at hs
      rw [show answers ++ WorkflowLabel.resume.answer.toList = answers from List.append_nil answers]
      exact cleaning.settle same counted main hs
    | cancel absorbed =>
      simp only [WorkflowExecution.step, phase] at hs
      have counted' : (w.noted b.declined.isNone absorbed).cancellations = (answers ++ [absorbed]).length := by
        rw [List.length_append, ← counted]
        rfl
      have main' := After.take_append main absorbed
      by_cases past : (b.task.result cleanup).isSome
      · rw [if_pos past] at hs
        have cancelled := cleaning.cancelled_by counted main absorbed b.declined.isNone b.requested
        refine Cleaning.settle ?_ counted' ?_ cancelled hs
        · exact same
        · exact main'
      · rw [if_neg past] at hs
        cases hs
        have cancelled := cleaning.cancelled_by counted main absorbed b.declined.isNone true
        exact ⟨same, counted', main', .cleaning _ _ _ _ _ rfl { cancelled with }⟩
  | concluded ending phase => cases label <;> simp [WorkflowExecution.step, phase] at hs
  | raised ending phase => cases label <;> simp [WorkflowExecution.step, phase] at hs

end SensorKit.Sensor
