import Mathlib.Data.Finset.Basic

/-!
# Program discovery

`ProgramDiscovery` keeps one observer with the enabled programs and one observer for each
controller with the programs associated with it. A task for each known program reads the
enable states its `ProgramStateMonitor` reports (`none` while the program is offline) and
updates the observers. Reports of different programs interleave freely, but one report is
processed without an await, so a run is the list of the processed reports.
-/

namespace SensorKit.Core

/-- Event indicating the Program enable state has changed. -/
structure ProgramEnableState where
  enabled : Bool := false
  controller : Option String := none
deriving DecidableEq, Repr

/-- The observers of a `ProgramDiscovery`: the enabled programs, or those of one controller.
The controller observers are a `defaultdict` keyed by whatever the state names, `none` included. -/
inductive Observer where
  | enabledPrograms
  | controller (name : Option String)
deriving DecidableEq, Repr

/-- `ProgramDiscovery`, with the current value of each observer. -/
structure ProgramDiscovery where
  value : Observer → Finset String := fun _ => ∅

namespace ProgramDiscovery

/-- `AsyncObserver.notify`: replace the current value of one observer. -/
def notify (d : ProgramDiscovery) (observer : Observer) (newSet : Finset String) : ProgramDiscovery :=
  ⟨fun o => if o = observer then newSet else d.value o⟩

/-- The observers one report touches. -/
def observers : Option ProgramEnableState → List Observer
  | none => [.enabledPrograms]
  | some state => [.enabledPrograms, .controller state.controller]

/-- The value a report leaves in an observer it touches. -/
def newSet (program : String) (state : Option ProgramEnableState) (value : Finset String) : Finset String :=
  match state with
  | some ⟨true, _⟩ => value ∪ {program}
  | _ => value \ {program}

/-- One turn of the loop of `_monitor_task`. -/
def monitorTask (d : ProgramDiscovery) (program : String) (state : Option ProgramEnableState) :
    ProgramDiscovery :=
  (observers state).foldl (fun d observer => d.notify observer (newSet program state (d.value observer))) d

/-- `enabled_programs`. -/
def enabledPrograms (d : ProgramDiscovery) : Finset String := d.value .enabledPrograms

/-- `controller_programs`. -/
def controllerPrograms (d : ProgramDiscovery) (controller : String) : Finset String :=
  d.value (.controller (some controller))

end ProgramDiscovery

/-- A program and the enable state its monitor reports, `none` while it is offline. -/
abbrev Report := String × Option ProgramEnableState

/-- The discovery after the reports have been processed in order. -/
def processed (reports : List Report) : ProgramDiscovery :=
  reports.foldl (fun d report => d.monitorTask report.1 report.2) {}

/-- The latest report of a program, if it made one. -/
def latest (reports : List Report) (program : String) : Option (Option ProgramEnableState) :=
  (reports.filterMap fun report => if report.1 = program then some report.2 else none).getLast?

/-- The last online report of a program that names `controller`. -/
def lastNaming (reports : List Report) (program : String) (controller : Option String) :
    Option ProgramEnableState :=
  (reports.filterMap fun report =>
    if report.1 = program then report.2.filter fun state => state.controller = controller else none).getLast?

/-- The latest report of the program is online and enabled and names the controller. -/
def Targets (reports : List Report) (program controller : String) : Prop :=
  ∃ state, latest reports program = some (some state) ∧ state.enabled ∧ state.controller = some controller

/-- The association is exact: a program is listed where its latest report puts it and
nowhere else, so under at most one controller and under none while offline or disabled. -/
structure AssociationExact (reports : List Report) : Prop where
  controllers : ∀ program controller,
    program ∈ (processed reports).controllerPrograms controller ↔ Targets reports program controller
  enabled : ∀ program, program ∈ (processed reports).enabledPrograms ↔
    ∃ state, latest reports program = some (some state) ∧ state.enabled
  unique : ∀ program a b, program ∈ (processed reports).controllerPrograms a →
    program ∈ (processed reports).controllerPrograms b → a = b

theorem latest_snoc (reports : List Report) (report : Report) (program : String) :
    latest (reports ++ [report]) program =
      if report.1 = program then some report.2 else latest reports program := by
  by_cases h : report.1 = program <;> simp [latest, h]

theorem lastNaming_snoc (reports : List Report) (report : Report) (program : String)
    (controller : Option String) :
    lastNaming (reports ++ [report]) program controller =
      if report.1 = program then
        (report.2.filter fun state => state.controller = controller).or (lastNaming reports program controller)
      else lastNaming reports program controller := by
  by_cases h : report.1 = program
  · cases hf : report.2.filter fun state => state.controller = controller <;>
      simp [lastNaming, h, hf]
  · simp [lastNaming, h]

theorem processed_snoc (reports : List Report) (report : Report) :
    processed (reports ++ [report]) = (processed reports).monitorTask report.1 report.2 := by
  simp [processed]

theorem mem_newSet (program other : String) (state : Option ProgramEnableState) (value : Finset String) :
    other ∈ ProgramDiscovery.newSet program state value ↔
      if other = program then ∃ s ∈ state, s.enabled else other ∈ value := by
  rcases state with _ | ⟨_ | _, _⟩ <;> by_cases h : other = program <;>
    simp [ProgramDiscovery.newSet, h]

/-- What one report does to an observer: only the ones it names are replaced. -/
theorem value_monitorTask (d : ProgramDiscovery) (program : String) (state : Option ProgramEnableState)
    (observer : Observer) :
    (d.monitorTask program state).value observer =
      if observer ∈ ProgramDiscovery.observers state
      then ProgramDiscovery.newSet program state (d.value observer) else d.value observer := by
  cases state with
  | none =>
    simp only [ProgramDiscovery.monitorTask, ProgramDiscovery.observers, List.foldl_cons,
      List.foldl_nil, ProgramDiscovery.notify, List.mem_singleton]
    split <;> simp_all
  | some s =>
    cases observer with
    | enabledPrograms =>
      simp [ProgramDiscovery.monitorTask, ProgramDiscovery.observers, ProgramDiscovery.notify]
    | controller name =>
      by_cases hc : name = s.controller <;>
        simp [ProgramDiscovery.monitorTask, ProgramDiscovery.observers, ProgramDiscovery.notify, hc]

theorem enabledPrograms_snoc (reports : List Report) (report : Report) (program : String) :
    program ∈ (processed (reports ++ [report])).enabledPrograms ↔
      if report.1 = program then ∃ s ∈ report.2, s.enabled
      else program ∈ (processed reports).enabledPrograms := by
  have touched : Observer.enabledPrograms ∈ ProgramDiscovery.observers report.2 := by
    cases report.2 <;> simp [ProgramDiscovery.observers]
  rw [processed_snoc, ProgramDiscovery.enabledPrograms, value_monitorTask, if_pos touched, mem_newSet]
  simp only [eq_comm, ProgramDiscovery.enabledPrograms]

/-- `enabled_programs` follows the latest report of each program. -/
theorem mem_enabledPrograms (reports : List Report) (program : String) :
    program ∈ (processed reports).enabledPrograms ↔
      ∃ state, latest reports program = some (some state) ∧ state.enabled := by
  induction reports using List.reverseRecOn with
  | nil => simp [processed, latest, ProgramDiscovery.enabledPrograms]
  | append_singleton reports report ih =>
    rw [enabledPrograms_snoc, latest_snoc]
    split
    · simp [Option.mem_def]
    · exact ih

/-- A controller's observer follows the last report that names the controller, whatever
the program has reported since. -/
theorem mem_controllerPrograms (reports : List Report) (program : String) (controller : Option String) :
    program ∈ (processed reports).value (.controller controller) ↔
      ∃ state ∈ lastNaming reports program controller, state.enabled := by
  induction reports using List.reverseRecOn with
  | nil => simp [processed, lastNaming]
  | append_singleton reports report ih =>
    obtain ⟨reporter, state⟩ := report
    rw [processed_snoc, value_monitorTask, lastNaming_snoc]
    by_cases hp : reporter = program
    · subst hp
      cases state with
      | none => simpa [ProgramDiscovery.observers] using ih
      | some s =>
        by_cases hc : s.controller = controller
        · simp [ProgramDiscovery.observers, hc, mem_newSet, Option.filter]
        · simpa [ProgramDiscovery.observers, hc, Ne.symm hc, Option.filter] using ih
    · rw [if_neg hp, ← ih]
      split
      · rw [mem_newSet, if_neg (Ne.symm hp)]
      · rfl

theorem lastNaming_of_latest {reports : List Report} {program : String} {state : ProgramEnableState}
    (h : latest reports program = some (some state)) :
    lastNaming reports program state.controller = some state := by
  induction reports using List.reverseRecOn with
  | nil => simp [latest] at h
  | append_singleton reports report ih =>
    rw [latest_snoc] at h
    rw [lastNaming_snoc]
    split at h
    · simp_all [Option.filter]
    · simp_all

theorem lastNaming_controller {reports : List Report} {program : String} {controller : Option String}
    {state : ProgramEnableState} (h : lastNaming reports program controller = some state) :
    state.controller = controller := by
  have hmem := List.mem_of_getLast? h
  obtain ⟨report, -, hr⟩ := List.mem_filterMap.1 hmem
  split at hr
  · simpa using (Option.filter_eq_some_iff.1 hr).2
  · cases hr

/-- **Exact association.** Discovery lists every program where its latest report puts it
exactly when no program was last reported enabled with a controller and has since gone
offline or been reported with another one. -/
theorem associationExact_iff (reports : List Report) :
    AssociationExact reports ↔
      ∀ program controller state, lastNaming reports program (some controller) = some state →
        state.enabled → latest reports program = some (some state) := by
  constructor
  · intro exact program controller state named enabled
    have listed := (mem_controllerPrograms reports program (some controller)).2 ⟨state, named, enabled⟩
    obtain ⟨current, hl, -, hc⟩ := (exact.controllers program controller).1 listed
    have := lastNaming_of_latest hl
    rw [hc, named] at this
    rw [hl, Option.some.inj this]
  · intro kept
    have controllers : ∀ program controller,
        program ∈ (processed reports).controllerPrograms controller ↔ Targets reports program controller := by
      intro program controller
      rw [ProgramDiscovery.controllerPrograms, mem_controllerPrograms]
      constructor
      · rintro ⟨state, named, enabled⟩
        exact ⟨state, kept _ _ _ named enabled, enabled, lastNaming_controller named⟩
      · rintro ⟨state, hl, enabled, hc⟩
        exact ⟨state, hc ▸ lastNaming_of_latest hl, enabled⟩
    refine ⟨controllers, mem_enabledPrograms reports, fun program a b ha hb => ?_⟩
    obtain ⟨s, hs, -, ca⟩ := (controllers program a).1 ha
    obtain ⟨t, ht, -, cb⟩ := (controllers program b).1 hb
    rw [hs] at ht
    simp_all

/-- A program that moves from one controller to another stays listed under the first. -/
theorem not_associationExact_moved :
    ¬ AssociationExact [("p", some ⟨true, some "a"⟩), ("p", some ⟨true, some "b"⟩)] := by
  intro exact
  obtain ⟨state, latest, -, named⟩ := (exact.controllers "p" "a").1 (by decide)
  cases latest
  exact absurd named (by decide)

end SensorKit.Core
