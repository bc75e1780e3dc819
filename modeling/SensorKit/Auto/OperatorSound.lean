import SensorKit.Auto.AgentService
import SensorKit.Auto.Schedule

/-!
# What holds of the operator in every run

Each controller keeps its driver, and each driver its configuration and a sound schedule. A program is enabled for the
first of its candidates only, so applying a state never raises. The election has the configured graph.
-/

namespace SensorKit.Auto

open Lib Common SensorKit.Core

variable {lib : IntervalTrees ℤ} {S R : Type}

/-- What a controller's driver keeps of its configuration. -/
structure ControllerDriver.Sound (config : ControllerConfig lib) (driver : ControllerDriver lib) : Prop where
  configured : driver.config = config
  modes : driver.scheduler.modes = sortModes config.modes
  programs : driver.scheduler.programConfigs.keys = (ControllerDriver.create config).scheduler.programConfigs.keys
  schedule : driver.scheduler.Sound

/-- Who depends on whom. -/
def AgentConfig.graph (config : AgentConfig lib) : Dict String (List String) :=
  .ofList (config.controllers.map fun config => (config.name, config.dependsOn))

/-- A program is enabled for its first candidate only. -/
def ProgramStateManager.Sound (manager : ProgramStateManager) : Prop :=
  ∀ program target, manager.desiredEnable.get? program = some target →
    ∃ rest, manager.controller.get? program = some (target :: rest)

structure VirtualOperator.Sound (config : AgentConfig lib) (operator : VirtualOperator lib) : Prop where
  election : ∃ ballots, operator.election = StateElection.cast config.graph ballots
  present : ∀ name, (∃ driver, operator.drivers.get? name = some driver) ↔ name ∈ AgentService.configs config
  drivers : ∀ name driver, operator.drivers.get? name = some driver →
    ∃ c ∈ config.controllers, c.name = name ∧ driver.Sound c
  programs : operator.programs.Sound

theorem ControllerLifecycle.setDemandState_eq_ok {lifecycle lifecycle' : ControllerLifecycle}
    {state : InternalControllerState} {contexts : TaskContextMap} {program : Option String}
    {interrupt programInterrupt changed : Bool}
    (h : lifecycle.setDemandState state contexts program interrupt programInterrupt = .ok (changed, lifecycle')) :
    lifecycle' = { lifecycle with demand := ⟨some state, some contexts, program, interrupt, programInterrupt⟩ } := by
  unfold setDemandState at h
  split_ifs at h
  exact (Prod.mk.inj (Except.ok.inj h)).2.symm

/-! ## Drivers -/

namespace ControllerDriver

variable {config : ControllerConfig lib} {driver driver' : ControllerDriver lib} {programs : ProgramStateManager}
  {clock : TurnClock} {election election' : StateElection String}

theorem mem_programs {program : String} :
    program ∈ (create config).scheduler.programConfigs.keys ↔ program ∈ config.programs := by
  unfold create Scheduler.create
  rw [Dict.mem_keys_ofList]
  simp only [List.map_map, ControllerConfig.programs]
  rfl

theorem create_sound (lawful : lib.Lawful) : (create config).Sound config := by
  refine ⟨rfl, rfl, rfl, lawful.disjoint_empty, fun t intent held => ?_⟩
  exact absurd held lawful.not_holds_empty

/-- What a schedule keeps of the one before. -/
def Updates (before after : Scheduler lib) : Prop :=
  after.modes = before.modes ∧ after.programConfigs = before.programConfigs ∧ (before.Sound → after.Sound)

theorem updates_updateSchedule (lawful : lib.Lawful) {scheduler : Scheduler lib}
    (h : driver.updateSchedule programs clock = .ok scheduler) : Updates driver.scheduler scheduler := by
  unfold updateSchedule at h
  refine foldlM_invariant (Updates driver.scheduler) h ⟨rfl, rfl, id⟩ ?_
  intro s s' now _ before turn
  obtain ⟨modes, configs, -⟩ := before
  rw [mapError_eq_ok] at turn
  obtain ⟨modes', configs'⟩ := update_keeps turn
  exact ⟨modes'.trans modes, configs'.trans configs, fun _ => update_sound lawful turn⟩

/-- An evaluation changes the schedule, and casts two votes. -/
theorem evaluateState_eq_ok (h : driver.evaluateState programs clock election = .ok (driver', election')) :
    ∃ scheduler, driver.updateSchedule programs clock = .ok scheduler ∧ driver' = { driver with scheduler } ∧
      ∃ up down, election' = (election.vote (some "schedule") driver.config.name up).vote (some "constraint")
        driver.config.name down := by
  unfold evaluateState at h
  simp only [bind_eq_ok, pure_eq_ok] at h
  obtain ⟨scheduler, updates, intent, -, eq⟩ := h
  cases eq
  exact ⟨scheduler, updates, rfl, _, _, rfl⟩

/-- Setting demand changes the lifecycle's demand only. -/
theorem setDemand_eq_ok {operate changed : Bool} {now : ℤ} (h : driver.setDemand operate now = .ok (changed, driver')) :
    ∃ demand, driver' = { driver with lifecycle := { driver.lifecycle with demand } } := by
  unfold setDemand at h
  simp only [bind_eq_ok, pure_eq_ok] at h
  obtain ⟨_, -, _, -, ⟨_, lifecycle⟩, sets, eq⟩ := h
  cases eq
  rw [ControllerLifecycle.setDemandState_eq_ok sets]
  exact ⟨_, rfl⟩

theorem Sound.evaluated (lawful : lib.Lawful) (h : driver.Sound config)
    (evaluates : driver.evaluateState programs clock election = .ok (driver', election')) : driver'.Sound config := by
  obtain ⟨scheduler, updates, rfl, -⟩ := evaluateState_eq_ok evaluates
  obtain ⟨modes, configs, sound⟩ := updates_updateSchedule lawful updates
  refine ⟨h.configured, modes.trans h.modes, ?_, sound h.schedule⟩
  exact (congrArg Dict.keys configs).trans h.programs

theorem Sound.demanded {operate changed : Bool} {now : ℤ} (h : driver.Sound config)
    (sets : driver.setDemand operate now = .ok (changed, driver')) : driver'.Sound config := by
  obtain ⟨demand, rfl⟩ := setDemand_eq_ok sets
  exact ⟨h.configured, h.modes, h.programs, h.schedule⟩

end ControllerDriver

/-! ## The operator -/

namespace VirtualOperator

variable {config : AgentConfig lib} {operator operator' : VirtualOperator lib} {name : String}
  {driver : ControllerDriver lib}

/-- A controller's driver may be replaced by one that is as sound. -/
theorem Sound.insert (h : operator.Sound config) (found : operator.drivers.get? name = some driver)
    (driver' : ControllerDriver lib) (kept : ∀ c, driver.Sound c → driver'.Sound c) :
    ({ operator with drivers := operator.drivers.insert name driver' } : VirtualOperator lib).Sound config := by
  refine ⟨h.election, fun other => ?_, fun other driver'' found' => ?_, h.programs⟩
  · rw [← h.present, Dict.get?_insert]
    split_ifs with same
    · subst same
      exact ⟨fun _ => ⟨driver, found⟩, fun _ => ⟨driver', rfl⟩⟩
    · rfl
  · rw [Dict.get?_insert] at found'
    split_ifs at found' with same
    · subst same
      cases found'
      obtain ⟨c, mem, named, sound⟩ := h.drivers other driver found
      exact ⟨c, mem, named, kept c sound⟩
    · exact h.drivers other driver'' found'

theorem Sound.vote (h : operator.Sound config) (source : Option String) (subject : String) (vote : Option Bool) :
    ({ operator with election := operator.election.vote source subject vote } : VirtualOperator lib).Sound config := by
  obtain ⟨ballots, cast⟩ := h.election
  refine ⟨⟨ballots ++ [⟨source, subject, vote⟩], ?_⟩, h.present, h.drivers, h.programs⟩
  rw [cast]
  unfold StateElection.cast
  rw [List.foldl_append]
  rfl

/-! ### A turn of the loop -/

theorem Sound.evaluateDriver (lawful : lib.Lawful) {clock : String → TurnClock} (h : operator.Sound config)
    (evaluates : operator.evaluateDriver clock name = .ok operator') : operator'.Sound config := by
  unfold VirtualOperator.evaluateDriver at evaluates
  cases found : operator.drivers.get? name with
  | none =>
    rw [found] at evaluates
    exact Except.ok.inj evaluates ▸ h
  | some driver =>
    rw [found] at evaluates
    simp only [bind_eq_ok, pure_eq_ok] at evaluates
    obtain ⟨⟨driver', election⟩, state, rfl⟩ := evaluates
    have inserted := h.insert found driver' fun c sound => sound.evaluated lawful state
    obtain ⟨-, -, -, up, down, rfl⟩ := ControllerDriver.evaluateState_eq_ok state
    exact (inserted.vote _ _ up).vote _ _ down

theorem Sound.demandDriver {clock : String → TurnClock} {demanded : String × Bool} (h : operator.Sound config)
    (demands : operator.demandDriver clock demanded = .ok operator') : operator'.Sound config := by
  unfold VirtualOperator.demandDriver at demands
  cases found : operator.drivers.get? demanded.1 with
  | none =>
    rw [found] at demands
    exact Except.ok.inj demands ▸ h
  | some driver =>
    rw [found] at demands
    simp only [bind_eq_ok, pure_eq_ok] at demands
    obtain ⟨⟨changed, driver'⟩, state, rfl⟩ := demands
    exact h.insert found driver' fun c sound => sound.demanded state

theorem Sound.stopped (h : operator.Sound config) (running : Bool) :
    ({ operator with running } : VirtualOperator lib).Sound config :=
  ⟨h.election, h.present, h.drivers, h.programs⟩

/-- What evaluations, demands and the end of the loop keep, a turn keeps. -/
theorem turn_invariant {I : VirtualOperator lib → Prop} {clock : String → TurnClock} (h : I operator)
    (evaluated : ∀ before after name, I before → before.evaluateDriver clock name = .ok after → I after)
    (demanded : ∀ before after demand, I before → before.demandDriver clock demand = .ok after → I after)
    (stopped : ∀ before, I before → I { before with running := false }) (limit : ℕ) : I (operator.turn limit clock) := by
  have voted : I (forEach (fun (operator : VirtualOperator lib) name => operator.evaluateDriver clock name)
      operator.drivers.keys operator).1 :=
    forEach_invariant I h fun before after name _ => evaluated before after name
  unfold VirtualOperator.turn
  split
  · rename_i operator₁ error eq
    rw [eq] at voted
    exact stopped operator₁ voted
  · rename_i operator₁ eq
    rw [eq] at voted
    split
    · exact stopped operator₁ voted
    · rename_i demand election
      have set : I (forEach (fun (operator : VirtualOperator lib) demanded => operator.demandDriver clock demanded)
          (operator₁.defaultDemand demand).entries operator₁).1 :=
        forEach_invariant I voted fun before after demand _ => demanded before after demand
      split
      · rename_i operator₂ error eq
        rw [eq] at set
        exact stopped operator₂ set
      · rename_i operator₂ eq
        rw [eq] at set
        exact set

theorem Sound.turn (lawful : lib.Lawful) (h : operator.Sound config) (limit : ℕ) (clock : String → TurnClock) :
    (operator.turn limit clock).Sound config := by
  apply turn_invariant h
  · intro before after name sound evaluates
    exact sound.evaluateDriver lawful evaluates
  · intro before after demand sound demands
    exact sound.demandDriver demands
  · intro before sound
    exact sound.stopped false

/-! ### The other steps -/

theorem changeDriver_eq_some {change : ControllerDriver lib → Option (ControllerDriver lib)}
    (h : operator.changeDriver name change = some operator') : ∃ driver driver',
      operator.drivers.get? name = some driver ∧ change driver = some driver' ∧
        operator' = { operator with drivers := operator.drivers.insert name driver' } := by
  unfold changeDriver at h
  obtain ⟨driver, found, changed⟩ := Option.bind_eq_some_iff.1 h
  obtain ⟨driver', changes, rfl⟩ := Option.map_eq_some_iff.1 changed
  exact ⟨driver, driver', found, changes, rfl⟩

section

variable (h : operator.Sound config)
include h

theorem Sound.changeDriver {change : ControllerDriver lib → Option (ControllerDriver lib)}
    (changes : operator.changeDriver name change = some operator')
    (kept : ∀ driver driver', change driver = some driver' →
      driver'.config = driver.config ∧ driver'.scheduler = driver.scheduler) : operator'.Sound config := by
  obtain ⟨driver, driver', found, changed, rfl⟩ := changeDriver_eq_some changes
  obtain ⟨configured, scheduler⟩ := kept driver driver' changed
  apply h.insert found driver'
  intro c sound
  exact ⟨configured.trans sound.configured, scheduler ▸ sound.modes, scheduler ▸ sound.programs, scheduler ▸ sound.schedule⟩

theorem Sound.changeOffers {change : ControllerOffers → Option ControllerOffers}
    (changes : operator.changeOffers name change = some operator') : operator'.Sound config := by
  apply h.changeDriver changes
  intro driver driver' changed
  obtain ⟨offers, -, rfl⟩ := Option.map_eq_some_iff.1 changed
  exact ⟨rfl, rfl⟩

theorem Sound.changeLifecycle {change : ControllerLifecycle → Option ControllerLifecycle}
    (changes : operator.changeLifecycle name change = some operator') : operator'.Sound config := by
  apply h.changeDriver changes
  intro driver driver' changed
  obtain ⟨lifecycle, -, rfl⟩ := Option.map_eq_some_iff.1 changed
  exact ⟨rfl, rfl⟩

theorem Sound.report (program : String) (state : Option ProgramEnableState) :
    (operator.report program state).Sound config := by
  unfold VirtualOperator.report
  refine ⟨h.election, fun name => ?_, fun name driver found => ?_, h.programs⟩
  · rw [← h.present, Dict.get?_mapValues]
    simp
  · rw [Dict.get?_mapValues] at found
    obtain ⟨driver', found', rfl⟩ := Option.map_eq_some_iff.1 found
    obtain ⟨c, mem, named, sound⟩ := h.drivers name driver' found'
    refine ⟨c, mem, named, ?_⟩
    split_ifs
    · exact ⟨sound.configured, sound.modes, sound.programs, sound.schedule⟩
    · exact sound

end

theorem Sound.step (lawful : lib.Lawful) {limit : ℕ} {label : OperatorLabel} (h : operator.Sound config)
    (steps : operator.step limit label = some operator') : operator'.Sound config := by
  unfold VirtualOperator.step at steps
  cases label with
  | report program state => exact Option.some.inj steps ▸ h.report program state
  | watch controller => exact h.changeOffers steps
  | discover controller => exact h.changeOffers steps
  | begin controller program => exact h.changeOffers steps
  | offering controller program windows => exact h.changeOffers steps
  | finish controller program => exact h.changeOffers steps
  | constrain controller active =>
    apply h.changeDriver steps
    intro driver driver' changed
    cases changed
    exact ⟨rfl, rfl⟩
  | turn clock =>
    dsimp only at steps
    split_ifs at steps
    exact Option.some.inj steps ▸ h.turn lawful limit clock
  | session controller => exact h.changeLifecycle steps
  | ended controller => exact h.changeLifecycle steps
  | emergency controller => exact h.changeLifecycle steps

/-! ### The first operator -/

theorem create_programs (assigned : List (String × String)) (manager : ProgramStateManager) :
    (assigned.foldl (fun manager assigned => manager.assignController assigned.1 assigned.2) manager).desiredEnable =
      manager.desiredEnable := by
  induction assigned generalizing manager with
  | nil => rfl
  | cons assigned rest ih =>
    rw [List.foldl_cons, ih]
    rfl

theorem create_present (config : AgentConfig lib) (name : String) :
    (∃ driver, (VirtualOperator.create config.controllers).drivers.get? name = some driver) ↔
      name ∈ AgentService.configs config := by
  rw [← Dict.mem_keys]
  unfold VirtualOperator.create
  rw [Dict.mem_keys_ofList, List.map_map]
  rfl

/-- The driver of a configured controller is a new one. -/
theorem create_driver {config : AgentConfig lib}
    (found : (VirtualOperator.create config.controllers).drivers.get? name = some driver) :
    ∃ c ∈ config.controllers, c.name = name ∧ driver = .create c := by
  obtain ⟨c, mem, rfl⟩ := List.mem_map.1 ((create_present config name).1 ⟨driver, found⟩)
  have nodup : ((config.controllers.map fun c => (c.name, ControllerDriver.create c)).map Prod.fst).Nodup := by
    rw [List.map_map]
    exact config.nodup
  have own := Dict.get?_ofList nodup (List.mem_map.2 ⟨c, mem, rfl⟩)
  exact ⟨c, mem, rfl, Option.some.inj (found.symm.trans own)⟩

theorem create_sound (lawful : lib.Lawful) (config : AgentConfig lib) :
    (VirtualOperator.create config.controllers).Sound config := by
  refine ⟨⟨[], rfl⟩, create_present config, fun name driver found => ?_, fun program target found => ?_⟩
  · obtain ⟨c, mem, named, rfl⟩ := create_driver found
    exact ⟨c, mem, named, ControllerDriver.create_sound lawful⟩
  · unfold VirtualOperator.create at found
    rw [create_programs] at found
    simp at found

end VirtualOperator

/-! ## Applying a state -/

section Apply

variable {config : AgentConfig lib} {operator : VirtualOperator lib} {state : AgentState S R}

/-- The exclusions never find a program enabled for another controller. -/
theorem applyProgram_returns {manager : ProgramStateManager} (h : manager.Sound) (program : String) :
    ∃ manager', state.applyProgram manager program = .ok manager' ∧ manager'.Sound := by
  unfold AgentState.applyProgram
  split_ifs
  · refine ⟨_, rfl, fun other target found => ?_⟩
    unfold ProgramStateManager.disable at found
    rw [Dict.get?_erase] at found
    split_ifs at found
    exact h other target found
  · unfold ProgramStateManager.enable
    cases candidates : manager.controller.get? program with
    | none => exact ⟨manager, rfl, h⟩
    | some candidates_ =>
      cases candidates_ with
      | nil => exact ⟨manager, rfl, h⟩
      | cons target rest =>
        rw [Option.getD_some]
        dsimp only
        cases enabled : manager.desiredEnable.get? program with
        | none =>
          refine ⟨_, rfl, fun other target' found => ?_⟩
          dsimp only at found ⊢
          rw [Dict.get?_insert] at found
          split_ifs at found with same
          · cases found
            exact ⟨rest, same ▸ candidates⟩
          · exact h other target' found
        | some current =>
          obtain ⟨rest', first⟩ := h program current enabled
          obtain ⟨rfl, rfl⟩ := List.cons.inj (Option.some.inj (candidates.symm.trans first))
          exact ⟨manager, by simp, h⟩

theorem applyController_returns (h : operator.Sound config) {controller : String}
    (mem : controller ∈ AgentService.configs config) :
    ∃ operator', state.applyController operator controller = .ok operator' ∧ operator'.Sound config := by
  obtain ⟨driver, found⟩ := (h.present controller).2 mem
  unfold AgentState.applyController
  rw [found]
  refine ⟨_, rfl, ?_⟩
  have inserted := h.insert found { driver with
      lifecycle :=
        if state.operatingState.gate controller then driver.lifecycle.enable else driver.lifecycle.disable }
    fun c sound => ⟨sound.configured, sound.modes, sound.programs, sound.schedule⟩
  cases state.operatingState.controllers.lookup controller with
  | none => exact inserted
  | some info => exact inserted.vote _ _ _

/-- The programs' enable states are applied first, and the gates after them. -/
theorem applyToOperator_eq (state : AgentState S R) (h : operator.programs.Sound) (configs : List String) :
    ∃ programs : ProgramStateManager, programs.Sound ∧
      state.applyToOperator configs operator = forEach state.applyController configs { operator with programs } := by
  have gated : (operator.programs.setGlobal state.schedulerState.schedulingEnabled).Sound := h
  obtain ⟨returns, sound⟩ := forEach_returns (f := state.applyProgram) ProgramStateManager.Sound gated
    fun manager program (_ : program ∈ operator.programs.allPrograms) before => applyProgram_returns before program
  unfold AgentState.applyToOperator
  split
  · rename_i programs raised eq
    rw [eq] at returns
    cases returns
  · rename_i programs eq
    rw [eq] at sound
    exact ⟨programs, sound, rfl⟩

/-- **Applying a state never raises.** -/
theorem applyToOperator_returns (h : operator.Sound config) :
    (state.applyToOperator (AgentService.configs config) operator).2 = none ∧
      (state.applyToOperator (AgentService.configs config) operator).1.Sound config := by
  obtain ⟨programs, sound, eq⟩ := applyToOperator_eq state h.programs (AgentService.configs config)
  rw [eq]
  exact forEach_returns (VirtualOperator.Sound config) ⟨h.election, h.present, h.drivers, sound⟩
    fun operator controller mem before => applyController_returns before mem

end Apply

/-! ## Runs of the service -/

namespace AgentService

variable {config : AgentConfig lib} {s t : AgentService lib S R} {limit : ℕ} {label : ServiceLabel S R}

/-- What a step does to the operator. -/
theorem step_cases (h : step config limit s label = some t) :
    (∃ request, s.finishing label = some request ∧
      t.operator = (s.agent.held.applyToOperator (configs config) s.operator).1) ∨
    s.finishing label = none ∧ ((∃ agentLabel, label = .agent agentLabel ∧ t.operator = s.operator) ∨
      ∃ operatorLabel, label = .operator operatorLabel ∧ s.operator.step limit operatorLabel = some t.operator) := by
  cases label with
  | agent agentLabel =>
    unfold step at h
    obtain ⟨agent, -, eq⟩ := Option.map_eq_some_iff.1 h
    cases finishes : s.finishing (.agent agentLabel) with
    | none =>
      rw [finishes] at eq
      subst eq
      exact .inr ⟨rfl, .inl ⟨agentLabel, rfl, rfl⟩⟩
    | some request =>
      rw [finishes] at eq
      subst eq
      exact .inl ⟨request, rfl, rfl⟩
  | operator operatorLabel =>
    unfold step at h
    obtain ⟨operator, steps, rfl⟩ := Option.map_eq_some_iff.1 h
    exact .inr ⟨rfl, .inr ⟨operatorLabel, rfl, steps⟩⟩

theorem sound_started (lawful : lib.Lawful) (recovered : AgentState S R) :
    (started config recovered).operator.Sound config :=
  (applyToOperator_returns (VirtualOperator.create_sound lawful config)).2

theorem sound_step (lawful : lib.Lawful) (h : s.operator.Sound config) (steps : step config limit s label = some t) :
    t.operator.Sound config := by
  rcases step_cases steps with ⟨request, -, applied⟩ | ⟨-, ⟨-, -, same⟩ | ⟨operatorLabel, -, moves⟩⟩
  · rw [applied]
    exact (applyToOperator_returns h).2
  · rwa [same]
  · exact h.step lawful moves

/-- **The operator is sound in every run.** -/
theorem sound_of_run (lawful : lib.Lawful) {recovered : AgentState S R} {ok : AgentService lib S R → ServiceLabel S R → Prop}
    (run : Reaches (step config limit) ok (started config recovered) s) : s.operator.Sound config :=
  run.invariant (sound_started lawful recovered) fun _ _ _ before _ steps => sound_step lawful before steps

end AgentService

end SensorKit.Auto
