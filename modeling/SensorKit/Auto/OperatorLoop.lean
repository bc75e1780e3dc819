import SensorKit.Auto.OperatorSound

/-!
# What the operator's loop survives

Evaluating a controller's state raises exactly where an enabled program among its offers is not one of its own: the
scheduler looks every such program up in its own configuration. Discovery lists a program under whatever controller it
reports, and a program is enabled for whatever controller is configured for it, so the two need not agree. Where they
do at every turn, the loop goes on; and they do as long as no program reports a controller that it is not configured for.
-/

namespace SensorKit.Auto

open Lib Common SensorKit.Core

variable {lib : IntervalTrees ℤ} {S R : Type}

/-! ## One controller -/

namespace ControllerDriver

/-- Neither evaluating the controller's state nor setting its demand raises, then or after that evaluation. -/
structure Survives (driver : ControllerDriver lib) (programs : ProgramStateManager) (election : StateElection String) :
    Prop where
  evaluates : ∀ clock, ∃ driver' election', driver.evaluateState programs clock election = .ok (driver', election') ∧
    ∀ operate now, ∃ r, driver'.setDemand operate now = .ok r
  demands : ∀ operate now, ∃ r, driver.setDemand operate now = .ok r

/-- Every enabled program among the controller's offers is one of its own. -/
def OwnOffers (driver : ControllerDriver lib) (programs : ProgramStateManager) : Prop :=
  ∀ program ∈ driver.offers.offers.keys, program ∈ programs.enabledPrograms → program ∈ driver.config.programs

variable {config : ControllerConfig lib} {driver : ControllerDriver lib} {programs : ProgramStateManager}
  {clock : TurnClock} {election : StateElection String}

theorem Sound.mem_programs (h : driver.Sound config) {program : String} :
    program ∈ driver.scheduler.programConfigs.keys ↔ program ∈ driver.config.programs := by
  rw [h.programs, h.configured, ControllerDriver.mem_programs]

/-- The schedule's updates return if and only if the enabled programs that offer are the controller's own. -/
theorem Sound.updateSchedule_returns (h : driver.Sound config) (programs : ProgramStateManager) (clock : TurnClock) :
    (∃ scheduler, driver.updateSchedule programs clock = .ok scheduler) ↔ driver.OwnOffers programs := by
  have own : driver.OwnOffers programs ↔ ∀ item ∈ driver.offers.offers.entries,
      item.1 ∈ programs.enabledPrograms → item.1 ∈ driver.scheduler.programConfigs.keys := by
    unfold OwnOffers Dict.keys
    simp only [List.forall_mem_map, ← h.mem_programs]
    rfl
  rw [own]
  unfold updateSchedule
  simp only [List.foldlM_cons, List.foldlM_nil, bind_eq_ok, mapError_eq_ok]
  constructor
  · rintro ⟨_, first, updates, -⟩
    exact (update_returns _ _ _).1 ⟨first, updates⟩
  · intro configured
    obtain ⟨first, updates⟩ := (update_returns driver.offers.offers programs.enabledPrograms clock.first).2 configured
    obtain ⟨second, updates'⟩ := (update_returns driver.offers.offers programs.enabledPrograms clock.second).2
      (by rwa [(update_keeps updates).2])
    exact ⟨second, first, updates, second, updates', rfl⟩

theorem lookahead_returns (lawful : lib.Lawful) (driver : ControllerDriver lib) {scheduler : Scheduler lib}
    (sound : scheduler.Sound) (now : ℤ) :
    ∃ intent, driver.lookahead scheduler now = .ok intent := by
  have returns (t : ℤ) := (getIntent_exact lawful sound.1 t).1
  unfold lookahead
  obtain ⟨intent, here⟩ := returns now
  simp only [bind_eq_ok, mapError_eq_ok]
  cases intent with
  | some intent => exact ⟨some intent, some intent, here, rfl⟩
  | none =>
    by_cases early : driver.config.estimatedStartupTime ≠ 0
    · obtain ⟨later, there⟩ := returns (now + driver.config.estimatedStartupTime)
      refine ⟨later, none, here, ?_⟩
      rw [if_pos early, mapError_eq_ok]
      exact there
    · refine ⟨none, none, here, ?_⟩
      rw [if_neg early]
      rfl

theorem Sound.evaluateState_returns (lawful : lib.Lawful) (h : driver.Sound config) (programs : ProgramStateManager)
    (clock : TurnClock) (election : StateElection String) :
    (∃ r, driver.evaluateState programs clock election = .ok r) ↔ driver.OwnOffers programs := by
  rw [← h.updateSchedule_returns programs clock]
  constructor
  · rintro ⟨⟨driver', election'⟩, evaluates⟩
    obtain ⟨scheduler, updates, -⟩ := evaluateState_eq_ok evaluates
    exact ⟨scheduler, updates⟩
  · rintro ⟨scheduler, updates⟩
    have sound := (updates_updateSchedule lawful updates).2.2 h.schedule
    obtain ⟨intent, looks⟩ := lookahead_returns lawful driver sound clock.now
    unfold evaluateState
    simp only [bind_eq_ok, pure_eq_ok]
    exact ⟨_, scheduler, updates, intent, looks, rfl⟩

/-- The state that is demanded has a procedure, and the program is one of the controller's. -/
theorem Sound.target_returns (lawful : lib.Lawful) (h : driver.Sound config) (operate : Bool) (now : ℤ) :
    ∃ state program, driver.target operate now = .ok (state, program) ∧ state ∈ ControllerLifecycle.procedures ∧
      ∀ p ∈ program, p ∈ driver.config.programs := by
  unfold target
  cases operate with
  | false => exact ⟨.shutdown, none, rfl, by decide, by simp⟩
  | true =>
    obtain ⟨⟨intent, here⟩, held⟩ := getIntent_exact lawful h.schedule.1 now
    rw [if_pos rfl, here]
    cases intent with
    | none => exact ⟨.operate, none, rfl, by decide, by simp⟩
    | some intent =>
      obtain ⟨listed, own⟩ := h.schedule.2 now intent ((held intent).1 here)
      obtain ⟨mode, named⟩ : ∃ mode, driver.config.mode intent.mode = .ok mode := by
        have there : intent.mode ∈ (Dict.ofList (driver.config.modes.map fun mode => (mode.name, mode))).keys := by
          rw [Dict.mem_keys_ofList, List.map_map, h.configured]
          rw [h.modes] at listed
          obtain ⟨mode, mem, eq⟩ := List.mem_map.1 listed
          exact List.mem_map.2 ⟨mode, mem_sortModes.1 mem, eq⟩
        obtain ⟨mode, found⟩ := Dict.mem_keys.1 there
        refine ⟨mode, ?_⟩
        unfold ControllerConfig.mode
        rw [found]
      cases state : mode.state with
      | standby =>
        refine ⟨.standby, none, bind_eq_ok.2 ⟨some intent, rfl, bind_eq_ok.2 ⟨mode, named, ?_⟩⟩, by decide, by simp⟩
        rw [state]
        rfl
      | operate =>
        refine ⟨.operate, intent.programs.head?, bind_eq_ok.2 ⟨some intent, rfl, bind_eq_ok.2 ⟨mode, named, ?_⟩⟩,
          by decide, ?_⟩
        · rw [state]
          rfl
        · intro p first
          exact h.mem_programs.1 (own p (List.mem_of_mem_head? first))

theorem demandContexts_returns {program : Option String} (own : ∀ p ∈ program, p ∈ driver.config.programs) :
    ∃ r, driver.demandContexts program = .ok r := by
  have found (key : Option String) (mem : key = none ∨ ∃ p ∈ driver.config.programs, key = some p) :
      ∃ contexts, driver.config.contextMap key = .ok contexts := by
    have there : key ∈ driver.config.contextMaps.keys := by
      unfold ControllerConfig.contextMaps
      rw [Dict.mem_keys_ofList, List.map_cons, List.mem_cons, List.map_map]
      rcases mem with rfl | ⟨p, mem, rfl⟩
      · exact .inl rfl
      · obtain ⟨tasking, listed, rfl⟩ := List.mem_map.1 mem
        exact .inr (List.mem_map.2 ⟨tasking, listed, rfl⟩)
    obtain ⟨contexts, found⟩ := Dict.mem_keys.1 there
    refine ⟨contexts, ?_⟩
    unfold ControllerConfig.contextMap
    rw [found]
  unfold demandContexts
  obtain ⟨contexts, general⟩ := found none (.inl rfl)
  cases program with
  | none => exact ⟨(contexts, false), bind_eq_ok.2 ⟨contexts, general, rfl⟩⟩
  | some program =>
    have mem := own program rfl
    obtain ⟨contexts', special⟩ := found (some program) (.inr ⟨program, mem, rfl⟩)
    obtain ⟨tasking, configured⟩ : ∃ tasking, driver.config.programConfig program = .ok tasking := by
      have there : program ∈ (Dict.ofList (driver.config.tasking.map fun tasking => (tasking.program, tasking))).keys := by
        rw [Dict.mem_keys_ofList, List.map_map]
        exact mem
      obtain ⟨tasking, found⟩ := Dict.mem_keys.1 there
      refine ⟨tasking, ?_⟩
      unfold ControllerConfig.programConfig
      rw [found]
    simp only [bind_eq_ok, pure_eq_ok]
    exact ⟨_, contexts, general, tasking, configured, contexts', special, rfl⟩

/-- Setting demand never raises. -/
theorem Sound.setDemand_returns (lawful : lib.Lawful) (h : driver.Sound config) (operate : Bool) (now : ℤ) :
    ∃ r, driver.setDemand operate now = .ok r := by
  obtain ⟨state, program, targets, proper, own⟩ := h.target_returns lawful operate now
  unfold setDemand
  simp only [bind_eq_ok, pure_eq_ok]
  obtain ⟨contexts, builds⟩ : ∃ r, driver.demandContexts (if driver.constrained then none else program) = .ok r := by
    apply demandContexts_returns
    split_ifs
    · simp
    · exact own
  have proper' : (if driver.constrained then .shutdown else state) ∈ ControllerLifecycle.procedures := by
    split_ifs
    · decide
    · exact proper
  obtain ⟨r, sets⟩ : ∃ r, driver.lifecycle.setDemandState (if driver.constrained then .shutdown else state) contexts.1
      (if driver.constrained then none else program) driver.constrained contexts.2 = .ok r := by
    unfold ControllerLifecycle.setDemandState
    rw [if_pos proper']
    exact ⟨_, rfl⟩
  exact ⟨_, (state, program), targets, contexts, builds, r, sets, rfl⟩

/-- **What a controller survives.** -/
theorem Sound.survives_iff (lawful : lib.Lawful) (h : driver.Sound config) :
    driver.Survives programs election ↔ driver.OwnOffers programs := by
  constructor
  · intro survives
    obtain ⟨driver', election', evaluates, -⟩ := survives.evaluates ⟨0, 0, 0, 0⟩
    exact (h.evaluateState_returns lawful programs _ election).1 ⟨_, evaluates⟩
  · intro own
    refine ⟨fun clock => ?_, h.setDemand_returns lawful⟩
    obtain ⟨⟨driver', election'⟩, evaluates⟩ := (h.evaluateState_returns lawful programs clock election).2 own
    exact ⟨driver', election', evaluates, (h.evaluated lawful evaluates).setDemand_returns lawful⟩

end ControllerDriver

/-! ## A turn of the loop -/

namespace VirtualOperator

/-- Every controller's enabled offers are its own. -/
def OwnOffers (operator : VirtualOperator lib) : Prop :=
  ∀ name driver, operator.drivers.get? name = some driver → driver.OwnOffers operator.programs

variable {config : AgentConfig lib} {operator : VirtualOperator lib}

/-- What the evaluations of a turn keep: the operator is sound and its offers are its controllers' own. -/
structure Evaluating (config : AgentConfig lib) (running : Bool) (operator : VirtualOperator lib) : Prop where
  sound : operator.Sound config
  own : operator.OwnOffers
  running : operator.running = running

theorem Evaluating.evaluateDriver (lawful : lib.Lawful) {running : Bool} (h : operator.Evaluating config running)
    (clock : String → TurnClock) (name : String) :
    ∃ operator', operator.evaluateDriver clock name = .ok operator' ∧ operator'.Evaluating config running := by
  cases found : operator.drivers.get? name with
  | none =>
    refine ⟨operator, ?_, h⟩
    unfold VirtualOperator.evaluateDriver
    rw [found]
  | some driver =>
    obtain ⟨c, -, -, sound⟩ := h.sound.drivers name driver found
    obtain ⟨⟨driver', election'⟩, evaluates⟩ :=
      (sound.evaluateState_returns lawful operator.programs (clock name) operator.election).2 (h.own name driver found)
    have returns : operator.evaluateDriver clock name =
        .ok { operator with drivers := operator.drivers.insert name driver', election := election' } := by
      unfold VirtualOperator.evaluateDriver
      rw [found]
      simp only [bind_eq_ok, pure_eq_ok]
      exact ⟨(driver', election'), evaluates, rfl⟩
    refine ⟨_, returns, h.sound.evaluateDriver lawful returns, fun other driver'' found' => ?_, h.running⟩
    dsimp only at found'
    rw [Dict.get?_insert] at found'
    split_ifs at found' with same
    · cases found'
      obtain ⟨scheduler, -, rfl, -⟩ := ControllerDriver.evaluateState_eq_ok evaluates
      exact h.own name driver found
    · exact h.own other driver'' found'

theorem Sound.demandDriver_returns (lawful : lib.Lawful) (h : operator.Sound config) (clock : String → TurnClock)
    (demanded : String × Bool) : ∃ operator', operator.demandDriver clock demanded = .ok operator' ∧
      operator'.Sound config ∧ operator'.running = operator.running := by
  cases found : operator.drivers.get? demanded.1 with
  | none =>
    refine ⟨operator, ?_, h, rfl⟩
    unfold VirtualOperator.demandDriver
    rw [found]
  | some driver =>
    obtain ⟨c, -, -, sound⟩ := h.drivers demanded.1 driver found
    obtain ⟨⟨changed, driver'⟩, sets⟩ := sound.setDemand_returns lawful demanded.2 (clock demanded.1).demand
    have returns : operator.demandDriver clock demanded =
        .ok { operator with drivers := operator.drivers.insert demanded.1 driver' } := by
      unfold VirtualOperator.demandDriver
      rw [found]
      simp only [bind_eq_ok, pure_eq_ok]
      exact ⟨(changed, driver'), sets, rfl⟩
    exact ⟨_, returns, h.demandDriver returns, rfl⟩

/-- **A turn goes through** where the enabled offers are the controllers' own. -/
theorem Sound.running_turn (lawful : lib.Lawful) (h : operator.Sound config) (own : operator.OwnOffers)
    (acyclic : AcyclicGraph config.graph) {limit : ℕ} (deep : config.graph.keys.length < limit)
    (clock : String → TurnClock) : (operator.turn limit clock).running = operator.running := by
  have evaluating : operator.Evaluating config operator.running := ⟨h, own, rfl⟩
  obtain ⟨returns, evaluated⟩ := forEach_returns (f := fun (operator : VirtualOperator lib) name =>
      operator.evaluateDriver clock name) (Evaluating config operator.running) evaluating
    fun turned name (_ : name ∈ operator.drivers.keys) before => before.evaluateDriver lawful clock name
  unfold VirtualOperator.turn
  split
  · rename_i evaluating raised eq
    rw [eq] at returns
    cases returns
  · rename_i voted eq
    rw [eq] at evaluated
    obtain ⟨ballots, cast⟩ := evaluated.sound.election
    obtain ⟨demand, evaluates, -⟩ := evaluate_decides acyclic ballots deep
    rw [cast, evaluates]
    obtain ⟨returns, -, running⟩ := forEach_returns (f := fun (operator : VirtualOperator lib) demanded =>
        operator.demandDriver clock demanded) (fun turned => turned.Sound config ∧ turned.running = operator.running)
      ⟨evaluated.sound, evaluated.running⟩ fun turned demanded (_ : demanded ∈ (voted.defaultDemand demand).entries)
        before => by
          obtain ⟨turned', returns, sound, same⟩ := before.1.demandDriver_returns lawful clock demanded
          exact ⟨turned', returns, sound, same.trans before.2⟩
    dsimp only
    split
    · rename_i demanding raised eq
      rw [eq] at returns
      cases returns
    · rename_i demanded eq
      rw [eq] at running
      exact running

/-- Only a turn can end the loop. -/
theorem running_step {limit : ℕ} {label : OperatorLabel} {operator' : VirtualOperator lib}
    (steps : operator.step limit label = some operator') (other : ∀ clock, label ≠ .turn clock) :
    operator'.running = operator.running := by
  have changes {name : String} {change : ControllerDriver lib → Option (ControllerDriver lib)}
      (changes : operator.changeDriver name change = some operator') : operator'.running = operator.running := by
    obtain ⟨_, _, -, -, rfl⟩ := changeDriver_eq_some changes
    rfl
  unfold VirtualOperator.step at steps
  cases label with
  | report program state => exact Option.some.inj steps ▸ rfl
  | turn clock => exact absurd rfl (other clock)
  | _ => exact changes steps

end VirtualOperator

/-! ## Programs that report their own controllers -/

/-- The program is one of some controller's. -/
def AgentConfig.Configures (config : AgentConfig lib) (program : String) : Prop :=
  ∃ c ∈ config.controllers, program ∈ c.programs

/-- The program is one of the controller's, or of none. -/
def AgentConfig.Owns (config : AgentConfig lib) (controller program : String) : Prop :=
  config.Configures program → ∃ c ∈ config.controllers, c.name = controller ∧ program ∈ c.programs

/-- Whatever an offers monitor has to do with is among the programs. -/
structure ControllerOffers.Among (P : String → Prop) (offers : ControllerOffers) : Prop where
  pending : ∀ programs ∈ offers.pending, ∀ program ∈ programs, P program
  monitors : ∀ program ∈ offers.monitors, P program
  starting : ∀ program ∈ offers.starting, P program
  keys : ∀ program ∈ offers.offers.keys, P program

structure ProgramStateManager.Configured (config : AgentConfig lib) (manager : ProgramStateManager) : Prop where
  all : ∀ program ∈ manager.allPrograms, config.Configures program
  enabled : ∀ program ∈ manager.desiredEnable.keys, config.Configures program

/-- Discovery lists configured programs under their own controllers only, and so do the offers. -/
structure VirtualOperator.Own (config : AgentConfig lib) (operator : VirtualOperator lib) : Prop where
  discovery : ∀ controller ∈ AgentService.configs config,
    ∀ program ∈ operator.discovery.controllerPrograms controller, config.Owns controller program
  offers : ∀ name driver, operator.drivers.get? name = some driver → driver.offers.Among (config.Owns name)
  programs : operator.programs.Configured config

namespace ControllerOffers.Among

variable {P : String → Prop} {offers offers' : ControllerOffers} {program : String}

section

variable (h : offers.Among P)
include h

theorem watch {value : Finset String} (among : ∀ program ∈ value, P program) : (offers.watch value).Among P := by
  refine ⟨fun programs mem => ?_, h.monitors, h.starting, h.keys⟩
  obtain rfl := List.mem_singleton.1 mem
  exact among

theorem notified {value : Finset String} (among : ∀ program ∈ value, P program) : (offers.notified value).Among P := by
  unfold ControllerOffers.notified
  split_ifs
  · refine ⟨fun programs mem => ?_, h.monitors, h.starting, h.keys⟩
    rcases mem_snoc.1 mem with mem | rfl
    · exact h.pending programs mem
    · exact among
  · exact h

theorem discover (discovers : offers.discover = some offers') : offers'.Among P := by
  unfold ControllerOffers.discover at discovers
  split at discovers
  · cases discovers
  · rename_i programs pending eq
    split_ifs at discovers
    cases discovers
    have next : ∀ program ∈ programs, P program := h.pending programs (by simp [eq])
    refine ⟨fun others mem => h.pending others (by simp [eq, mem]), next, fun program mem => ?_, h.keys⟩
    exact next program (Finset.mem_sdiff.1 mem).1

theorem insert (here : P program) (windows : OfferWindows) :
    ({ offers with offers := offers.offers.insert program windows } : ControllerOffers).Among P := by
  refine ⟨h.pending, h.monitors, h.starting, fun other mem => ?_⟩
  rcases Dict.mem_keys_insert.1 mem with rfl | mem
  · exact here
  · exact h.keys other mem

theorem begin (begins : offers.begin program = some offers') : offers'.Among P := by
  unfold ControllerOffers.begin at begins
  split_ifs at begins with listed
  cases begins
  obtain ⟨pending, monitors, starting, keys⟩ := h.insert (h.starting program listed) []
  exact ⟨pending, monitors, fun other mem => starting other (Finset.mem_of_mem_erase mem), keys⟩

theorem offering {windows : OfferWindows} (offered : offers.offering program windows = some offers') :
    offers'.Among P := by
  unfold ControllerOffers.offering at offered
  split_ifs at offered with listed
  cases offered
  exact h.insert (h.monitors program listed.1) _

theorem finish (finishes : offers.finish program = some offers') : offers'.Among P := by
  unfold ControllerOffers.finish at finishes
  split_ifs at finishes
  cases finishes
  exact ⟨h.pending, h.monitors, h.starting, fun other mem => h.keys other (Dict.mem_keys_erase.1 mem).2⟩

end

end ControllerOffers.Among

namespace VirtualOperator

variable {config : AgentConfig lib} {operator operator' : VirtualOperator lib} {name : String}
  {driver : ControllerDriver lib}

section

variable (h : operator.Own config)
include h

/-- Where discovery and the offers are right, every enabled offer is the controller's own. -/
theorem Own.ownOffers (sound : operator.Sound config) : operator.OwnOffers := by
  intro name driver found program offered enabled
  obtain ⟨c, mem, named, kept⟩ := sound.drivers name driver found
  have configured : config.Configures program := by
    apply h.programs.enabled
    unfold ProgramStateManager.enabledPrograms at enabled
    split_ifs at enabled
    · simpa using enabled
    · simp at enabled
  obtain ⟨c', mem', named', listed⟩ := (h.offers name driver found).keys program offered configured
  obtain rfl : c' = c := List.inj_on_of_nodup_map config.nodup mem' mem (named'.trans named.symm)
  rwa [kept.configured]

theorem Own.insert (driver' : ControllerDriver lib) (among : driver'.offers.Among (config.Owns name)) :
    ({ operator with drivers := operator.drivers.insert name driver' } : VirtualOperator lib).Own config := by
  refine ⟨h.discovery, fun other driver'' found => ?_, h.programs⟩
  rw [Dict.get?_insert] at found
  split_ifs at found with same
  · subst same
    cases found
    exact among
  · exact h.offers other driver'' found

theorem Own.stopped (running : Bool) : ({ operator with running } : VirtualOperator lib).Own config :=
  ⟨h.discovery, h.offers, h.programs⟩

theorem Own.evaluateDriver {clock : String → TurnClock}
    (evaluates : operator.evaluateDriver clock name = .ok operator') : operator'.Own config := by
  unfold VirtualOperator.evaluateDriver at evaluates
  cases found : operator.drivers.get? name with
  | none =>
    rw [found] at evaluates
    exact Except.ok.inj evaluates ▸ h
  | some driver =>
    rw [found] at evaluates
    simp only [bind_eq_ok, pure_eq_ok] at evaluates
    obtain ⟨⟨driver', election⟩, state, rfl⟩ := evaluates
    obtain ⟨scheduler, -, rfl, -⟩ := ControllerDriver.evaluateState_eq_ok state
    obtain ⟨discovery, offers, programs⟩ := h.insert { driver with scheduler } (h.offers name driver found)
    exact ⟨discovery, offers, programs⟩

theorem Own.demandDriver {clock : String → TurnClock} {demanded : String × Bool}
    (demands : operator.demandDriver clock demanded = .ok operator') : operator'.Own config := by
  unfold VirtualOperator.demandDriver at demands
  cases found : operator.drivers.get? demanded.1 with
  | none =>
    rw [found] at demands
    exact Except.ok.inj demands ▸ h
  | some driver =>
    rw [found] at demands
    simp only [bind_eq_ok, pure_eq_ok] at demands
    obtain ⟨⟨changed, driver'⟩, state, rfl⟩ := demands
    obtain ⟨demand, rfl⟩ := ControllerDriver.setDemand_eq_ok state
    exact h.insert _ (h.offers demanded.1 driver found)

theorem Own.turn (limit : ℕ) (clock : String → TurnClock) : (operator.turn limit clock).Own config := by
  apply turn_invariant h
  · intro before after name own evaluates
    exact own.evaluateDriver evaluates
  · intro before after demand own demands
    exact own.demandDriver demands
  · intro before own
    exact own.stopped false

theorem Own.changeDriver {change : ControllerDriver lib → Option (ControllerDriver lib)}
    (changes : operator.changeDriver name change = some operator')
    (kept : ∀ driver driver', driver.offers.Among (config.Owns name) → change driver = some driver' →
      driver'.offers.Among (config.Owns name)) : operator'.Own config := by
  obtain ⟨driver, driver', found, changed, rfl⟩ := changeDriver_eq_some changes
  exact h.insert driver' (kept driver driver' (h.offers name driver found) changed)

theorem Own.changeOffers {change : ControllerOffers → Option ControllerOffers}
    (changes : operator.changeOffers name change = some operator')
    (kept : ∀ offers offers', offers.Among (config.Owns name) → change offers = some offers' →
      offers'.Among (config.Owns name)) : operator'.Own config := by
  apply h.changeDriver changes
  intro driver driver' among changed
  obtain ⟨offers, changes, rfl⟩ := Option.map_eq_some_iff.1 changed
  exact kept driver.offers offers among changes

theorem Own.changeLifecycle {change : ControllerLifecycle → Option ControllerLifecycle}
    (changes : operator.changeLifecycle name change = some operator') : operator'.Own config := by
  apply h.changeDriver changes
  intro driver driver' among changed
  obtain ⟨lifecycle, -, rfl⟩ := Option.map_eq_some_iff.1 changed
  exact among

end

/-- A report of an enabled program names a controller that may be tasked by it. -/
def ReportsOwn (config : AgentConfig lib) : OperatorLabel → Prop
  | .report program (some state) => state.enabled → ∀ controller ∈ AgentService.configs config,
    state.controller = some controller → config.Owns controller program
  | _ => True

theorem Own.report (h : operator.Own config) (sound : operator.Sound config) {program : String}
    {state : Option ProgramEnableState} (own : ReportsOwn config (.report program state)) :
    (operator.report program state).Own config := by
  have discovered : ∀ controller ∈ AgentService.configs config,
      ∀ p ∈ (operator.discovery.monitorTask program state).controllerPrograms controller, config.Owns controller p := by
    intro controller mem p listed
    unfold ProgramDiscovery.controllerPrograms at listed
    rw [value_monitorTask] at listed
    split_ifs at listed with touched
    · rw [mem_newSet] at listed
      split_ifs at listed with same
      · subst same
        obtain ⟨s, rfl, enabled⟩ := listed
        unfold ProgramDiscovery.observers at touched
        simp only [List.mem_cons, List.not_mem_nil, or_false, reduceCtorEq, false_or, Observer.controller.injEq] at touched
        exact own enabled controller mem touched.symm
      · exact h.discovery controller mem p listed
    · exact h.discovery controller mem p listed
  refine ⟨discovered, fun name driver found => ?_, h.programs⟩
  unfold VirtualOperator.report at found
  rw [Dict.get?_mapValues] at found
  obtain ⟨driver', found', eq⟩ := Option.map_eq_some_iff.1 found
  have among := h.offers name driver' found'
  split_ifs at eq
  · subst eq
    exact among.notified (discovered name ((sound.present name).1 ⟨driver', found'⟩))
  · exact eq ▸ among

theorem Own.step {limit : ℕ} {label : OperatorLabel} (h : operator.Own config) (sound : operator.Sound config)
    (own : ReportsOwn config label) (steps : operator.step limit label = some operator') : operator'.Own config := by
  unfold VirtualOperator.step at steps
  cases label with
  | report program state => exact Option.some.inj steps ▸ h.report sound own
  | watch controller =>
    have present : controller ∈ AgentService.configs config := by
      obtain ⟨driver, -, found, -⟩ := changeDriver_eq_some steps
      exact (sound.present controller).1 ⟨driver, found⟩
    apply h.changeOffers steps
    intro offers offers' among watches
    split_ifs at watches
    exact Option.some.inj watches ▸ among.watch (h.discovery controller present)
  | discover controller => exact h.changeOffers steps fun _ _ among discovers => among.discover discovers
  | begin controller program => exact h.changeOffers steps fun _ _ among begins => among.begin begins
  | offering controller program windows => exact h.changeOffers steps fun _ _ among offered => among.offering offered
  | finish controller program => exact h.changeOffers steps fun _ _ among finishes => among.finish finishes
  | constrain controller active =>
    apply h.changeDriver steps
    intro driver driver' among changed
    cases changed
    exact among
  | turn clock =>
    dsimp only at steps
    split_ifs at steps
    exact Option.some.inj steps ▸ h.turn limit clock
  | session controller => exact h.changeLifecycle steps
  | ended controller => exact h.changeLifecycle steps
  | emergency controller => exact h.changeLifecycle steps

/-- Applying a state enables configured programs only, and leaves the offers. -/
theorem Own.applied (h : operator.Own config) (state : AgentState S R) :
    (state.applyToOperator (AgentService.configs config) operator).1.Own config := by
  have gated : (forEach state.applyProgram operator.programs.allPrograms
      (operator.programs.setGlobal state.schedulerState.schedulingEnabled)).1.Configured config := by
    refine forEach_invariant _ ⟨h.programs.all, h.programs.enabled⟩ fun manager manager' program mem before applies => ?_
    unfold AgentState.applyProgram at applies
    split_ifs at applies
    · cases applies
      exact ⟨before.all, fun other listed => before.enabled other (Dict.mem_keys_erase.1 listed).2⟩
    · have inserted (target : String) : ({ manager with desiredEnable := manager.desiredEnable.insert program target } :
          ProgramStateManager).Configured config := by
        refine ⟨before.all, fun other listed => ?_⟩
        rcases Dict.mem_keys_insert.1 listed with rfl | listed
        · exact h.programs.all other mem
        · exact before.enabled other listed
      unfold ProgramStateManager.enable at applies
      split at applies
      · exact Except.ok.inj applies ▸ before
      · split at applies
        · exact Except.ok.inj applies ▸ inserted _
        · split_ifs at applies
          · exact Except.ok.inj applies ▸ before
          · exact Except.ok.inj applies ▸ inserted _
  unfold AgentState.applyToOperator
  split
  · rename_i programs raised eq
    rw [eq] at gated
    exact ⟨h.discovery, h.offers, gated⟩
  · rename_i programs eq
    rw [eq] at gated
    refine forEach_invariant _ ⟨h.discovery, h.offers, gated⟩ fun before after controller _ own applies => ?_
    unfold AgentState.applyController at applies
    split at applies
    · cases applies
    · rename_i driver found
      cases applies
      obtain ⟨discovery, offers, programs⟩ := own.insert { driver with
          lifecycle :=
            if state.operatingState.gate controller then driver.lifecycle.enable else driver.lifecycle.disable }
        (own.offers controller driver found)
      exact ⟨discovery, offers, programs⟩

theorem create_own (config : AgentConfig lib) :
    (VirtualOperator.create config.controllers).Own config := by
  have managed (assigned : List (String × String)) : ∀ manager : ProgramStateManager, manager.Configured config →
      (assigned.foldl (fun manager assigned => manager.assignController assigned.1 assigned.2) manager).Configured config := by
    induction assigned with
    | nil => exact fun _ configured => configured
    | cons assigned rest ih =>
      intro manager configured
      exact ih _ ⟨configured.all, configured.enabled⟩
  refine ⟨fun controller _ program listed => ?_, fun name driver found => ?_, ?_⟩
  · exact absurd listed (Finset.notMem_empty program)
  · obtain ⟨c, mem, rfl, rfl⟩ := create_driver found
    constructor <;> simp [ControllerDriver.create, Dict.keys, Dict.empty]
  · apply managed
    constructor
    · intro program listed
      rw [List.mem_dedup, List.mem_flatMap] at listed
      exact listed
    · intro program listed
      exact absurd listed List.not_mem_nil

end VirtualOperator

theorem running_applied (state : AgentState S R) (configs : List String) (operator : VirtualOperator lib) :
    (state.applyToOperator configs operator).1.running = operator.running := by
  unfold AgentState.applyToOperator
  split
  · rfl
  · refine forEach_invariant (fun after : VirtualOperator lib => after.running = operator.running) rfl
      fun before after controller _ same applies => ?_
    unfold AgentState.applyController at applies
    split at applies
    · cases applies
    · cases applies
      exact same

/-! ## Runs -/

namespace AgentService

variable {config : AgentConfig lib} {s t : AgentService lib S R} {limit : ℕ} {label : ServiceLabel S R}

/-- The side condition of a run: the loop makes its turns where the enabled offers are the controllers' own. -/
def OwnTurns (s : AgentService lib S R) : ServiceLabel S R → Prop
  | .operator (.turn _) => s.operator.OwnOffers
  | _ => True

/-- The side condition of a run: no program reports a controller that another program's configuration owns. -/
def OwnReports (config : AgentConfig lib) (_ : AgentService lib S R) : ServiceLabel S R → Prop
  | .operator label => VirtualOperator.ReportsOwn config label
  | .agent _ => True

theorem running_step (lawful : lib.Lawful) (acyclic : AcyclicGraph config.graph) (deep : config.graph.keys.length < limit)
    (sound : s.operator.Sound config) (own : OwnTurns s label) (steps : step config limit s label = some t) :
    t.operator.running = s.operator.running := by
  rcases step_cases steps with ⟨request, -, applied⟩ | ⟨-, ⟨-, -, same⟩ | ⟨operatorLabel, rfl, moves⟩⟩
  · rw [applied, running_applied]
  · rw [same]
  · cases turns : operatorLabel with
    | turn clock =>
      subst turns
      unfold VirtualOperator.step at moves
      dsimp only at moves
      split_ifs at moves
      rw [← Option.some.inj moves, sound.running_turn lawful own acyclic deep]
    | _ =>
      apply VirtualOperator.running_step moves
      intro clock eq
      cases turns.symm.trans eq

theorem own_step (sound : s.operator.Sound config) (h : s.operator.Own config) (own : OwnReports config s label)
    (steps : step config limit s label = some t) : t.operator.Own config := by
  rcases step_cases steps with ⟨request, -, applied⟩ | ⟨-, ⟨-, -, same⟩ | ⟨operatorLabel, rfl, moves⟩⟩
  · rw [applied]
    exact h.applied s.agent.held
  · rwa [same]
  · exact h.step sound own moves

theorem running_started (recovered : AgentState S R) : (started config recovered).operator.running = true := by
  unfold started
  rw [running_applied]
  rfl

theorem own_started (recovered : AgentState S R) : (started config recovered).operator.Own config :=
  (VirtualOperator.create_own config).applied _

/-- Neither evaluating nor demanding ever raises for any controller. -/
def LoopSurvives (config : AgentConfig lib) (limit : ℕ) (recovered : AgentState S R) : Prop :=
  ∀ s, Reaches (step config limit) always (started config recovered) s →
    ∀ name driver, s.operator.drivers.get? name = some driver →
      driver.Survives s.operator.programs s.operator.election

/-- **What the loop survives.** In every reachable state a controller's evaluation and demand go through if and only
if every enabled program among its offers is one of its own. A run in which this holds at every turn never ends the
loop. It holds throughout a run in which no program reports a controller that it is configured for elsewhere. -/
theorem loopSurvives_iff (lawful : lib.Lawful) (acyclic : AcyclicGraph config.graph)
    (deep : config.graph.keys.length < limit) (recovered : AgentState S R) :
    (∀ s, Reaches (step config limit) always (started config recovered) s →
      ∀ name driver, s.operator.drivers.get? name = some driver →
        (driver.Survives s.operator.programs s.operator.election ↔ driver.OwnOffers s.operator.programs)) ∧
    (∀ s, Reaches (step config limit) OwnTurns (started config recovered) s → s.operator.running = true) ∧
    ∀ s, Reaches (step config limit) (OwnReports config) (started config recovered) s → s.operator.running = true ∧
      ∀ name driver, s.operator.drivers.get? name = some driver →
        driver.Survives s.operator.programs s.operator.election := by
  have survives (s : AgentService lib S R) (sound : s.operator.Sound config) (name : String)
      (driver : ControllerDriver lib) (found : s.operator.drivers.get? name = some driver) :
      driver.Survives s.operator.programs s.operator.election ↔ driver.OwnOffers s.operator.programs := by
    obtain ⟨c, -, -, kept⟩ := sound.drivers name driver found
    exact kept.survives_iff lawful
  refine ⟨fun s run => survives s (sound_of_run lawful run), fun s run => ?_, fun s run => ?_⟩
  · refine run.invariant₂ (J := fun t => t.operator.running = true) (fun t run => sound_of_run lawful run)
      (running_started recovered) ?_
    intro t label u sound running own steps
    exact (running_step lawful acyclic deep sound own steps).trans running
  · have sound := sound_of_run lawful run
    obtain ⟨own, running⟩ : s.operator.Own config ∧ s.operator.running = true := by
      refine run.invariant₂ (J := fun t => t.operator.Own config ∧ t.operator.running = true)
        (fun t run => sound_of_run lawful run) ⟨own_started recovered, running_started recovered⟩ ?_
      rintro t label u sound ⟨own, running⟩ reports steps
      have turns : OwnTurns t label := by
        unfold OwnTurns
        split
        · exact own.ownOffers sound
        · trivial
      exact ⟨own_step sound own reports steps, (running_step lawful acyclic deep sound turns steps).trans running⟩
    exact ⟨running, fun name driver found => (survives s sound name driver found).2 (own.ownOffers sound name driver found)⟩

theorem domes_acyclic : AcyclicGraph domes.graph := by
  have none_ (subject other : String) : ¬ DependsOn domes.graph subject other := by
    rintro ⟨others, found, mem⟩
    rw [Dict.get?_eq_some] at found
    have entries : domes.graph.entries = [("east", []), ("west", [])] := rfl
    rw [entries] at found
    simp only [List.mem_cons, Prod.mk.injEq, List.not_mem_nil, or_false] at found
    rcases found with ⟨-, rfl⟩ | ⟨-, rfl⟩ <;> exact absurd mem List.not_mem_nil
  intro subject path
  obtain ⟨other, first, -⟩ := Relation.TransGen.head'_iff.1 path
  exact none_ subject other first

/-- A program reports a controller, whose offers monitor finds it. -/
def reported (controller : String) : List (ServiceLabel Unit Unit) :=
  [.operator (.report "survey" (some ⟨true, some controller⟩)), .operator (.watch controller),
    .operator (.discover controller), .operator (.begin controller "survey")]

/-- A turn of the loop at midnight. -/
def midnight : ServiceLabel Unit Unit :=
  .operator (.turn fun _ => ⟨0, 0, 0, 0⟩)

/-- The survey is enabled for the western dome, and reports the eastern one: its offers end the loop for both. -/
theorem reported_not_survives : AcyclicGraph domes.graph ∧ ¬ LoopSurvives domes 10 openState ∧
    ∃ s, Reaches (step domes 10) always (started domes openState) s ∧ s.operator.running = false := by
  refine ⟨domes_acyclic, fun survives => ?_, ?_⟩
  · have found : ((exec (step domes 10) (started domes openState) (reported "east")).bind fun s =>
        (s.operator.drivers.get? "east").map fun driver =>
          (driver.offers.offers.keys, driver.config.programs, s.operator.programs.enabledPrograms)) =
        some (["survey"], [], {"survey"}) := by
      decide +kernel
    obtain ⟨s, run, found⟩ := Option.bind_eq_some_iff.1 found
    obtain ⟨driver, found, eq⟩ := Option.map_eq_some_iff.1 found
    obtain ⟨offers, eq⟩ := Prod.mk.inj eq
    obtain ⟨programs, enabled⟩ := Prod.mk.inj eq
    have reached := reaches_of_exec run okAlong_always
    obtain ⟨c, -, -, sound⟩ := (sound_of_run IntervalTrees.lawful_lists reached).drivers "east" driver found
    have own := (sound.survives_iff IntervalTrees.lawful_lists).1 (survives s reached "east" driver found)
    have listed := own "survey" (by simp [offers]) (by simp [enabled])
    rw [programs] at listed
    exact absurd listed List.not_mem_nil
  · have ended : (exec (step domes 10) (started domes openState) (reported "east" ++ [midnight])).map
        (fun s => s.operator.running) = some false := by
      decide +kernel
    obtain ⟨s, run, ended⟩ := Option.map_eq_some_iff.1 ended
    exact ⟨s, reaches_of_exec run okAlong_always, ended⟩

theorem loopSurvives_example : ∃ s,
    exec (step domes 10) (started domes openState) (reported "west" ++ [midnight]) = some s ∧
      s.operator.running = true := by
  have returns : (exec (step domes 10) (started domes openState) (reported "west" ++ [midnight])).isSome := by
    decide +kernel
  obtain ⟨s, run⟩ := Option.isSome_iff_exists.1 returns
  obtain ⟨-, -, survives⟩ := loopSurvives_iff IntervalTrees.lawful_lists domes_acyclic
    (show domes.graph.keys.length < 10 by decide) openState
  refine ⟨s, run, (survives s (reaches_of_exec run (okAlong_of_forall fun label mem s => ?_))).1⟩
  simp only [reported, midnight, List.cons_append, List.nil_append, List.mem_cons, List.not_mem_nil, or_false] at mem
  rcases mem with rfl | rfl | rfl | rfl | rfl
  · intro _ controller _ named _
    exact ⟨westDome, by simp [domes], Option.some.inj named, by simp [westDome, ControllerConfig.programs]⟩
  all_goals trivial

end AgentService

end SensorKit.Auto
