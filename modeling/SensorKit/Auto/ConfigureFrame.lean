import SensorKit.Auto.OperatorSound

/-!
# What a configure request leaves alone

A handler that has updated the state applies all of it to every lifecycle. So a request that is about something else
leaves a lifecycle as it is exactly where the lifecycle agrees with its gates already: enabled where they are open, and
disabled with no demand where they are not. An emergency shutdown disables a lifecycle whose gates stay open, and the
next request enables it again, whatever it is about.
-/

namespace SensorKit.Auto

open Lib Common SensorKit.Core

variable {lib : IntervalTrees ℤ} {S R : Type}

namespace AgentService

variable (s t : AgentService lib S R) (controller : String)

/-- A controller's lifecycle. -/
def lifecycle : Option ControllerLifecycle :=
  (s.operator.drivers.get? controller).map ControllerDriver.lifecycle

/-- The request sets neither the global gate nor the controller's own. -/
def Unrelated (request : AgentConfigureRequest) : Prop :=
  request.globalControlEnabled = none ∧ request.controllerControlEnabled.lookup controller = none

/-- Whether the controller's lifecycle is enabled, and its demand, are the same. -/
def SameControl : Prop :=
  (s.lifecycle controller).map (fun l => (l.enabled, l.demand)) =
    (t.lifecycle controller).map fun l => (l.enabled, l.demand)

/-- The lifecycle agrees with its gates. -/
def Agrees : Prop :=
  ∀ l, s.lifecycle controller = some l →
    if s.agent.held.operatingState.gate controller then l.enabled = true
    else l.enabled = false ∧ l.demand = { state := none }

def Disabled : Prop :=
  ∀ l, s.lifecycle controller = some l → l.enabled = false

/-- A request that is about neither the global gate nor the controller's changes nothing about its control. -/
def Framed (config : AgentConfig lib) (limit : ℕ) (recovered : AgentState S R) (controller : String) : Prop :=
  ∀ s, Reaches (step config limit) always (started config recovered) s → ∀ label request t,
    s.finishing label = some request → Unrelated controller request → step config limit s label = some t →
      s.SameControl t controller

/-- The side condition of a run: the requests are about other things, and find the lifecycle in agreement. -/
def Quiet (s : AgentService lib S R) (label : ServiceLabel S R) : Prop :=
  ∀ request, s.finishing label = some request → Unrelated controller request ∧ s.Agrees controller

end AgentService

/-! ## Applying the gates -/

/-- Enable or disable a lifecycle. -/
def ControllerLifecycle.gated (l : ControllerLifecycle) (gate : Bool) : ControllerLifecycle :=
  if gate then l.enable else l.disable

theorem ControllerLifecycle.gated_gated (l : ControllerLifecycle) (gate : Bool) :
    (l.gated gate).gated gate = l.gated gate := by
  cases gate <;> rfl

namespace AgentService

variable {config : AgentConfig lib} {s t : AgentService lib S R} {limit : ℕ} {label : ServiceLabel S R}
  {controller : String} {operator : VirtualOperator lib}

theorem applyController_drivers (state : AgentState S R) {name : String} {driver : ControllerDriver lib}
    (found : operator.drivers.get? name = some driver) :
    ∃ operator', state.applyController operator name = .ok operator' ∧ operator'.drivers =
      operator.drivers.insert name { driver with lifecycle := driver.lifecycle.gated (state.operatingState.gate name) } := by
  unfold AgentState.applyController
  rw [found]
  exact ⟨_, rfl, rfl⟩

/-- What applying the gates of some controllers does to each lifecycle. -/
theorem lifecycle_applied (state : AgentState S R) (controllers : List String)
    (present : ∀ name ∈ controllers, ∃ driver, operator.drivers.get? name = some driver) (controller : String) :
    ((forEach state.applyController controllers operator).1.drivers.get? controller).map ControllerDriver.lifecycle =
      ((operator.drivers.get? controller).map ControllerDriver.lifecycle).map fun l =>
        if controller ∈ controllers then l.gated (state.operatingState.gate controller) else l := by
  induction controllers generalizing operator with
  | nil => simp [forEach, Function.comp_def]
  | cons name controllers ih =>
    obtain ⟨driver, found⟩ := present name (List.mem_cons_self ..)
    obtain ⟨operator', applies, drivers⟩ := applyController_drivers state found
    have present' : ∀ other ∈ controllers, ∃ driver, operator'.drivers.get? other = some driver := by
      intro other mem
      rw [drivers, Dict.get?_insert]
      split_ifs
      · exact ⟨_, rfl⟩
      · exact present other (List.mem_cons_of_mem _ mem)
    unfold forEach
    rw [applies]
    dsimp only
    rw [ih present', drivers, Dict.get?_insert]
    by_cases same : controller = name
    · subst same
      by_cases listed : controller ∈ controllers <;> simp [found, listed, ControllerLifecycle.gated_gated]
    · simp [same]

/-- What a request that is applied does to each lifecycle, whatever it is about. -/
theorem lifecycle_finishing (sound : s.operator.Sound config) {request : AgentConfigureRequest}
    (finishes : s.finishing label = some request) (steps : step config limit s label = some t) (controller : String) :
    t.lifecycle controller =
      (s.lifecycle controller).map fun l => l.gated (s.agent.held.operatingState.gate controller) := by
  obtain ⟨-, -, applied⟩ | ⟨none, -⟩ := step_cases steps
  · obtain ⟨programs, -, eq⟩ := applyToOperator_eq s.agent.held sound.programs (configs config)
    have present : ∀ name ∈ configs config,
        ∃ driver, ({ s.operator with programs } : VirtualOperator lib).drivers.get? name = some driver :=
      fun name mem => (sound.present name).2 mem
    unfold lifecycle
    rw [applied, eq, lifecycle_applied _ _ present]
    by_cases mem : controller ∈ configs config
    · simp only [mem, if_true]
    · have absent : s.operator.drivers.get? controller = none := by
        rw [Dict.get?_eq_none, Dict.mem_keys, sound.present]
        exact mem
      simp [absent]
  · rw [finishes] at none
    cases none

theorem sameControl_iff (gate : t.lifecycle controller =
    (s.lifecycle controller).map fun l => l.gated (s.agent.held.operatingState.gate controller)) :
    s.SameControl t controller ↔ s.Agrees controller := by
  unfold SameControl Agrees
  rw [gate]
  cases s.lifecycle controller with
  | none => simp
  | some l =>
    cases s.agent.held.operatingState.gate controller with
    | true => simp [ControllerLifecycle.gated, ControllerLifecycle.enable]
    | false => simp [ControllerLifecycle.gated, ControllerLifecycle.disable]

/-! ## What the operator does to a lifecycle -/

/-- The operator never enables a lifecycle. -/
def StaysDisabled (controller : String) (before after : VirtualOperator lib) : Prop :=
  (∀ driver, before.drivers.get? controller = some driver → driver.lifecycle.enabled = false) →
    ∀ driver, after.drivers.get? controller = some driver → driver.lifecycle.enabled = false

theorem staysDisabled_insert {name : String} {driver driver' : ControllerDriver lib} {election : StateElection String}
    (found : operator.drivers.get? name = some driver)
    (kept : driver.lifecycle.enabled = false → driver'.lifecycle.enabled = false) :
    StaysDisabled controller operator
      { operator with drivers := operator.drivers.insert name driver', election := election } := by
  intro disabled other found'
  dsimp only at found'
  rw [Dict.get?_insert] at found'
  split_ifs at found' with same
  · subst same
    cases found'
    exact kept (disabled driver found)
  · exact disabled other found'

theorem staysDisabled_turn (limit : ℕ) (clock : String → TurnClock) :
    StaysDisabled controller operator (operator.turn limit clock) := by
  apply VirtualOperator.turn_invariant (I := StaysDisabled controller operator) id
  · intro before after name stays evaluates disabled
    unfold VirtualOperator.evaluateDriver at evaluates
    cases found : before.drivers.get? name with
    | none =>
      rw [found] at evaluates
      exact Except.ok.inj evaluates ▸ stays disabled
    | some driver =>
      rw [found] at evaluates
      simp only [bind_eq_ok, pure_eq_ok] at evaluates
      obtain ⟨⟨driver', election⟩, state, rfl⟩ := evaluates
      obtain ⟨scheduler, -, rfl, -⟩ := ControllerDriver.evaluateState_eq_ok state
      exact staysDisabled_insert found id (stays disabled)
  · intro before after demand stays demands disabled
    unfold VirtualOperator.demandDriver at demands
    cases found : before.drivers.get? demand.1 with
    | none =>
      rw [found] at demands
      exact Except.ok.inj demands ▸ stays disabled
    | some driver =>
      rw [found] at demands
      simp only [bind_eq_ok, pure_eq_ok] at demands
      obtain ⟨⟨changed, driver'⟩, state, rfl⟩ := demands
      obtain ⟨_, rfl⟩ := ControllerDriver.setDemand_eq_ok state
      exact staysDisabled_insert found id (stays disabled)
  · intro before stays
    exact stays

theorem staysDisabled_step {operatorLabel : OperatorLabel} {operator' : VirtualOperator lib}
    (steps : operator.step limit operatorLabel = some operator') : StaysDisabled controller operator operator' := by
  have changes {name : String} {change : ControllerDriver lib → Option (ControllerDriver lib)}
      (changes : operator.changeDriver name change = some operator')
      (kept : ∀ driver driver', change driver = some driver' → driver.lifecycle.enabled = false →
        driver'.lifecycle.enabled = false) : StaysDisabled controller operator operator' := by
    obtain ⟨driver, driver', found, changed, rfl⟩ := VirtualOperator.changeDriver_eq_some changes
    exact staysDisabled_insert found (kept driver driver' changed)
  have offers {name : String} {change : ControllerOffers → Option ControllerOffers}
      (steps : operator.changeOffers name change = some operator') : StaysDisabled controller operator operator' := by
    apply changes steps
    intro driver driver' changed disabled
    obtain ⟨_, -, rfl⟩ := Option.map_eq_some_iff.1 changed
    exact disabled
  have lifecycles {name : String} {change : ControllerLifecycle → Option ControllerLifecycle}
      (steps : operator.changeLifecycle name change = some operator')
      (kept : ∀ l l', change l = some l' → l.enabled = false → l'.enabled = false) :
      StaysDisabled controller operator operator' := by
    apply changes steps
    intro driver driver' changed disabled
    obtain ⟨l, change, rfl⟩ := Option.map_eq_some_iff.1 changed
    exact kept driver.lifecycle l change disabled
  unfold VirtualOperator.step at steps
  cases operatorLabel with
  | report program state =>
    cases steps
    intro disabled driver found
    unfold VirtualOperator.report at found
    rw [Dict.get?_mapValues] at found
    obtain ⟨driver', found', eq⟩ := Option.map_eq_some_iff.1 found
    split_ifs at eq <;> exact eq ▸ disabled driver' found'
  | constrain name active =>
    apply changes steps
    intro driver driver' changed disabled
    cases changed
    exact disabled
  | turn clock =>
    dsimp only at steps
    split_ifs at steps
    exact Option.some.inj steps ▸ staysDisabled_turn limit clock
  | session name =>
    apply lifecycles steps
    intro l l' changed disabled
    split_ifs at changed with may
    rw [disabled] at may
    simp at may
  | ended name =>
    apply lifecycles steps
    intro l l' changed disabled
    split_ifs at changed
    exact Option.some.inj changed ▸ disabled
  | emergency name =>
    apply lifecycles steps
    intro l l' changed disabled
    split_ifs at changed
    exact Option.some.inj changed ▸ rfl
  | _ => exact offers steps

theorem Disabled.step (sound : s.operator.Sound config) (h : s.Disabled controller) (quiet : Quiet controller s label)
    (steps : step config limit s label = some t) : t.Disabled controller := by
  have read (s : AgentService lib S R) : s.Disabled controller ↔
      ∀ driver, s.operator.drivers.get? controller = some driver → driver.lifecycle.enabled = false := by
    unfold Disabled lifecycle
    simp
  rcases step_cases steps with ⟨request, finishes, -⟩ | ⟨-, ⟨-, -, same⟩ | ⟨operatorLabel, -, moves⟩⟩
  · have gate := lifecycle_finishing sound finishes steps controller
    have kept := (sameControl_iff gate).2 (quiet request finishes).2
    unfold SameControl at kept
    intro l found
    rw [found] at kept
    obtain ⟨l', found', eq⟩ := Option.map_eq_some_iff.1 kept
    rw [← (Prod.mk.inj eq).1]
    exact h l' found'
  · rw [read, same, ← read]
    exact h
  · rw [read] at h ⊢
    exact staysDisabled_step moves h

/-- **What a configure request leaves alone.** Handling a request reaches the operator in its last step only. That step
leaves a controller's control as it is if and only if the lifecycle agrees with its gates. A lifecycle that is disabled
stays disabled for as long as requests are about other things and find it in agreement. -/
theorem framed_iff (lawful : lib.Lawful) (limit : ℕ) (recovered : AgentState S R) (controller : String) {s}
    (run : Reaches (step config limit) always (started config recovered) s) :
    (∀ label t, s.finishing (.agent label) = none → step config limit s (.agent label) = some t →
      t.operator = s.operator) ∧
    (∀ label request t, s.finishing label = some request → Unrelated controller request →
      step config limit s label = some t → (s.SameControl t controller ↔ s.Agrees controller)) ∧
    ∀ t, Reaches (step config limit) (Quiet controller) s t → s.Disabled controller → t.Disabled controller := by
  have sound := sound_of_run lawful run
  refine ⟨fun label t none steps => ?_, fun label request t finishes _ steps => ?_, fun t quiet disabled => ?_⟩
  · rcases step_cases steps with ⟨request, finishes, -⟩ | ⟨-, ⟨-, -, same⟩ | ⟨_, eq, -⟩⟩
    · rw [none] at finishes
      cases finishes
    · exact same
    · cases eq
  · exact sameControl_iff (lifecycle_finishing sound finishes steps controller)
  · refine quiet.invariant₂ (J := fun t => t.Disabled controller) (I := fun t => t.operator.Sound config)
      (fun t run => ?_) disabled fun t label u sound h quiet steps => h.step sound quiet steps
    exact run.invariant sound fun _ _ _ before _ steps => sound_step lawful before steps

/-- A request that excludes the survey. -/
def exclusion : AgentConfigureRequest :=
  { addProgramExclusions := {"survey"} }

/-- Its handler has stored the state. -/
def excluding : List (ServiceLabel Unit Unit) :=
  [.agent (.request exclusion), .agent .configure, .agent (.resume .handler), .agent (.resume .handler)]

/-- An emergency shutdown has disabled the western dome. -/
def emergency : List (ServiceLabel Unit Unit) :=
  [.operator (.session "west"), .operator (.emergency "west")]

/-- The handler goes on to apply the state. -/
def applies : ServiceLabel Unit Unit :=
  .agent (.resume .handler)

/-- After an emergency shutdown of a dome, a request to exclude a program enables its lifecycle again. -/
theorem excluding_not_framed : ¬ Framed domes 10 openState "west" := by
  intro framed
  have found : ((exec (step domes 10) (started domes openState) (emergency ++ excluding)).bind fun s =>
      (step domes 10 s applies).map fun t => (s.finishing applies, (s.lifecycle "west").map ControllerLifecycle.enabled,
        (t.lifecycle "west").map ControllerLifecycle.enabled)) = some (some exclusion, some false, some true) := by
    decide +kernel
  obtain ⟨s, run, found⟩ := Option.bind_eq_some_iff.1 found
  obtain ⟨t, steps, eq⟩ := Option.map_eq_some_iff.1 found
  obtain ⟨finishes, eq⟩ := Prod.mk.inj eq
  obtain ⟨before, after⟩ := Prod.mk.inj eq
  have same := framed s (reaches_of_exec run okAlong_always) applies exclusion t finishes ⟨rfl, rfl⟩ steps
  have enabled := congrArg (Option.map Prod.fst) same
  rw [Option.map_map, Option.map_map] at enabled
  exact absurd (before.symm.trans (enabled.trans after)) (by decide)

/-- Without an emergency the exclusion leaves the dome as it is. -/
theorem framed_example : ∃ s t, exec (step domes 10) (started domes openState) excluding = some s ∧
    step domes 10 s applies = some t ∧ s.SameControl t "west" := by
  have found : ((exec (step domes 10) (started domes openState) excluding).bind fun s =>
      (step domes 10 s applies).map fun t => (s.finishing applies, s.lifecycle "west",
        s.agent.held.operatingState.gate "west")) = some (some exclusion, some { enabled := true }, true) := by
    decide +kernel
  obtain ⟨s, run, found⟩ := Option.bind_eq_some_iff.1 found
  obtain ⟨t, steps, eq⟩ := Option.map_eq_some_iff.1 found
  obtain ⟨finishes, eq⟩ := Prod.mk.inj eq
  obtain ⟨lifecycle, gate⟩ := Prod.mk.inj eq
  obtain ⟨-, same, -⟩ := framed_iff IntervalTrees.lawful_lists 10 openState "west" (reaches_of_exec run okAlong_always)
  refine ⟨s, t, run, steps, (same applies exclusion t finishes ⟨rfl, rfl⟩ steps).2 ?_⟩
  intro l found
  rw [lifecycle] at found
  rw [gate, ← Option.some.inj found]
  rfl

end AgentService

end SensorKit.Auto
