import SensorKit.Lib.Raises
import SensorKit.Sensor.RoutingAlone

/-!
# Settings that participants share

A setting that routes for each participant alone is routed for all of them, unless they look through no common
device. Only this last is reported as a conflict between participants, so nothing else can keep an epoch setting
from a group whose members it suits.
-/

namespace SensorKit.Sensor

open Lib

/-- A routing error. -/
def PlanningError.IsValue : PlanningError → Prop
  | .value _ => True
  | _ => False

/-- A conflict that another epoch may resolve. -/
def PlanningError.IsConflict : PlanningError → Prop
  | .packingConflict _ => True
  | _ => False

namespace CommandRouter

variable {router : CommandRouter} {command : DeviceCommand} {subject : Subject} {participants : List Placement}
  {select : Option Selection} {scope : Scope} {device : Option String} {tag : String} {i p q : Placement}
  {components : List Component}

theorem chain_returns (mem : i ∈ router.sensor.topology.instruments) :
    Returns (router.sensor.topology.chain i) :=
  returns_iff.2 (Topology.exists_chain mem)

theorem reachable_returns (instruments : ∀ i ∈ participants, i ∈ router.sensor.topology.instruments) :
    Returns (router.reachable participants) := by
  unfold reachable
  refine RaisesOnly.bind (raisesOnly_mapM fun i mem => chain_returns (instruments i mem)) ?_
  intro chains _
  exact raisesOnly_pure _

theorem eligible_returns (mem : i ∈ router.sensor.topology.instruments) : Returns (router.eligible p i scope) := by
  have owned : Returns (router.sensor.topology.private i) := by
    unfold Topology.private
    refine (chain_returns mem).bind ?_
    intro chain _
    exact raisesOnly_pure _
  unfold eligible
  refine (chain_returns mem).bind ?_
  intro chain _
  split_ifs
  · cases scope with
    | any => exact raisesOnly_pure _
    | «private» => exact owned.bind fun _ _ => raisesOnly_pure _
    | shared => exact owned.bind fun _ _ => raisesOnly_pure _
  · exact raisesOnly_pure _

/-- A winner was selected among placements whose selection was answered. -/
theorem matches_returns (won : router.winner command subject participants select scope device = .ok q)
    (mem : i ∈ participants) (admits : scope.Admits router.sensor.topology p i)
    (named : ∀ name, device = some name → p.device = name)
    (supports : command.modelTag ∈ router.sensor.supportedCommands p.device) :
    ∀ s, select = some s → Returns (s.matches p (some router.sensor)) := by
  simp only [winner, bind_eq_ok] at won
  obtain ⟨reachable, reached, kept, restricted, candidates, tested, -⟩ := won
  have inside := (mem_restricted reached restricted).2 ⟨(mem_reachable reached).2 ⟨i, mem, admits.1⟩, named⟩
  obtain ⟨b, answer⟩ := (mem_keepM (x := p) tested).2 inside
  simp only [candidate] at answer
  rw [if_neg (not_not.2 supports)] at answer
  obtain ⟨any_, found, answer⟩ := bind_eq_ok.1 answer
  have found := anyM_eq_ok found
  cases any_ with
  | false =>
    have refused := found i mem
    exact absurd ((eligible_eq_ok refused).2 admits) Bool.false_ne_true
  | true =>
    rintro s rfl
    exact returns_iff.2 ⟨b, answer⟩

/-- A command that is routed for each participant alone: what their winners have been selected among. -/
def Alone (router : CommandRouter) (command : DeviceCommand) (subject : Subject) (participants : List Placement)
    (select : Option Selection) (scope : Scope) (device : Option String) : Prop :=
  ∀ i ∈ participants, ∃ q, router.winner command subject [i] select scope device = .ok q

section

variable (instruments : ∀ i ∈ participants, i ∈ router.sensor.topology.instruments)
  (alone : router.Alone command subject participants select scope device)
include instruments alone

theorem candidate_returns (named : ∀ name, device = some name → p.device = name) :
    Returns (router.candidate command.modelTag participants select scope p) := by
  unfold candidate
  by_cases supports : command.modelTag ∈ router.sensor.supportedCommands p.device
  swap
  · rw [if_pos supports]
    exact raisesOnly_pure _
  rw [if_neg (not_not.2 supports)]
  refine RaisesOnly.bind (raisesOnly_anyM fun i mem => eligible_returns (instruments i mem)) ?_
  intro any_ found
  have found := anyM_eq_ok found
  cases any_ with
  | false => exact raisesOnly_pure _
  | true =>
    obtain ⟨i, mem, eligible⟩ := found
    obtain ⟨q, won⟩ := alone i mem
    cases select with
    | none => exact raisesOnly_pure _
    | some s =>
      exact matches_returns won (List.mem_singleton.2 rfl) ((eligible_eq_ok eligible).1 rfl) named
        supports s rfl

theorem winner_raisesOnly :
    RaisesOnly PlanningError.IsValue (router.winner command subject participants select scope device) := by
  unfold winner
  refine (reachable_returns instruments).raisesOnly.bind ?_
  intro reachable reached
  have restricts : RaisesOnly PlanningError.IsValue
      (router.restricted device reachable command.modelTag participants) := by
    unfold restricted named
    split
    · exact raisesOnly_ok _
    · split
      · exact raisesOnly_error trivial
      · split_ifs
        · exact raisesOnly_ok _
        · exact raisesOnly_error trivial
  refine restricts.bind ?_
  intro kept restricted
  refine RaisesOnly.bind (raisesOnly_keepM fun p mem => Returns.raisesOnly ?_) ?_
  · exact candidate_returns instruments alone ((mem_restricted reached restricted).1 mem).2
  intro candidates _
  by_cases empty : candidates = []
  · rw [if_pos empty]
    exact raisesOnly_error trivial
  rw [if_neg empty]
  have covers : RaisesOnly PlanningError.IsValue (router.covered subject candidates participants command.modelTag) := by
    unfold covered covering
    split
    · refine RaisesOnly.bind (raisesOnly_keepM fun p _ => raisesOnly_allM fun q mem => ?_) ?_
      · refine (chain_returns (instruments q mem)).raisesOnly.bind ?_
        intro chain _
        exact raisesOnly_pure _
      · intro common _
        split_ifs
        · exact raisesOnly_error trivial
        · exact raisesOnly_pure _
    · exact raisesOnly_ok _
  refine covers.bind ?_
  intro common _
  dsimp only
  split
  · exact raisesOnly_pure _
  · exact raisesOnly_error trivial

/-- What is routed for each participant alone is routed for all, but for routing errors. -/
theorem route_raisesOnly :
    RaisesOnly PlanningError.IsValue (router.route command subject participants select scope device) := by
  unfold route
  refine RaisesOnly.bind (raisesOnly_mapM fun group mem => ?_) fun targets _ => raisesOnly_pure _
  cases subject with
  | sensor =>
    obtain rfl : group = participants := by simpa [partition] using mem
    exact winner_raisesOnly instruments alone
  | «instrument» =>
    obtain ⟨i, here, rfl⟩ := List.mem_map.1 mem
    obtain ⟨q, won⟩ := alone i here
    rw [won]
    exact raisesOnly_ok q

end

/-- Where a command is routed for one of the participants is where it is routed for that one alone. -/
theorem exists_alone_of_route (built : Topology.build components = .ok router.sensor.topology)
    (some_ : participants ≠ []) (alone : router.Alone command subject participants select scope device)
    {routed : List RoutedCommand} {r : RoutedCommand}
    (h : router.route command subject participants select scope device = .ok routed) (mem : r ∈ routed) :
    ∃ i ∈ participants, ∃ one, router.route command subject [i] select scope device = .ok one ∧ r ∈ one := by
  have single {i q : Placement} (won : router.winner command subject [i] select scope device = .ok q) :
      router.route command subject [i] select scope device = .ok [{ target := q, command }] := by
    unfold route
    have parts : partition subject [i] = [[i]] := by cases subject <;> rfl
    rw [parts, List.mapM_cons, List.mapM_nil, won]
    rfl
  simp only [route, bind_eq_ok, pure_eq_ok] at h
  obtain ⟨targets, won, rfl⟩ := h
  obtain ⟨target, there, rfl⟩ := List.mem_map.1 mem
  obtain ⟨group, here, wins⟩ := exists_of_mem_mapM won (List.mem_eraseDups.1 there)
  cases subject with
  | sensor =>
    obtain rfl : group = participants := by simpa [partition] using here
    obtain ⟨i, rest, rfl⟩ := List.exists_cons_of_ne_nil some_
    obtain ⟨q, won⟩ := alone i (by simp)
    obtain rfl := winner_alone built wins (List.mem_cons_self ..) won
    exact ⟨i, by simp, _, single won, List.mem_singleton.2 rfl⟩
  | «instrument» =>
    obtain ⟨i, participates, rfl⟩ := List.mem_map.1 here
    exact ⟨i, participates, _, single wins, List.mem_singleton.2 rfl⟩

end CommandRouter

variable {sensor : BoundSensor} {components : List Component} {request : CommandRequest} {participants : List Placement}

/-- The setting routes for each participant alone. -/
def CommandRequest.Alone (request : CommandRequest) (sensor : BoundSensor) (participants : List Placement) : Prop :=
  ∀ i ∈ participants, ∃ one, request.resolve [i] sensor = .ok one

theorem supportedOn_of_resolve {routed : List RoutedCommand} (h : request.resolve participants sensor = .ok routed)
    (unnamed : request.device.isNone = true) : ∀ group ∈ partition request.subject participants,
      CommandRouter.supportedOn ⟨sensor⟩ request.command.modelTag group = .ok true := by
  simp only [CommandRequest.resolve, bind_eq_ok] at h
  obtain ⟨unsupported, search, h⟩ := h
  split_ifs at h with refused
  have found : unsupported = none := by simpa [unnamed] using refused
  subst found
  intro group mem
  obtain ⟨supported, tested, negated⟩ := bind_eq_ok.1 (findM?_eq_ok_none search group mem)
  have holds : supported = true := by simpa [pure_eq_ok] using negated
  rw [tested, holds]

/-- Each target of a setting that is routed satisfies the requirements. -/
theorem requires_of_resolve {routed : List RoutedCommand} {r : RoutedCommand} {sent : List RoutedCommand}
    (h : request.resolve participants sensor = .ok routed)
    (route : CommandRouter.route ⟨sensor⟩ request.command request.subject participants request.select request.scope
      request.device = .ok sent) (mem : r ∈ sent) :
    (request.requires.findM? fun requirement => do
      return !(← requirement.matches r.target (some sensor)) : Except PlanningError _) = .ok none := by
  simp only [CommandRequest.resolve, bind_eq_ok] at h
  obtain ⟨unsupported, -, h⟩ := h
  split_ifs at h
  obtain ⟨sent', route', h⟩ := bind_eq_ok.1 h
  cases route.symm.trans route'
  obtain ⟨unmet, search, h⟩ := bind_eq_ok.1 h
  cases unmet with
  | some unmet => simp at h
  | none =>
    obtain ⟨requirement, found, turn⟩ := bind_eq_ok.1 (findSomeM?_eq_ok_none.1 search r mem)
    cases requirement with
    | none => exact found
    | some requirement => simp [pure_eq_ok] at turn

theorem CommandRequest.Alone.routes (alone : request.Alone sensor participants) :
    CommandRouter.Alone ⟨sensor⟩ request.command request.subject participants request.select request.scope
      request.device := by
  intro i mem
  obtain ⟨one, resolved⟩ := alone i mem
  obtain ⟨sent, route, -⟩ := resolve_eq_ok resolved
  simp only [CommandRouter.route, bind_eq_ok] at route
  obtain ⟨targets, won, -⟩ := route
  have parts : partition request.subject [i] = [[i]] := by cases request.subject <;> rfl
  rw [parts] at won
  obtain ⟨q, -, won⟩ := exists_right_of_forall₂ (mapM_eq_ok.1 won) (List.mem_singleton.2 rfl)
  exact ⟨q, won⟩

/-- Support on one participant's chain is support on all chains. -/
theorem supportedOn_of_alone (some_ : participants ≠ []) (alone : request.Alone sensor participants)
    (unnamed : request.device.isNone = true) {group : List Placement}
    (mem : group ∈ partition request.subject participants) {b : Bool}
    (supported : CommandRouter.supportedOn ⟨sensor⟩ request.command.modelTag group = .ok b) : b = true := by
  have single (i : Placement) (mem : i ∈ participants) :
      CommandRouter.supportedOn ⟨sensor⟩ request.command.modelTag [i] = .ok true := by
    obtain ⟨one, resolved⟩ := alone i mem
    refine supportedOn_of_resolve resolved unnamed [i] ?_
    cases request.subject <;> simp [partition]
  cases subject : request.subject with
  | «instrument» =>
    rw [subject] at mem
    obtain ⟨i, here, rfl⟩ := List.mem_map.1 mem
    exact Except.ok.inj (supported.symm.trans (single i here))
  | sensor =>
    rw [subject] at mem
    obtain rfl : group = participants := by simpa [partition] using mem
    obtain ⟨i, rest, rfl⟩ := List.exists_cons_of_ne_nil some_
    simp only [CommandRouter.supportedOn, bind_eq_ok, pure_eq_ok] at supported
    obtain ⟨reachable, reached, rfl⟩ := supported
    have one := single i (by simp)
    simp only [CommandRouter.supportedOn, bind_eq_ok, pure_eq_ok] at one
    obtain ⟨reachable', reached', supports⟩ := one
    obtain ⟨p, there, tag⟩ := List.any_eq_true.1 supports
    obtain ⟨q, single, on⟩ := (CommandRouter.mem_reachable reached').1 there
    obtain rfl := List.mem_singleton.1 single
    exact List.any_eq_true.2 ⟨p, (CommandRouter.mem_reachable reached).2 ⟨q, by simp, on⟩, tag⟩

section

variable (built : Topology.build components = .ok sensor.topology) (some_ : participants ≠ [])
  (instruments : ∀ i ∈ participants, i ∈ sensor.topology.instruments) (alone : request.Alone sensor participants)
include built some_ instruments alone

/-- **A setting that routes for each participant alone** routes for all, but for routing errors. -/
theorem resolve_raisesOnly : RaisesOnly PlanningError.IsValue (request.resolve participants sensor) := by
  have grouped (group : List Placement) (mem : group ∈ partition request.subject participants) :
      ∀ i ∈ group, i ∈ sensor.topology.instruments := by
    intro i here
    cases subject : request.subject with
    | sensor =>
      rw [subject] at mem
      obtain rfl : group = participants := by simpa [partition] using mem
      exact instruments i here
    | «instrument» =>
      rw [subject] at mem
      obtain ⟨j, there, rfl⟩ := List.mem_map.1 mem
      obtain rfl := List.mem_singleton.1 here
      exact instruments i there
  unfold CommandRequest.resolve
  dsimp only
  refine RaisesOnly.bind (raisesOnly_findM? fun group mem => Returns.raisesOnly ?_) ?_
  · unfold CommandRouter.supportedOn
    refine RaisesOnly.bind (RaisesOnly.bind (CommandRouter.reachable_returns (grouped group mem)) ?_) ?_
    · intro reachable _
      exact raisesOnly_pure _
    · intro supported _
      exact raisesOnly_pure _
  intro unsupported search
  have supported : ¬ (request.device.isNone = true ∧ unsupported.isSome = true) := by
    rintro ⟨unnamed, found⟩
    obtain ⟨group, rfl⟩ := Option.isSome_iff_exists.1 found
    have holds := holds_of_findM? search
    obtain ⟨b, tested, negated⟩ := bind_eq_ok.1 holds
    obtain rfl := supportedOn_of_alone some_ alone unnamed (mem_of_findM? search) tested
    simp [pure_eq_ok] at negated
  rw [if_neg supported]
  refine (CommandRouter.route_raisesOnly instruments alone.routes).bind ?_
  intro routed route
  have met : ∀ r ∈ routed, (do
      let requirement ← request.requires.findM? fun requirement => do
        return !(← requirement.matches r.target (some sensor))
      return requirement.map fun requirement => (r.target, requirement) : Except PlanningError _) = .ok none := by
    intro r mem
    obtain ⟨i, here, sent, route', there⟩ := CommandRouter.exists_alone_of_route built some_ alone.routes route mem
    obtain ⟨one, resolved⟩ := alone i here
    rw [requires_of_resolve resolved route' there]
    rfl
  rw [findSomeM?_eq_ok_none.2 met]
  exact raisesOnly_ok _

/-- **An epoch setting that suits each participant** is routed for all, or is a conflict between them. -/
theorem resolveShared_raisesOnly : RaisesOnly PlanningError.IsConflict (request.resolveShared participants sensor) := by
  unfold CommandRequest.resolveShared
  rcases (resolve_raisesOnly built some_ instruments alone).cases with ⟨routed, resolved⟩ | ⟨e, raised, value⟩
  · rw [resolved]
    exact raisesOnly_ok routed
  cases e with
  | value message =>
    rw [raised]
    have several : 1 < participants.length := by
      -- What is routed for a single participant is routed for that one alone.
      by_contra few
      obtain ⟨i, rfl⟩ := List.length_eq_one_iff.1 (Nat.le_antisymm (Nat.not_lt.1 few) (List.length_pos_iff.2 some_))
      obtain ⟨one, resolved⟩ := alone i (by simp)
      rw [raised] at resolved
      cases resolved
    have each : participants.allM (request.alone · sensor) = .ok true := by
      refine allM_eq_true fun i mem => ?_
      obtain ⟨one, resolved⟩ := alone i mem
      unfold CommandRequest.alone
      rw [resolved]
    dsimp only [CommandRequest.raiseShared]
    rw [if_pos several, each]
    exact raisesOnly_error trivial
  | _ => exact value.elim

end

end SensorKit.Sensor
