import SensorKit.Sensor.TopologyLayers
import SensorKit.Sensor.Collect

/-!
# Routing for all, and for one

A sensor subject's command lands on the shallowest candidate that all participants look through. The
chains of a sensor part for good, so this is also where the command lands for each participant alone,
and what is routed for one participant is among what is routed for all.
-/

namespace SensorKit.Sensor

open Lib

variable {t : Topology} {components : List Component} {scope : Scope} {i j p q : Placement}
  {reachable candidates : List Placement}

/-- The placement is on the participant's chain and in the scope there. -/
def Scope.Admits (t : Topology) (scope : Scope) (placement participant : Placement) : Prop :=
  t.OnChain participant placement ∧
    match scope with
    | .any => True
    | .private => t.owned placement participant = true
    | .shared => t.owned placement participant = false

/-- A placement that two participants look through is in the scope of both or of neither. -/
theorem Scope.Admits.common (h : scope.Admits t p i) (other : t.OnChain j p) : scope.Admits t p j := by
  have alone {a b : Placement} (owned : t.owned p a = true) (onB : t.OnChain b p) : b = a := by
    have readers : t.readersOf p = [a] := by
      unfold Topology.owned at owned
      exact (of_decide_eq_true owned).2
    have mem := Topology.mem_readersOf.2 onB
    rw [readers] at mem
    exact List.mem_singleton.1 mem
  cases scope with
  | any => exact ⟨other, trivial⟩
  | «private» => exact (alone h.2 other) ▸ h
  | shared =>
    refine ⟨other, ?_⟩
    show t.owned p j = false
    rw [← Bool.not_eq_true]
    intro owned
    obtain rfl := alone owned h.1
    exact absurd h.2 (by simp [owned])

namespace CommandRouter

variable {router : CommandRouter} {command : DeviceCommand} {subject : Subject} {participants : List Placement}
  {select : Option Selection} {device : Option String} {tag : String}

theorem mem_reachable (h : router.reachable participants = .ok reachable) :
    p ∈ reachable ↔ ∃ q ∈ participants, router.sensor.topology.OnChain q p := by
  simp only [CommandRouter.reachable, bind_eq_ok, pure_eq_ok] at h
  obtain ⟨chains, visited, rfl⟩ := h
  have visited := mapM_eq_ok.1 visited
  rw [List.mem_eraseDups, List.mem_flatten]
  constructor
  · rintro ⟨chain, mem, inside⟩
    obtain ⟨q, here, found⟩ := exists_left_of_forall₂ visited mem
    exact ⟨q, here, chain, Topology.lookup_eq_ok.1 found, inside⟩
  · rintro ⟨q, here, chain, found, inside⟩
    obtain ⟨chain', mem, found'⟩ := exists_right_of_forall₂ visited here
    cases found.symm.trans (Topology.lookup_eq_ok.1 found')
    exact ⟨chain, mem, inside⟩

/-- A named device restricts what is reachable to its placement. -/
theorem mem_restricted {kept : List Placement} (reached : router.reachable participants = .ok reachable)
    (h : router.restricted device reachable tag participants = .ok kept) :
    p ∈ kept ↔ p ∈ reachable ∧ ∀ name, device = some name → p.device = name := by
  cases device with
  | none =>
    cases h
    simp
  | some name =>
    simp only [restricted, named] at h
    split at h
    · simp at h
    rename_i placement found
    split_ifs at h
    cases h
    have mem := List.mem_of_find?_eq_some found
    have device : placement.device = name := by simpa using List.find?_some found
    rw [List.mem_singleton]
    constructor
    · rintro rfl
      exact ⟨mem, fun _ same => device.trans (Option.some.inj same)⟩
    · rintro ⟨mem', named⟩
      obtain ⟨_, -, on⟩ := (mem_reachable reached).1 mem
      obtain ⟨_, -, on'⟩ := (mem_reachable reached).1 mem'
      exact Topology.eq_of_device on' on ((named name rfl).trans device.symm)

theorem eligible_eq_ok {b : Bool} (h : router.eligible p q scope = .ok b) :
    b = true ↔ scope.Admits router.sensor.topology p q := by
  simp only [eligible, bind_eq_ok] at h
  obtain ⟨chain, found, h⟩ := h
  have found := Topology.lookup_eq_ok.1 found
  have onChain : router.sensor.topology.OnChain q p ↔ p ∈ chain := by
    constructor
    · rintro ⟨chain', found', mem⟩
      exact Option.some.inj (found.symm.trans found') ▸ mem
    · exact fun mem => ⟨chain, found, mem⟩
  have owns {kept : List Placement} (h : router.sensor.topology.private q = .ok kept) (mem : p ∈ chain) :
      p ∈ kept ↔ router.sensor.topology.owned p q = true := by
    simp only [Topology.private, bind_eq_ok, pure_eq_ok] at h
    obtain ⟨chain', found', rfl⟩ := h
    cases found.symm.trans (Topology.lookup_eq_ok.1 found')
    simp [mem]
  unfold Scope.Admits
  rw [onChain]
  split_ifs at h with mem
  · cases scope with
    | any =>
      obtain rfl := pure_eq_ok.1 h
      simp [mem]
    | «private» =>
      obtain ⟨kept, listed, h⟩ := bind_eq_ok.1 h
      obtain rfl := pure_eq_ok.1 h
      simp [mem, owns listed mem]
    | shared =>
      obtain ⟨kept, listed, h⟩ := bind_eq_ok.1 h
      obtain rfl := pure_eq_ok.1 h
      simp [mem, owns listed mem]
  · obtain rfl := pure_eq_ok.1 h
    simp [mem]

/-- What a placement needs to take the command for one of the participants. -/
structure Candidate (router : CommandRouter) (tag : String) (participants : List Placement) (select : Option Selection)
    (scope : Scope) (device : Option String) (p : Placement) : Prop where
  named : ∀ name, device = some name → p.device = name
  supports : tag ∈ router.sensor.supportedCommands p.device
  admitted : ∃ q ∈ participants, scope.Admits router.sensor.topology p q
  selected : ∀ s, select = some s → s.matches p (some router.sensor) = .ok true

theorem candidate_eq_ok {b : Bool} (h : router.candidate tag participants select scope p = .ok b) :
    b = true ↔ tag ∈ router.sensor.supportedCommands p.device ∧
      (∃ q ∈ participants, scope.Admits router.sensor.topology p q) ∧
      ∀ s, select = some s → s.matches p (some router.sensor) = .ok true := by
  simp only [candidate] at h
  split_ifs at h with supports
  swap
  · obtain rfl := pure_eq_ok.1 h
    simp [supports]
  obtain ⟨any_, found, h⟩ := bind_eq_ok.1 h
  have found := anyM_eq_ok found
  cases any_ with
  | false =>
    obtain rfl := pure_eq_ok.1 h
    have refused : ¬ ∃ q ∈ participants, scope.Admits router.sensor.topology p q := by
      rintro ⟨q, mem, admits⟩
      exact Bool.false_ne_true ((eligible_eq_ok (found q mem)).2 admits)
    simp [refused]
  | true =>
    obtain ⟨q, mem, eligible⟩ := found
    have admitted : ∃ q ∈ participants, scope.Admits router.sensor.topology p q :=
      ⟨q, mem, (eligible_eq_ok eligible).1 rfl⟩
    cases select with
    | none =>
      obtain rfl := pure_eq_ok.1 h
      simp [supports, admitted]
    | some s =>
      have h : s.matches p (some router.sensor) = .ok b := h
      simp [supports, admitted, h]

/-- What is kept of the reachable placements. -/
theorem mem_candidates {kept : List Placement} (reached : router.reachable participants = .ok reachable)
    (restricted : router.restricted device reachable tag participants = .ok kept)
    (tested : keepM (router.candidate tag participants select scope) kept = .ok candidates) :
    p ∈ candidates ↔ Candidate router tag participants select scope device p := by
  obtain ⟨mem, answers⟩ := mem_keepM (x := p) tested
  rw [mem, mem_restricted reached restricted, mem_reachable reached]
  constructor
  · rintro ⟨⟨-, named⟩, tested⟩
    obtain ⟨supports, admitted, selected⟩ := (candidate_eq_ok tested).1 rfl
    exact ⟨named, supports, admitted, selected⟩
  · rintro ⟨named, supports, ⟨q, here, admits⟩, selected⟩
    have inside : p ∈ kept := (mem_restricted reached restricted).2
      ⟨(mem_reachable reached).2 ⟨q, here, admits.1⟩, named⟩
    obtain ⟨b, answer⟩ := answers inside
    obtain rfl : b = true := (candidate_eq_ok answer).2 ⟨supports, ⟨q, here, admits⟩, selected⟩
    exact ⟨⟨⟨q, here, admits.1⟩, named⟩, answer⟩

/-- What is kept of the candidates for a sensor subject. -/
theorem mem_covering {common : List Placement} (h : router.covering candidates participants tag = .ok common) :
    p ∈ common ↔ p ∈ candidates ∧ ∀ q ∈ participants, router.sensor.topology.OnChain q p := by
  simp only [covering, bind_eq_ok] at h
  obtain ⟨kept, tested, covered⟩ := h
  split_ifs at covered
  obtain rfl := pure_eq_ok.1 covered
  have on {q : Placement} {b : Bool}
      (h : (do return decide (p ∈ (← router.sensor.topology.chain q)) : Except PlanningError Bool) = .ok b) :
      b = true ↔ router.sensor.topology.OnChain q p := by
    obtain ⟨chain, found, h⟩ := bind_eq_ok.1 h
    obtain rfl := pure_eq_ok.1 h
    have found := Topology.lookup_eq_ok.1 found
    rw [decide_eq_true_eq]
    constructor
    · exact fun mem => ⟨chain, found, mem⟩
    · rintro ⟨chain', found', mem⟩
      exact Option.some.inj (found.symm.trans found') ▸ mem
  obtain ⟨mem, answers⟩ := mem_keepM (x := p) tested
  rw [mem]
  refine and_congr_right fun here => ?_
  constructor
  · exact fun all q mem => (on (allM_eq_ok all q mem)).1 rfl
  · intro all
    obtain ⟨b, answer⟩ := answers here
    cases b with
    | true => exact answer
    | false =>
      obtain ⟨q, mem, off⟩ := allM_eq_ok answer
      exact absurd ((on off).2 (all q mem)) Bool.false_ne_true

theorem bestDepth_le (mem : p ∈ candidates) : bestDepth .sensor candidates ≤ p.depth := by
  unfold bestDepth
  have mem : p.depth ∈ candidates.map Placement.depth := List.mem_map_of_mem mem
  cases least : (candidates.map Placement.depth).min? with
  | none => simp [List.min?_eq_none_iff.1 least] at mem
  | some d => exact (List.min?_eq_some_iff.1 least).2 _ mem

/-- The placement is the shallowest candidate that all participants look through. -/
structure Shallowest (router : CommandRouter) (tag : String) (participants : List Placement)
    (select : Option Selection) (scope : Scope) (device : Option String) (p : Placement) : Prop where
  candidate : Candidate router tag participants select scope device p
  common : ∀ q ∈ participants, router.sensor.topology.OnChain q p
  least : ∀ p', Candidate router tag participants select scope device p' →
    (∀ q ∈ participants, router.sensor.topology.OnChain q p') → p.depth ≤ p'.depth ∧ (p'.depth = p.depth → p' = p)

/-- **A sensor subject's target** is the shallowest candidate that all participants look through. -/
theorem shallowest_of_winner (h : router.winner command .sensor participants select scope device = .ok p) :
    Shallowest router command.modelTag participants select scope device p := by
  simp only [winner, bind_eq_ok] at h
  obtain ⟨reachable, reached, named, restricted, candidates, tested, h⟩ := h
  split_ifs at h
  obtain ⟨common, covered, h⟩ := bind_eq_ok.1 h
  split at h
  case h_2 => simp at h
  rename_i best eq
  obtain rfl := pure_eq_ok.1 h
  have won (x : Placement) : x ∈ common ∧ x.depth = bestDepth .sensor common ↔ x = best := by
    have mem : x ∈ [best] ↔ x ∈ common ∧ x.depth = bestDepth .sensor common := by
      rw [← eq, List.mem_insertionSort, List.mem_filter, decide_eq_true_eq]
    rw [← mem, List.mem_singleton]
  obtain ⟨mem, depth⟩ := (won best).2 rfl
  obtain ⟨inside, all⟩ := (mem_covering covered).1 mem
  refine ⟨(mem_candidates reached restricted tested).1 inside, all, fun x cand all => ?_⟩
  have there := (mem_covering covered).2 ⟨(mem_candidates reached restricted tested).2 cand, all⟩
  exact ⟨depth ▸ bestDepth_le there, fun same => (won x).1 ⟨there, same.trans depth⟩⟩

/-- **One target for all.** Where a sensor subject's command lands for all participants is where it lands for one
of them. -/
theorem winner_alone (built : Topology.build components = .ok router.sensor.topology)
    (h : router.winner command .sensor participants select scope device = .ok p) (mem : i ∈ participants)
    (alone : router.winner command .sensor [i] select scope device = .ok q) : q = p := by
  have all := shallowest_of_winner h
  have one := shallowest_of_winner alone
  have through := all.common i mem
  obtain ⟨j, -, admits⟩ := all.candidate.admitted
  -- What all look through is a candidate for one.
  obtain ⟨shallow, -⟩ := one.least p
    ⟨all.candidate.named, all.candidate.supports, ⟨i, by simp, admits.common through⟩, all.candidate.selected⟩
    fun k here => List.mem_singleton.1 here ▸ through
  obtain ⟨k, single, admits⟩ := one.candidate.admitted
  obtain rfl := List.mem_singleton.1 single
  -- What is no deeper than a common placement is common.
  obtain ⟨shallow', same⟩ := all.least q
    ⟨one.candidate.named, one.candidate.supports, ⟨k, mem, admits⟩, one.candidate.selected⟩
    fun j here => Topology.onChain_of_shallower built admits.1 through (all.common j here) shallow
  exact same (Nat.le_antisymm shallow shallow')

/-- What is routed for one participant is routed for all. -/
theorem route_alone (built : Topology.build components = .ok router.sensor.topology) {routed one : List RoutedCommand}
    (h : router.route command subject participants select scope device = .ok routed) (mem : i ∈ participants)
    (alone : router.route command subject [i] select scope device = .ok one) : ∀ r ∈ one, r ∈ routed := by
  simp only [route, bind_eq_ok, pure_eq_ok] at h alone
  obtain ⟨targets, won, rfl⟩ := h
  obtain ⟨target, won', rfl⟩ := alone
  have won := mapM_eq_ok.1 won
  intro r routed
  obtain ⟨q, there, rfl⟩ := List.mem_map.1 routed
  obtain ⟨group, single, wins⟩ := exists_of_mem_mapM won' (List.mem_eraseDups.1 there)
  refine List.mem_map.2 ⟨q, List.mem_eraseDups.2 ?_, rfl⟩
  cases subject with
  | sensor =>
    obtain rfl : group = [i] := by simpa [partition] using single
    obtain ⟨p, here, wins'⟩ := exists_right_of_forall₂ won (x := participants) (by simp [partition])
    obtain rfl := winner_alone built wins' mem wins
    exact here
  | «instrument» =>
    obtain rfl : group = [i] := by simpa [partition] using single
    obtain ⟨p, here, wins'⟩ := exists_right_of_forall₂ won (x := [i]) (List.mem_map.2 ⟨i, mem, rfl⟩)
    cases wins.symm.trans wins'
    exact here

end CommandRouter

variable {sensor : BoundSensor} {request : CommandRequest} {participants : List Placement} {routed one : List RoutedCommand}

theorem resolve_eq_ok (h : request.resolve participants sensor = .ok routed) :
    ∃ sent, CommandRouter.route ⟨sensor⟩ request.command request.subject participants request.select request.scope
      request.device = .ok sent ∧ routed = sent.map fun r => { r with timeoutS := request.timeoutS } := by
  simp only [CommandRequest.resolve, bind_eq_ok] at h
  obtain ⟨unsupported, -, h⟩ := h
  split_ifs at h
  obtain ⟨sent, route, h⟩ := bind_eq_ok.1 h
  obtain ⟨unmet, -, h⟩ := bind_eq_ok.1 h
  cases unmet with
  | some => simp at h
  | none =>
    obtain rfl := pure_eq_ok.1 h
    exact ⟨sent, route, rfl⟩

/-- **A setting that is routed for all** is routed as for each participant alone. -/
theorem resolve_alone (built : Topology.build components = .ok sensor.topology)
    (h : request.resolve participants sensor = .ok routed) (mem : i ∈ participants)
    (alone : request.resolve [i] sensor = .ok one) : ∀ r ∈ one, r ∈ routed := by
  obtain ⟨sent, route, rfl⟩ := resolve_eq_ok h
  obtain ⟨sent', route', rfl⟩ := resolve_eq_ok alone
  intro r there
  obtain ⟨routed, one, rfl⟩ := List.mem_map.1 there
  exact List.mem_map.2 ⟨routed, CommandRouter.route_alone built route mem route' routed one, rfl⟩

theorem resolve_of_resolveShared (h : request.resolveShared participants sensor = .ok routed) :
    request.resolve participants sensor = .ok routed := by
  simp only [CommandRequest.resolveShared] at h
  split at h
  case h_1 resolved =>
    cases h
    exact resolved
  case h_2 => simp at h
  case h_3 => simp at h
  all_goals exact absurd h raiseShared_ne_ok

end SensorKit.Sensor
