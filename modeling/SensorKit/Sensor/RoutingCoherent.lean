import SensorKit.Sensor.Chains
import SensorKit.Sensor.RoutingShared

/-!
# Routing under more participants

What a sensor subject's command is routed to for all participants is what it is routed to for each alone: more
participants bring more candidates, but none that is shallower than the common target. An instrument subject's command
is routed to the targets of the participants alone.
-/

namespace SensorKit.Sensor

open Lib

namespace CommandRouter

variable {router : CommandRouter} {command : DeviceCommand} {subject : Subject} {participants : List Placement}
  {select : Option Selection} {scope : Scope} {device : Option String} {i p q : Placement} {components : List Component}
  {routed : List RoutedCommand}

/-- The participants of a command that is routed have chains. -/
theorem instruments_of_reachable {reachable : List Placement} (h : router.reachable participants = .ok reachable) :
    ∀ i ∈ participants, i ∈ router.sensor.topology.instruments := by
  intro i mem
  simp only [CommandRouter.reachable, bind_eq_ok] at h
  obtain ⟨chains, visited, -⟩ := h
  obtain ⟨chain, -, found⟩ := exists_right_of_forall₂ (mapM_eq_ok.1 visited) mem
  exact Dict.mem_keys.2 ⟨chain, Topology.lookup_eq_ok.1 found⟩

/-- The named device is found among what is reachable. -/
theorem exists_restricted {reachable : List Placement} (mem : p ∈ reachable)
    (named : ∀ name, device = some name → p.device = name)
    (supports : command.modelTag ∈ router.sensor.supportedCommands p.device) :
    ∃ kept, router.restricted device reachable command.modelTag participants = .ok kept ∧
      (reachable.Nodup → kept.Nodup) := by
  cases device with
  | none => exact ⟨reachable, rfl, id⟩
  | some name =>
    obtain rfl := named name rfl
    unfold restricted CommandRouter.named
    dsimp only
    cases found : reachable.find? (·.device = p.device) with
    | none =>
      have refused := List.find?_eq_none.1 found p mem
      simp at refused
    | some placement =>
      exact ⟨[placement], if_pos supports, fun _ => List.nodup_singleton placement⟩

theorem exists_bestDepth {candidates : List Placement} (mem : p ∈ candidates) :
    ∃ q ∈ candidates, q.depth = bestDepth .sensor candidates := by
  unfold bestDepth
  have mem : p.depth ∈ candidates.map Placement.depth := List.mem_map_of_mem mem
  cases least : (candidates.map Placement.depth).min? with
  | none => simp [List.min?_eq_none_iff.1 least] at mem
  | some d => exact List.mem_map.1 (List.min?_eq_some_iff.1 least).1

/-- A candidate on every chain is kept for a sensor subject. -/
theorem exists_covering {candidates : List Placement} {t : String}
    (instruments : ∀ i ∈ participants, i ∈ router.sensor.topology.instruments) (mem : p ∈ candidates)
    (all : ∀ q ∈ participants, router.sensor.topology.OnChain q p) :
    ∃ common, router.covering candidates participants t = .ok common ∧ common.Sublist candidates := by
  have tests : RaisesOnly (fun _ => False) (keepM (fun x => participants.allM fun q => do
      return decide (x ∈ (← router.sensor.topology.chain q))) candidates) :=
    raisesOnly_keepM fun x _ =>
      raisesOnly_allM fun q mem => (chain_returns (instruments q mem)).bind fun chain _ => raisesOnly_pure _
  obtain ⟨kept, tested⟩ := returns_iff.1 tests
  have through : participants.allM (fun q => do
      return decide (p ∈ (← router.sensor.topology.chain q)) : Placement → Except PlanningError Bool) = .ok true := by
    refine allM_eq_true fun q mem => ?_
    obtain ⟨chain, found, inside⟩ := all q mem
    exact bind_eq_ok.2 ⟨chain, Topology.lookup_eq_ok.2 found, pure_eq_ok.2 (decide_eq_true inside)⟩
  have some_ : kept ≠ [] := List.ne_nil_of_mem ((mem_keepM (x := p) tested).1.2 ⟨mem, through⟩)
  refine ⟨kept, ?_, keepM_sublist tested⟩
  unfold covering
  rw [tested]
  exact if_neg some_

/-- **The shallowest candidate wins**, where each candidate is answered. -/
theorem winner_of_shallowest (some_ : participants ≠ [])
    (instruments : ∀ i ∈ participants, i ∈ router.sensor.topology.instruments)
    (answers : ∀ x, (∀ name, device = some name → x.device = name) →
      Returns (router.candidate command.modelTag participants select scope x))
    (h : Shallowest router command.modelTag participants select scope device p) :
    router.winner command .sensor participants select scope device = .ok p := by
  obtain ⟨candidate, all, least⟩ := h
  obtain ⟨reachable, reached⟩ := returns_iff.1 (reachable_returns instruments)
  obtain ⟨i, participates⟩ := List.exists_mem_of_ne_nil participants some_
  have inside : p ∈ reachable := (mem_reachable reached).2 ⟨i, participates, all i participates⟩
  obtain ⟨kept, restricted, distinct⟩ := exists_restricted inside candidate.named candidate.supports
  obtain ⟨candidates, tested⟩ := returns_iff.1 (raisesOnly_keepM fun x mem =>
    answers x ((mem_restricted reached restricted).1 mem).2)
  have listed : p ∈ candidates := (mem_candidates reached restricted tested).2 candidate
  obtain ⟨common, covered, sublist'⟩ := exists_covering (t := command.modelTag) instruments listed all
  have nodup : common.Nodup := by
    simp only [CommandRouter.reachable, bind_eq_ok, pure_eq_ok] at reached
    obtain ⟨chains, -, rfl⟩ := reached
    have kept_nodup : kept.Nodup := distinct (nodup_eraseDups _)
    exact kept_nodup.sublist (sublist'.trans (keepM_sublist tested))
  have won (x : Placement) : x ∈ common ∧ x.depth = bestDepth .sensor common ↔ x = p := by
    have common_iff (x : Placement) : x ∈ common ↔
        Candidate router command.modelTag participants select scope device x ∧
          ∀ q ∈ participants, router.sensor.topology.OnChain q x := by
      rw [mem_covering covered, mem_candidates reached restricted tested]
    have here : p ∈ common := (common_iff p).2 ⟨candidate, all⟩
    have depth : bestDepth .sensor common = p.depth := by
      obtain ⟨x, mem, is⟩ := exists_bestDepth here
      obtain ⟨cand, through⟩ := (common_iff x).1 mem
      have le := bestDepth_le here
      have ge := (least x cand through).1
      omega
    constructor
    · rintro ⟨mem, same⟩
      obtain ⟨cand, through⟩ := (common_iff x).1 mem
      exact (least x cand through).2 (same.trans depth)
    · rintro rfl
      exact ⟨here, depth.symm⟩
  have winners : ((common.filter (·.depth = bestDepth .sensor common)).insertionSort fun p q =>
      p.path < q.path ∨ p.path = q.path ∧ p.device ≤ q.device) = [p] := by
    refine List.perm_singleton.1 ((List.perm_insertionSort _ _).trans ?_)
    refine (List.perm_ext_iff_of_nodup (nodup.filter _) (List.nodup_singleton p)).2 fun x => ?_
    rw [List.mem_filter, decide_eq_true_eq, won, List.mem_singleton]
  unfold winner
  dsimp only
  rw [reached]
  simp only [bind, Except.bind, restricted, tested]
  rw [if_neg (List.ne_nil_of_mem listed)]
  simp only [CommandRouter.covered, covered, winners]
  rfl

/-- What an answer for all says of one participant. -/
theorem Shallowest.alone (built : Topology.build components = .ok router.sensor.topology) {tag : String}
    (h : Shallowest router tag participants select scope device p) (mem : i ∈ participants) :
    Shallowest router tag [i] select scope device p := by
  have through := h.common i mem
  obtain ⟨j, -, admits⟩ := h.candidate.admitted
  refine ⟨⟨h.candidate.named, h.candidate.supports, ⟨i, by simp, admits.common through⟩, h.candidate.selected⟩,
    fun k here => List.mem_singleton.1 here ▸ through, fun x cand on => ?_⟩
  rcases Nat.lt_or_ge p.depth x.depth with deeper | shallow
  · exact ⟨Nat.le_of_lt deeper, fun same => absurd same (Nat.ne_of_gt deeper)⟩
  -- What is no deeper than a common placement is common.
  obtain ⟨k, single, admits⟩ := cand.admitted
  obtain rfl := List.mem_singleton.1 single
  exact h.least x ⟨cand.named, cand.supports, ⟨k, mem, admits⟩, cand.selected⟩ fun j here =>
    Topology.onChain_of_shallower built admits.1 through (h.common j here) shallow

/-- **One target for all, and for each.** -/
theorem winner_each (built : Topology.build components = .ok router.sensor.topology)
    (h : router.winner command .sensor participants select scope device = .ok p) (mem : i ∈ participants) :
    router.winner command .sensor [i] select scope device = .ok p := by
  have instruments : ∀ i ∈ participants, i ∈ router.sensor.topology.instruments := by
    simp only [winner, bind_eq_ok] at h
    obtain ⟨reachable, reached, -⟩ := h
    exact instruments_of_reachable reached
  have one : ∀ k ∈ [i], k ∈ router.sensor.topology.instruments := by simpa using instruments i mem
  refine winner_of_shallowest (by simp) one (fun x named => ?_) ((shallowest_of_winner h).alone built mem)
  unfold candidate
  by_cases supports : command.modelTag ∈ router.sensor.supportedCommands x.device
  swap
  · rw [if_pos supports]
    exact raisesOnly_pure _
  rw [if_neg (not_not.2 supports)]
  refine RaisesOnly.bind (raisesOnly_anyM fun k mem => eligible_returns (one k mem)) ?_
  intro any_ found
  have found := anyM_eq_ok found
  cases any_ with
  | false => exact raisesOnly_pure _
  | true =>
    obtain ⟨k, single, eligible⟩ := found
    obtain rfl := List.mem_singleton.1 single
    cases select with
    | none => exact raisesOnly_pure _
    | some s => exact matches_returns h mem ((eligible_eq_ok eligible).1 rfl) named supports s rfl

/-- One participant's command is routed to its winner. -/
theorem route_single : router.route command subject [i] select scope device = .ok routed ↔
    ∃ q, router.winner command subject [i] select scope device = .ok q ∧ routed = [{ target := q, command }] := by
  have parts : partition subject [i] = [[i]] := by cases subject <;> rfl
  unfold route
  rw [parts, List.mapM_cons, List.mapM_nil]
  cases router.winner command subject [i] select scope device with
  | error e => simp [bind, Except.bind]
  | ok q =>
    simp only [bind, Except.bind, pure, Except.pure, Except.ok.injEq, exists_eq_left']
    exact eq_comm

/-- Routing for all participants and for each alone. -/
structure RoutingCoherent (router : CommandRouter) (command : DeviceCommand) (select : Option Selection) (scope : Scope)
    (device : Option String) : Prop where
  sensor : ∀ participants routed, router.route command .sensor participants select scope device = .ok routed →
    ∃ t, routed = [{ target := t, command }] ∧
      ∀ i ∈ participants, router.route command .sensor [i] select scope device = .ok [{ target := t, command }]
  /-- An instrument subject's command is routed for all if it is for each. -/
  each : ∀ participants, (∃ routed, router.route command .instrument participants select scope device = .ok routed) ↔
    ∀ i ∈ participants, ∃ one, router.route command .instrument [i] select scope device = .ok one
  union : ∀ participants routed, router.route command .instrument participants select scope device = .ok routed →
    (routed.map RoutedCommand.target).Nodup ∧ ∀ r, r ∈ routed ↔
      ∃ i ∈ participants, ∃ one, router.route command .instrument [i] select scope device = .ok one ∧ r ∈ one

/-- **Routing is coherent under adding participants.** -/
theorem routingCoherent (built : Topology.build components = .ok router.sensor.topology) (command : DeviceCommand)
    (select : Option Selection) (scope : Scope) (device : Option String) :
    RoutingCoherent router command select scope device where
  sensor participants routed h := by
    simp only [route, partition, List.mapM_cons, List.mapM_nil, bind_eq_ok, pure_eq_ok] at h
    obtain ⟨targets, ⟨t, won, rest, rfl, rfl⟩, rfl⟩ := h
    refine ⟨t, rfl, fun i mem => route_single.2 ⟨t, winner_each built won mem, rfl⟩⟩
  each participants := by
    simp only [route_single]
    constructor
    · rintro ⟨routed, h⟩ i mem
      simp only [route, bind_eq_ok] at h
      obtain ⟨targets, won, -⟩ := h
      obtain ⟨q, -, wins⟩ := exists_right_of_forall₂ (mapM_eq_ok.1 won) (x := [i]) (List.mem_map.2 ⟨i, mem, rfl⟩)
      exact ⟨_, q, wins, rfl⟩
    · intro each
      have wins : ∀ group ∈ partition .instrument participants,
          ∃ q, router.winner command .instrument group select scope device = .ok q := by
        intro group here
        obtain ⟨i, mem, rfl⟩ := List.mem_map.1 here
        obtain ⟨_, q, won, -⟩ := each i mem
        exact ⟨q, won⟩
      obtain ⟨targets, won⟩ := exists_mapM wins
      exact ⟨_, bind_eq_ok.2 ⟨targets, won, rfl⟩⟩
  union participants routed h := by
    simp only [route, bind_eq_ok, pure_eq_ok] at h
    obtain ⟨targets, won, rfl⟩ := h
    refine ⟨by simpa [List.map_map, Function.comp_def] using nodup_eraseDups targets, fun r => ?_⟩
    simp only [List.mem_map, List.mem_eraseDups, route_single]
    constructor
    · rintro ⟨q, there, rfl⟩
      obtain ⟨group, here, wins⟩ := exists_of_mem_mapM won there
      obtain ⟨i, participates, rfl⟩ := List.mem_map.1 here
      exact ⟨i, participates, _, ⟨q, wins, rfl⟩, List.mem_singleton.2 rfl⟩
    · rintro ⟨i, participates, _, ⟨q, wins, rfl⟩, single⟩
      obtain rfl := List.mem_singleton.1 single
      obtain ⟨q', there, wins'⟩ := exists_right_of_forall₂ (mapM_eq_ok.1 won) (x := [i]) (List.mem_map.2 ⟨i, participates, rfl⟩)
      cases wins.symm.trans wins'
      exact ⟨q, there, rfl⟩

def halt : DeviceCommand := ⟨⟨"Halt", none⟩, []⟩

/-- A wheel before one camera takes the command as the mount does. -/
def haltDetails : Dict String DeviceDetails :=
  .ofList [("mount", { supportedCommands := ["Halt"] }), ("wheel", { supportedCommands := ["Halt"] })]

theorem routingCoherent_observatory : ∃ t, Topology.build observatory = .ok t ∧
    RoutingCoherent ⟨⟨t, haltDetails, none⟩⟩ halt none .any none ∧
    route ⟨⟨t, haltDetails, none⟩⟩ halt .sensor
      [⟨"blue", ["telescope", "left", "blue"]⟩, ⟨"red", ["telescope", "right", "red"]⟩] none .any none =
        .ok [{ target := ⟨"mount", ["telescope"]⟩, command := halt }] := by
  have builds : (Topology.build observatory).toOption.map (fun t => (route ⟨⟨t, haltDetails, none⟩⟩ halt .sensor
      [⟨"blue", ["telescope", "left", "blue"]⟩, ⟨"red", ["telescope", "right", "red"]⟩] none .any none).toOption) =
      some (some [{ target := ⟨"mount", ["telescope"]⟩, command := halt }]) := by
    decide +kernel
  obtain ⟨t, built, routed⟩ := Option.map_eq_some_iff.1 builds
  exact ⟨t, toOption_eq_some.1 built, routingCoherent (toOption_eq_some.1 built) _ _ _ _, toOption_eq_some.1 routed⟩

end CommandRouter

end SensorKit.Sensor
