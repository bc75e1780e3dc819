import SensorKit.Sensor.Compatibility
import SensorKit.Sensor.RoutingAlone

/-!
# How requests are packed

Packing splits the requests of each authored epoch into consecutive groups and binds each group as an
epoch of its own. Instruments are chosen once for an assignment group, and suit all its segments. The
settings of a bound epoch are those of the authored epoch and of the requests, as each participant needs
them.
-/

namespace SensorKit.Sensor

open Lib

variable {sensor : BoundSensor} {components : List Component} {participants : List Placement} {held held' : Held}
  {origin «where» : String} {assigned : Assigned} {epoch : RequestEpoch} {members : Members} {request : InstrumentRequest}
  {targets : List Placement} {target : Placement} {groups : Groups} {intent : CollectIntent}

/-! ## The settings of a group -/

/-- A traversal that routes settings and merges them holds what it routes. -/
theorem holds_of_merge {route : CommandRequest → Except PlanningError (List RoutedCommand)}
    {settings : List CommandRequest} (h : Keyed held)
    (merges : settings.foldlM (fun held setting => do
      (← route setting).foldlM (fun held r => put held r origin «where») held) held = .ok held') :
    Keyed held' ∧ (∀ r, Holds held r → Holds held' r) ∧
      ∀ setting ∈ settings, ∃ routed, route setting = .ok routed ∧ ∀ r ∈ routed, Holds held' r := by
  refine foldlM_invariant_prefix (fun pre (held' : Held) => Keyed held' ∧ (∀ r, Holds held r → Holds held' r) ∧
    ∀ setting ∈ pre, ∃ routed, route setting = .ok routed ∧ ∀ r ∈ routed, Holds held' r) merges
    ⟨h, fun _ => id, by simp⟩ fun pre setting post held₁ held₂ _ inv turn => ?_
  obtain ⟨keyed, before, done⟩ := inv
  obtain ⟨routed, routes, turn⟩ := bind_eq_ok.1 turn
  obtain ⟨keyed, kept, new⟩ := holds_of_putAll keyed turn
  refine ⟨keyed, fun r here => kept r (before r here), fun setting' mem => ?_⟩
  rcases mem_snoc.1 mem with mem | rfl
  · obtain ⟨routed', routes', all⟩ := done setting' mem
    exact ⟨routed', routes', fun r here => kept r (all r here)⟩
  · exact ⟨routed, routes, new⟩

/-- What a group of requests with their instruments is held to. -/
structure HeldTo (sensor : BoundSensor) (assigned : Assigned) (epoch : RequestEpoch) (held : Held) : Prop where
  keyed : Keyed held
  shared : ∀ setting ∈ epoch.settings, ∃ routed,
    setting.resolve (assigned.flatMap Prod.snd).eraseDups sensor = .ok routed ∧ ∀ r ∈ routed, Holds held r
  own : ∀ a ∈ assigned, ∀ setting ∈ a.1.settings, ∃ routed,
    setting.resolve a.2 sensor = .ok routed ∧ ∀ r ∈ routed, Holds held r

theorem heldTo_of_settled (h : settled sensor assigned epoch «where» = .ok held) :
    HeldTo sensor assigned epoch held := by
  simp only [settled, bind_eq_ok] at h
  obtain ⟨held₁, shared, own⟩ := h
  obtain ⟨keyed, -, shared⟩ := holds_of_merge keyed_empty shared
  have inv := foldlM_invariant_prefix (fun pre (held : Held) => Keyed held ∧ (∀ r, Holds held₁ r → Holds held r) ∧
    ∀ a ∈ pre, ∀ setting ∈ a.1.settings, ∃ routed, setting.resolve a.2 sensor = .ok routed ∧ ∀ r ∈ routed, Holds held r)
    own ⟨keyed, fun _ => id, by simp⟩ ?_
  · obtain ⟨keyed, kept, own⟩ := inv
    refine ⟨keyed, fun setting mem => ?_, own⟩
    obtain ⟨routed, routes, all⟩ := shared setting mem
    exact ⟨routed, resolve_of_resolveShared routes, fun r here => kept r (all r here)⟩
  · rintro pre ⟨request, targets⟩ post held₂ held₃ - ⟨keyed, before, done⟩ turn
    obtain ⟨keyed, kept, new⟩ := holds_of_merge keyed turn
    refine ⟨keyed, fun r here => kept r (before r here), fun a mem setting asked => ?_⟩
    rcases mem_snoc.1 mem with mem | rfl
    · obtain ⟨routed, routes, all⟩ := done a mem setting asked
      exact ⟨routed, routes, fun r here => kept r (all r here)⟩
    · exact new setting asked

/-- The setting routes for the instrument alone, and the settings have what it routes to. -/
def Established (sensor : BoundSensor) (settings : List RoutedCommand) (instrument : Placement)
    (setting : CommandRequest) : Prop :=
  ∃ routed, setting.resolve [instrument] sensor = .ok routed ∧ ∀ r ∈ routed, r ∈ settings

/-- What a group needs of each of its participants: settings that are compatible, and selector positions that nothing
else commands. -/
structure Compatible (sensor : BoundSensor) (participants : List Placement) (settings : List RoutedCommand) : Prop where
  ports : ∀ i ∈ participants, ∀ j ∈ participants, ∀ selector port port', sensor.topology.Selects i selector port →
    sensor.topology.Selects j selector port' → port = port'
  one_command : (settings.map RoutedCommand.governs).Nodup
  underived : ∀ r ∈ settings, ∀ i ∈ participants, ∀ port, ¬ sensor.topology.Selects i r.target port

theorem mem_participants : target ∈ (assigned.flatMap Prod.snd).eraseDups ↔ ∃ a ∈ assigned, target ∈ a.2 := by
  rw [List.mem_eraseDups, List.mem_flatMap]

namespace CollectPacker

variable {c c' : CollectPacker} {settings : List RoutedCommand}

/-- **The settings of a group.** -/
theorem compatible_of_resolved (built : Topology.build components = .ok c.sensor.topology)
    (h : c.resolved assigned epoch «where» = .ok settings) :
    Compatible c.sensor (assigned.flatMap Prod.snd).eraseDups settings ∧
      ∀ a ∈ assigned, ∀ target ∈ a.2, ∀ setting ∈ epoch.settings ++ a.1.settings,
        (∃ routed, setting.resolve [target] c.sensor = .ok routed) → Established c.sensor settings target setting := by
  simp only [resolved, bind_eq_ok, pure_eq_ok] at h
  obtain ⟨_, exclusive, held, settled, _, positioned, rfl⟩ := h
  have heldTo := heldTo_of_settled settled
  have listed {r : RoutedCommand} (here : Holds held r) : r ∈ held.values.map Prod.fst := by
    obtain ⟨v, found, rfl⟩ := Option.map_eq_some_iff.1 here
    exact List.mem_map_of_mem (Dict.mem_values.2 ⟨_, found⟩)
  have governs : (held.values.map Prod.fst).map RoutedCommand.governs = held.keys := by
    unfold Dict.values Dict.keys
    rw [List.map_map, List.map_map]
    exact List.map_congr_left fun e mem => heldTo.keyed _ _ (Dict.get?_eq_some.2 mem)
  refine ⟨⟨fun i hi j hj s port port' => selects_agree exclusive hi hj, governs ▸ held.nodup, ?_⟩, ?_⟩
  · intro r mem i here port
    have key : r.governs ∈ held.keys := governs ▸ List.mem_map_of_mem mem
    exact not_selects_of_positioned positioned here key
  · rintro a mem target on setting asked ⟨routed, alone⟩
    refine ⟨routed, alone, fun r here => listed ?_⟩
    rcases List.mem_append.1 asked with asked | asked
    · obtain ⟨all, routes, holds⟩ := heldTo.shared setting asked
      exact holds r (resolve_alone built routes (mem_participants.2 ⟨a, mem, on⟩) alone r here)
    · obtain ⟨all, routes, holds⟩ := heldTo.own a mem setting asked
      exact holds r (resolve_alone built routes on alone r here)

end CollectPacker

/-! ## The instruments of a group -/

/-- The instrument satisfies the request's selection, and its chain the requirements. -/
structure Meets (sensor : BoundSensor) (request : InstrumentRequest) (placement : Placement) : Prop where
  selected : ∀ s, request.select = some s → s.matches placement (some sensor) = .ok true
  required : ∃ chain, sensor.topology.chain placement = .ok chain ∧
    ∀ requirement ∈ request.requires, requirement.reaches chain (some sensor) = .ok true

theorem meets_of_admits (h : request.admits target sensor = .ok true) : Meets sensor request target := by
  have required (h : (do
      let chain ← sensor.topology.chain target
      request.requires.allM fun r : Selection => r.reaches chain (some sensor)) = .ok true) :
      ∃ chain, sensor.topology.chain target = .ok chain ∧
        ∀ requirement ∈ request.requires, requirement.reaches chain (some sensor) = .ok true := by
    obtain ⟨chain, found, h⟩ := bind_eq_ok.1 h
    exact ⟨chain, found, allM_eq_ok h⟩
  unfold InstrumentRequest.admits at h
  cases select : request.select with
  | none =>
    rw [select] at h
    exact ⟨fun s same => by simp [select] at same, required h⟩
  | some s =>
    rw [select] at h
    obtain ⟨selected, selects, h⟩ := bind_eq_ok.1 h
    cases selected with
    | false => simp [pure_eq_ok] at h
    | true =>
      refine ⟨fun s' same => ?_, required h⟩
      cases select.symm.trans same
      exact selects

/-- The instruments suit all members of an assignment group. -/
structure Suits (sensor : BoundSensor) (members : Members) (targets : List Placement) : Prop where
  nonempty : targets ≠ []
  nodup : targets.Nodup
  instruments : ∀ target ∈ targets, target ∈ sensor.topology.instruments
  meets : ∀ target ∈ targets, ∀ m ∈ members, Meets sensor m.1 target
  routes : ∀ target ∈ targets, ∀ m ∈ members, ∀ setting ∈ m.2.settings ++ m.1.settings,
    ∃ routed, setting.resolve [target] sensor = .ok routed

theorem Suits.alone (h : Suits sensor members targets) (mem : target ∈ targets) : Suits sensor members [target] := by
  have only {p : Placement} (here : p ∈ [target]) : p ∈ targets := List.mem_singleton.1 here ▸ mem
  exact ⟨by simp, List.nodup_singleton target, fun p here => h.instruments p (only here),
    fun p here => h.meets p (only here), fun p here => h.routes p (only here)⟩

theorem resolves_of_establishes (h : establishes members target sensor = .ok ()) : ∀ m ∈ members,
    ∀ setting ∈ m.2.settings ++ m.1.settings, ∃ routed, setting.resolve [target] sensor = .ok routed := by
  intro m mem setting asked
  have turn := forM_eq_ok.1 (forM_eq_ok.1 h m mem) setting asked
  obtain ⟨routed, routes, -⟩ := bind_eq_ok.1 turn
  exact ⟨routed, routes⟩

theorem suits_of_eligible (h : eligible members sensor «where» = .ok targets) : Suits sensor members targets := by
  simp only [eligible, bind_eq_ok] at h
  obtain ⟨admitted, kept, h⟩ := h
  split_ifs at h
  obtain ⟨⟨refused, settled⟩, loop, h⟩ := bind_eq_ok.1 h
  split_ifs at h with none_
  obtain rfl := pure_eq_ok.1 h
  have inv := foldlM_invariant_prefix (fun pre (state : Option String × List Placement) =>
    state.2.Sublist pre ∧ ∀ p ∈ state.2, establishes members p sensor = .ok ()) loop ⟨.slnil, by simp⟩ ?_
  · obtain ⟨sub, establish⟩ := inv
    have inside {p : Placement} (mem : p ∈ settled) := mem_of_keepM kept (sub.subset mem)
    refine ⟨none_, ?_, fun p mem => (inside mem).1, fun p mem m here => ?_,
      fun p mem => resolves_of_establishes (establish p mem)⟩
    · exact (sub.trans (keepM_sublist kept)).nodup sensor.topology.chains.nodup
    · exact meets_of_admits (allM_eq_ok (inside mem).2 m here)
  · rintro pre p post ⟨refused₁, settled₁⟩ ⟨refused₂, settled₂⟩ - ⟨sub, establish⟩ turn
    simp only [settles] at turn
    split at turn
    · rename_i settles
      cases turn
      refine ⟨sub.append (List.Sublist.refl [p]), fun p' mem => ?_⟩
      rcases List.mem_append.1 mem with mem | mem
      · exact establish p' mem
      · exact List.mem_singleton.1 mem ▸ settles
    · cases turn
      exact ⟨sub.trans (List.sublist_append_left pre [p]), establish⟩
    · simp at turn

theorem CollectPacker.suits_of_options {c : CollectPacker} {key : Bool × String} {options : List (List Placement)}
    (h : c.options key «where» = .ok options) :
    options ≠ [] ∧ ∀ option ∈ options, Suits c.sensor (c.members key) option := by
  simp only [CollectPacker.options, bind_eq_ok] at h
  obtain ⟨eligible, found, h⟩ := h
  have suits := suits_of_eligible found
  split_ifs at h
  · obtain rfl := pure_eq_ok.1 h
    exact ⟨by simp, fun option mem => List.mem_singleton.1 mem ▸ suits⟩
  · obtain ⟨keyed, ranks, h⟩ := bind_eq_ok.1 h
    obtain rfl := pure_eq_ok.1 h
    have ranks := mapM_eq_ok.1 ranks
    constructor
    · intro none_
      have empty : keyed = [] := by simpa using congrArg List.length none_
      subst empty
      exact suits.nonempty (List.forall₂_nil_right_iff.1 ranks)
    · intro option mem
      obtain ⟨ranked, here, rfl⟩ := List.mem_map.1 mem
      obtain ⟨p, there, turn⟩ := exists_left_of_forall₂ ranks ((List.mem_insertionSort _).1 here)
      simp only [bind_eq_ok, pure_eq_ok] at turn
      obtain ⟨score, -, rfl⟩ := turn
      exact suits.alone there

end SensorKit.Sensor
