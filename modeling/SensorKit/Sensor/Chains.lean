import SensorKit.Sensor.CollectCompile
import SensorKit.Sensor.Compatibility
import SensorKit.Sensor.Lifecycle
import SensorKit.Sensor.TopologyLevels

/-!
# Chains and ports by their paths

What lies on an instrument's chain, and which selectors have to be in position for it, follows from the paths of
placements. Two instruments are kept apart by one selector at most, where their paths part.
-/

namespace SensorKit.Sensor

open Lib

/-! ## Authored devices -/

mutual

/-- The devices of a component and of what is below it. -/
def Component.devices : Component → List String
  | .device d => [d.device]
  | .unit _ components => devicesOfAll components
  | .selector s ports _ => s :: devicesOfPorts ports

def devicesOfAll : List Component → List String
  | [] => []
  | c :: components => c.devices ++ devicesOfAll components

def devicesOfPorts : List Port → List String
  | [] => []
  | .mk _ components :: ports => devicesOfAll components ++ devicesOfPorts ports

end

/-- The index has a record of the device. -/
def Listed (t : TopologyIndex) (device : String) : Prop :=
  ∃ p ∈ t.records.keys, p.device = device

section Listed

variable {t t' : TopologyIndex} {path : List String} {here here' : List Placement} {selected : List (Placement × String)}
  {components root level : List Component} {device : String} {c : Component} {p : Placement}

theorem listed_recordDevices (components : List Component) :
    (∀ device, Listed t device → Listed (components.foldl (TopologyIndex.recordDevice path here selected) t) device) ∧
      ∀ d, .device d ∈ components →
        Listed (components.foldl (TopologyIndex.recordDevice path here selected) t) d.device := by
  induction components generalizing t with
  | nil => exact ⟨fun _ => id, by simp⟩
  | cons c components ih =>
    rw [List.foldl_cons]
    obtain ⟨kept, listed⟩ := ih (t := TopologyIndex.recordDevice path here selected t c)
    have turn (device : String) (known : Listed t device) : Listed (TopologyIndex.recordDevice path here selected t c) device := by
      obtain ⟨p, mem, rfl⟩ := known
      cases c with
      | device d =>
        simp only [TopologyIndex.recordDevice]
        split_ifs <;> exact ⟨p, Dict.mem_keys_insert.2 (.inr mem), rfl⟩
      | unit => exact ⟨p, mem, rfl⟩
      | selector => exact ⟨p, mem, rfl⟩
    refine ⟨fun device known => kept device (turn device known), fun d mem => ?_⟩
    rcases List.mem_cons.1 mem with rfl | mem
    · refine kept d.device ⟨d.placement path, ?_, rfl⟩
      simp only [TopologyIndex.recordDevice]
      split_ifs <;> exact Dict.mem_keys_insert.2 (.inl rfl)
    · exact listed d mem

/-- A level lists its devices. -/
theorem listed_enter (entered : t.enter components path here selected = .ok (t', here')) :
    (∀ device, Listed t device → Listed t' device) ∧ ∀ d, .device d ∈ components → Listed t' d.device := by
  simp only [TopologyIndex.enter, bind_eq_ok, pure_eq_ok, Prod.mk.injEq] at entered
  obtain ⟨⟨t₁, shared⟩, scan, rfl, -⟩ := entered
  obtain ⟨-, segments, scanned⟩ := scannedLevel scan
  obtain ⟨kept, listed⟩ := @listed_recordDevices t₁ path (here ++ shared) selected components
  refine ⟨fun device known => kept device ?_, listed⟩
  unfold Listed
  rw [scanned.records]
  exact known

mutual

theorem listed_descend : ∀ (c : Component) {path : List String} {here : List Placement}
    {selected : List (Placement × String)} {t t' : TopologyIndex}, (∀ d, c = .device d → Listed t d.device) →
      c.descend path here selected t = .ok t' →
        (∀ device, Listed t device → Listed t' device) ∧ ∀ device ∈ c.devices, Listed t' device
  | .device d, _, _, _, _, _, own, hd => by
    cases hd
    exact ⟨fun _ => id, by simpa [Component.devices] using own d rfl⟩
  | .unit name components, _, _, _, _, _, _, hd => by
    simp only [Component.descend, bind_eq_ok] at hd
    obtain ⟨⟨t₁, here₁⟩, entered, hd⟩ := hd
    obtain ⟨kept, own⟩ := listed_enter entered
    obtain ⟨kept', listed⟩ := listed_descendAll components own hd
    exact ⟨fun device known => kept' device (kept device known), by simpa [Component.devices] using listed⟩
  | .selector s ports tags, path, _, _, t, t', _, hd => by
    simp only [Component.descend] at hd
    obtain ⟨kept, listed⟩ := listed_visitPorts ports hd
    have first : Listed t' s := kept s ⟨⟨s, path⟩, Dict.mem_keys_insert.2 (.inl rfl), rfl⟩
    refine ⟨fun device known => kept device ?_, by simpa [Component.devices] using ⟨first, listed⟩⟩
    obtain ⟨p, mem, rfl⟩ := known
    exact ⟨p, Dict.mem_keys_insert.2 (.inr mem), rfl⟩

theorem listed_descendAll : ∀ (components : List Component) {path : List String} {here : List Placement}
    {selected : List (Placement × String)} {t t' : TopologyIndex}, (∀ d, .device d ∈ components → Listed t d.device) →
      descendAll path here selected components t = .ok t' →
        (∀ device, Listed t device → Listed t' device) ∧ ∀ device ∈ devicesOfAll components, Listed t' device
  | [], _, _, _, _, _, _, hd => by
    cases hd
    exact ⟨fun _ => id, by simp [devicesOfAll]⟩
  | c :: components, _, _, _, _, _, own, hd => by
    simp only [descendAll, bind_eq_ok] at hd
    obtain ⟨t₁, first, hd⟩ := hd
    obtain ⟨kept, listed⟩ := listed_descend c (fun d is => own d (by simp [is])) first
    obtain ⟨kept', listed'⟩ := listed_descendAll components (fun d mem => kept _ (own d (by simp [mem]))) hd
    refine ⟨fun device known => kept' device (kept device known), fun device mem => ?_⟩
    rw [devicesOfAll, List.mem_append] at mem
    exact mem.elim (fun mem => kept' device (listed device mem)) (listed' device)

theorem listed_visitPorts : ∀ (ports : List Port) {path : List String} {here : List Placement}
    {selected : List (Placement × String)} {s : Placement} {t t' : TopologyIndex},
      visitPorts path here selected s ports t = .ok t' →
        (∀ device, Listed t device → Listed t' device) ∧ ∀ device ∈ devicesOfPorts ports, Listed t' device
  | [], _, _, _, _, _, _, hd => by
    cases hd
    exact ⟨fun _ => id, by simp [devicesOfPorts]⟩
  | .mk name components :: ports, _, _, _, _, _, _, hd => by
    simp only [visitPorts, Port.visit, bind_eq_ok] at hd
    obtain ⟨t₁, ⟨⟨t₂, here₂⟩, entered, first⟩, hd⟩ := hd
    obtain ⟨kept, own⟩ := listed_enter entered
    obtain ⟨kept', listed⟩ := listed_descendAll components own first
    obtain ⟨kept'', listed'⟩ := listed_visitPorts ports hd
    refine ⟨fun device known => kept'' device (kept' device (kept device known)), fun device mem => ?_⟩
    rw [devicesOfPorts, List.mem_append] at mem
    exact mem.elim (fun mem => kept'' device (listed device mem)) (listed' device)

end

theorem mem_devicesOfAll : device ∈ devicesOfAll components ↔ ∃ c ∈ components, device ∈ c.devices := by
  induction components with
  | nil => simp [devicesOfAll]
  | cons c components ih =>
    rw [devicesOfAll, List.mem_append, ih]
    simp

theorem mem_devicesOfPorts {ports : List Port} :
    device ∈ devicesOfPorts ports ↔ ∃ name components, .mk name components ∈ ports ∧ device ∈ devicesOfAll components := by
  induction ports with
  | nil => simp [devicesOfPorts]
  | cons port ports ih =>
    obtain ⟨name, components⟩ := port
    rw [devicesOfPorts, List.mem_append, ih]
    constructor
    · rintro (mem | ⟨name', components', among, mem⟩)
      · exact ⟨name, components, List.mem_cons_self, mem⟩
      · exact ⟨name', components', List.mem_cons_of_mem _ among, mem⟩
    · rintro ⟨name', components', among, mem⟩
      rcases List.mem_cons.1 among with same | among
      · obtain ⟨rfl, rfl⟩ := Port.mk.inj same
        exact .inl mem
      · exact .inr ⟨name', components', among, mem⟩

/-- The devices of a level are those of the structure. -/
theorem LevelAt.devices (h : LevelAt root path level) (mem : device ∈ devicesOfAll level) : device ∈ devicesOfAll root := by
  induction h generalizing device with
  | root => exact mem
  | child above apart below ih =>
    apply ih
    rcases below with unit | ⟨s, ports, tags, selector, among⟩
    · exact mem_devicesOfAll.2 ⟨_, unit, by simpa [Component.devices] using mem⟩
    · refine mem_devicesOfAll.2 ⟨_, selector, ?_⟩
      rw [Component.devices, List.mem_cons]
      exact .inr (mem_devicesOfPorts.2 ⟨_, _, among, mem⟩)

end Listed

/-! ## Chains -/

section Chains

variable {t : Topology} {root : List Component} {i p q : Placement} {device : String}

/-- The devices of the structure are those that are placed. -/
theorem mem_devices_iff (built : Topology.build root = .ok t) :
    device ∈ devicesOfAll root ↔ ∃ p ∈ t.placements, p.device = device := by
  obtain ⟨placed, levelled⟩ := Topology.levelled_of_build built
  constructor
  · intro mem
    have visit := Topology.visit_of_build built
    simp only [TopologyIndex.visit, bind_eq_ok] at visit
    obtain ⟨⟨t₁, here⟩, entered, descends⟩ := visit
    obtain ⟨-, own⟩ := listed_enter entered
    exact (listed_descendAll root own descends).2 device mem
  · rintro ⟨p, mem, rfl⟩
    obtain ⟨-, level, ⟨at_, shared⟩ | target⟩ := levelled.records p mem
    · obtain ⟨c, inside, shares⟩ := List.mem_filterMap.1 shared
      refine at_.devices (mem_devicesOfAll.2 ⟨c, inside, ?_⟩)
      cases c with
      | device d =>
        simp only [Component.shared] at shares
        split_ifs at shares
        have device := congrArg Placement.device (Option.some.inj shares)
        exact List.mem_singleton.2 device.symm
      | unit => cases shares
      | selector s ports tags =>
        have device := congrArg Placement.device (Option.some.inj shares)
        exact List.mem_cons.2 (.inl device.symm)
    · obtain ⟨chain, found⟩ := Dict.mem_keys.1 target
      obtain ⟨level, d, at_, -, inside, -, is⟩ := (levelled.targets p chain found).placed
      refine at_.devices (mem_devicesOfAll.2 ⟨_, inside, ?_⟩)
      rw [is]
      exact List.mem_singleton.2 rfl

/-- Chains and placements follow from the paths. -/
structure ChainsByPath (root : List Component) (t : Topology) : Prop where
  chains : ∀ p ∈ t.placements, ∀ i ∈ t.instruments,
    t.OnChain i p ↔ p = i ∨ p ∉ t.instruments ∧ p.path <+: i.path.dropLast
  distinct : t.placements.Nodup
  /-- A device of the structure has one placement, and there are no others. -/
  devices : ∀ device, device ∈ devicesOfAll root ↔ ∃ p ∈ t.placements, p.device = device
  one : ∀ p ∈ t.placements, ∀ q ∈ t.placements, p.device = q.device → p = q
  readers : ∀ p i, i ∈ t.readersOf p ↔ ∃ chain, t.chain i = .ok chain ∧ p ∈ chain
  /-- A join of steps on the same chain keeps those that are placed there. -/
  joins : ∀ i ∈ t.instruments, ∀ (c : TableCompiler) (clause : Join) (named : List String), clause.join = .sameChain →
    (∀ name ∈ named, ∃ p ∈ t.placements, c.where.get? name = some p) → ∀ name,
      name ∈ c.narrowed clause named i ↔ name ∈ named ∧ ∃ p, c.where.get? name = some p ∧ t.OnChain i p

/-- **Chains are path prefixes.** -/
theorem chainsByPath (built : Topology.build root = .ok t) : ChainsByPath root t where
  chains p hp i hi := Topology.onChain_iff built hp hi
  distinct := t.records.nodup
  devices _ := mem_devices_iff built
  one p hp q hq same := Topology.eq_of_placed built hp hq same
  readers p i := by
    rw [Topology.mem_readersOf]
    unfold Topology.OnChain Topology.chain
    simp only [Topology.lookup_eq_ok]
  joins i hi c clause named kind placed name := by
    unfold TableCompiler.narrowed
    rw [kind]
    dsimp only
    rw [List.mem_filter]
    refine and_congr_right fun listed => ?_
    obtain ⟨p, hp, found⟩ := placed name listed
    have prefixes : i.path.take p.path.length = p.path ↔ p.path <+: i.path := by
      rw [List.prefix_iff_eq_take]
      exact eq_comm
    simp only [found, Option.any_some, decide_eq_true_eq, Option.some.injEq, exists_eq_left']
    rw [prefixes, Topology.onChain_iff_prefix built hp hi]

/-- A telescope in a dome, with a guider beside a turret of two cameras. -/
def observatory : List Component :=
  [.device { device := "dome" },
    .unit "telescope" [.device { device := "mount" }, .device { device := "guider", «instrument» := true },
      .selector "turret" [.mk "left" [.device { device := "wheel" }, .device { device := "blue", «instrument» := true }],
        .mk "right" [.device { device := "red", «instrument» := true }]] []]]

theorem chainsByPath_observatory : ∃ t, Topology.build observatory = .ok t ∧ ChainsByPath observatory t ∧
    t.instruments.map Placement.path = [["telescope", "guider"], ["telescope", "left", "blue"], ["telescope", "right", "red"]] ∧
    t.OnChain ⟨"blue", ["telescope", "left", "blue"]⟩ ⟨"mount", ["telescope"]⟩ := by
  have builds : (Topology.build observatory).toOption.map (fun t => (t.instruments.map Placement.path,
      decide ((⟨"mount", ["telescope"]⟩ : Placement) ∈ t.placements ∧
        (⟨"mount", ["telescope"]⟩ : Placement) ∉ t.instruments ∧
        (⟨"blue", ["telescope", "left", "blue"]⟩ : Placement) ∈ t.instruments))) =
      some ([["telescope", "guider"], ["telescope", "left", "blue"], ["telescope", "right", "red"]], true) := by
    decide +kernel
  obtain ⟨t, built, known⟩ := Option.map_eq_some_iff.1 builds
  obtain ⟨paths, here⟩ := Prod.mk.inj known
  obtain ⟨mount, shared, blue⟩ := of_decide_eq_true here
  have built := toOption_eq_some.1 built
  have byPath := chainsByPath built
  exact ⟨t, built, byPath, paths, (byPath.chains _ mount _ blue).2 (.inr ⟨shared, by decide⟩)⟩

end Chains

/-! ## Exclusion -/

section Exclusion

variable {t : Topology} {root : List Component} {a b s s' : Placement} {port port' : String}

namespace Topology

/-- The instruments need the selector at different ports. -/
def Separates (t : Topology) (a b s : Placement) : Prop :=
  ∃ port port', t.Selects a s port ∧ t.Selects b s port' ∧ port ≠ port'

theorem Separates.symm (h : t.Separates a b s) : t.Separates b a s := by
  obtain ⟨port, port', here, there, other⟩ := h
  exact ⟨port', port, there, here, Ne.symm other⟩

/-- An instrument needs a selector at the port that its path leads through. -/
theorem Selects.leads (built : build root = .ok t) (h : t.Selects a s port) :
    (∃ level, LevelAt root a.path.dropLast level) ∧ LeadsThrough root a.path.dropLast s port := by
  obtain ⟨placed, levelled⟩ := levelled_of_build built
  obtain ⟨states, found, mem⟩ := h
  have target : a ∈ t.instruments := by
    obtain ⟨chain, chained, -⟩ := t.selectors_on_chain a states found
    exact Dict.mem_keys.2 ⟨chain, chained⟩
  obtain ⟨chain, chained⟩ := Dict.mem_keys.1 target
  have targets := levelled.targets a chain chained
  obtain ⟨level, d, at_, -⟩ := targets.placed
  obtain ⟨states', found', leads⟩ := targets.ports
  cases found'.symm.trans found
  exact ⟨⟨level, at_⟩, (leads s port).1 mem⟩

/-- **Paths part once**: one selector at most separates two instruments. -/
theorem Separates.unique (built : build root = .ok t) (h : t.Separates a b s) (h' : t.Separates a b s') : s = s' := by
  obtain ⟨port, port₁, hereA, hereB, other⟩ := h
  obtain ⟨port', port₁', thereA, thereB, other'⟩ := h'
  obtain ⟨⟨levelA, atA⟩, q, level, d, ports, tags, at_, rfl, mem, named, before⟩ := hereA.leads built
  obtain ⟨-, q', level', d', ports', tags', at', rfl, mem', named', before'⟩ := thereA.leads built
  obtain ⟨-, _, _, _, _, _, _, is, _, _, beforeB⟩ := hereB.leads built
  obtain ⟨-, rfl⟩ := Placement.mk.inj is
  obtain ⟨-, _, _, _, _, _, _, is', _, _, beforeB'⟩ := thereB.leads built
  obtain ⟨-, rfl⟩ := Placement.mk.inj is'
  -- Where one selector is above the other, both paths go on through the port that the lower one is behind.
  have above {q q' : List String} {x y x' y' : String} {u v : List String} (ne : x ≠ y) (hu : q ++ [x] <+: u)
      (hv : q ++ [y] <+: v) (hu' : q' ++ [x'] <+: u) (hv' : q' ++ [y'] <+: v) : ¬ q.length < q'.length := by
    intro less
    have first : q ++ [x] <+: q' := List.prefix_of_prefix_length_le hu ((List.prefix_append _ _).trans hu') (by simp; omega)
    have second : q ++ [y] <+: q' := List.prefix_of_prefix_length_le hv ((List.prefix_append _ _).trans hv') (by simp; omega)
    have same := List.prefix_of_prefix_length_le first second (by simp)
    have eq := same.eq_of_length (by simp)
    exact ne (by simpa using eq)
  have level_ : q.length = q'.length := by
    have le := above other before beforeB before' beforeB'
    have ge := above other' before' beforeB' before beforeB
    omega
  have whole := List.prefix_of_prefix_length_le before before' (by simp [level_])
  obtain ⟨rfl, last⟩ := List.append_inj' (whole.eq_of_length (by simp [level_])) rfl
  obtain rfl := List.singleton_inj.1 last
  obtain rfl := at_.unique at'
  obtain ⟨apart, -⟩ := atA.below_of_prefix at_ before
  obtain ⟨rfl, -, -⟩ := Component.selector.inj (apart.eq_of_segment mem mem' named named')
  rfl

/-- **What is mutually exclusive**: the selector that separates the instruments. -/
theorem mutuallyExclusive_iff (built : build root = .ok t) (ha : a ∈ t.instruments) (hb : b ∈ t.instruments) :
    ∃ selector, t.mutuallyExclusive a b = .ok selector ∧ ∀ s, selector = some s ↔ t.Separates a b s := by
  obtain ⟨states, here⟩ := exists_selectorStates built ha
  obtain ⟨others, there⟩ := exists_selectorStates built hb
  have found := lookup_eq_ok.1 here
  have found' := lookup_eq_ok.1 there
  have known {s : Placement} {port : String} (mem : (s, port) ∈ others) : (Dict.ofList others).get? s = some port :=
    Dict.get?_ofList (t.one_port b others found') mem
  have separates (s : Placement) (first : (states.find? fun state =>
      ((Dict.ofList others).get? state.1).any (· ≠ state.2)).map Prod.fst = some s) : t.Separates a b s := by
    obtain ⟨⟨s, port⟩, finds, rfl⟩ := Option.map_eq_some_iff.1 first
    have holds := List.find?_some finds
    dsimp only at holds ⊢
    obtain ⟨port', here, other⟩ := (Option.any_eq_true _ _).1 holds
    obtain ⟨⟨_, port''⟩, mem, rfl⟩ := List.mem_map.1 (Dict.mem_keys_ofList.1 (Dict.mem_keys.2 ⟨port', here⟩))
    cases here.symm.trans (known mem)
    exact ⟨port, port', ⟨states, found, List.mem_of_find?_eq_some finds⟩, ⟨others, found', mem⟩, Ne.symm (by simpa using other)⟩
  refine ⟨_, by unfold mutuallyExclusive; rw [here, there]; rfl, fun s => ⟨separates s, fun apart => ?_⟩⟩
  cases first : (states.find? fun state => ((Dict.ofList others).get? state.1).any (· ≠ state.2)).map Prod.fst with
  | some s' => rw [(separates s' first).unique built apart]
  | none =>
    obtain ⟨port, port', ⟨_, hereA, mem⟩, ⟨_, hereB, mem'⟩, other⟩ := apart
    cases hereA.symm.trans found
    cases hereB.symm.trans found'
    have agrees := List.find?_eq_none.1 (Option.map_eq_none_iff.1 first) _ mem
    dsimp only at agrees
    rw [known mem'] at agrees
    exact absurd (Ne.symm other) (by simpa using agrees)

end Topology

/-- **The derived port commands** are the positions that the participants need, each once. -/
theorem ports_eq_ok {sensor : BoundSensor} {participants : List Placement}
    (built : Topology.build root = .ok sensor.topology)
    (instruments : ∀ i ∈ participants, i ∈ sensor.topology.instruments) : ∃ commands,
      CollectCompiler.ports sensor participants = .ok commands ∧ commands.Nodup ∧
      ∀ routed, routed ∈ commands ↔ ∃ i ∈ participants, ∃ s port, sensor.topology.Selects i s port ∧
        routed = { target := s, command := .selectPort port } := by
  obtain ⟨states, traversed⟩ := exists_mapM fun i mem => Topology.exists_selectorStates built (instruments i mem)
  have needed (s : Placement) (port : String) : (s, port) ∈ states.flatten ↔
      ∃ i ∈ participants, sensor.topology.Selects i s port := by
    rw [List.mem_flatten]
    constructor
    · rintro ⟨own, listed, mem⟩
      obtain ⟨i, inside, found⟩ := exists_of_mem_mapM traversed listed
      exact ⟨i, inside, own, Topology.lookup_eq_ok.1 found, mem⟩
    · rintro ⟨i, inside, own, found, mem⟩
      obtain ⟨own', listed, found'⟩ := exists_right_of_forall₂ (mapM_eq_ok.1 traversed) inside
      obtain rfl := Option.some.inj ((Topology.lookup_eq_ok.1 found').symm.trans found)
      exact ⟨own', listed, mem⟩
  have positions (routed : RoutedCommand) : routed ∈ states.flatten.eraseDups.map (fun state =>
      ({ target := state.1, command := .selectPort state.2 } : RoutedCommand)) ↔ ∃ i ∈ participants, ∃ s port,
        sensor.topology.Selects i s port ∧ routed = { target := s, command := .selectPort port } := by
    simp only [List.mem_map, List.mem_eraseDups, Prod.exists, needed]
    constructor
    · rintro ⟨s, port, ⟨i, inside, selects⟩, rfl⟩
      exact ⟨i, inside, s, port, selects, rfl⟩
    · rintro ⟨i, inside, s, port, selects, rfl⟩
      exact ⟨s, port, ⟨i, inside, selects⟩, rfl⟩
  refine ⟨_, bind_eq_ok.2 ⟨states, traversed, rfl⟩, ?_, positions⟩
  refine List.Nodup.map (fun state other same => ?_) (nodup_eraseDups _)
  obtain ⟨target, command⟩ := (RoutedCommand.mk.injEq ..).mp same
  exact Prod.ext target (by simpa [DeviceCommand.selectPort] using command)

/-- Exclusion is symmetric, and where no pair is exclusive the port commands serve every participant. -/
structure ExclusionCoherent (sensor : BoundSensor) : Prop where
  symmetric : ∀ a ∈ sensor.topology.instruments, ∀ b ∈ sensor.topology.instruments, ∃ selector,
    sensor.topology.mutuallyExclusive a b = .ok selector ∧ sensor.topology.mutuallyExclusive b a = .ok selector ∧
    ∀ s, selector = some s ↔ sensor.topology.Separates a b s
  one : ∀ a ∈ sensor.topology.instruments, ∀ b ∈ sensor.topology.instruments, ∀ s s',
    sensor.topology.Separates a b s → sensor.topology.Separates a b s' → s = s'
  ports : ∀ participants : List Placement, (∀ i ∈ participants, i ∈ sensor.topology.instruments) →
    participants.Pairwise (fun a b => sensor.topology.mutuallyExclusive a b = .ok none) →
    ∃ commands, CollectCompiler.ports sensor participants = .ok commands ∧ (commands.map RoutedCommand.target).Nodup ∧
      ∀ routed, routed ∈ commands ↔ ∃ i ∈ participants, ∃ states, sensor.topology.selectorStates i = .ok states ∧
        ∃ state ∈ states, routed = { target := state.1, command := .selectPort state.2 }

/-- **Exclusion is coherent.** -/
theorem exclusionCoherent {sensor : BoundSensor} (built : Topology.build root = .ok sensor.topology) :
    ExclusionCoherent sensor where
  symmetric a ha b hb := by
    obtain ⟨selector, here, separates⟩ := Topology.mutuallyExclusive_iff built ha hb
    obtain ⟨selector', there, separates'⟩ := Topology.mutuallyExclusive_iff built hb ha
    have same : selector' = selector := by
      ext s
      rw [separates, separates']
      exact ⟨Topology.Separates.symm, Topology.Separates.symm⟩
    exact ⟨selector, here, same ▸ there, separates⟩
  one a _ b _ s s' := Topology.Separates.unique built
  ports participants instruments apart := by
    obtain ⟨commands, derived, nodup, positions⟩ := ports_eq_ok built instruments
    refine ⟨commands, derived, ?_, fun routed => ?_⟩
    · refine List.Nodup.map_on (fun here mem there mem' same => ?_) nodup
      obtain ⟨i, hi, s, port, selects, rfl⟩ := (positions here).1 mem
      obtain ⟨j, hj, s', port', selects', rfl⟩ := (positions there).1 mem'
      obtain rfl : s = s' := same
      rw [agree_of_pairwise apart hi hj selects selects']
    · rw [positions]
      refine exists_congr fun i => and_congr_right fun _ => ?_
      unfold Topology.Selects Topology.selectorStates
      simp only [Topology.lookup_eq_ok, Prod.exists]
      constructor
      · rintro ⟨s, port, ⟨states, found, mem⟩, rfl⟩
        exact ⟨states, found, s, port, mem, rfl⟩
      · rintro ⟨states, found, s, port, mem, rfl⟩
        exact ⟨s, port, ⟨states, found, mem⟩, rfl⟩

theorem exclusionCoherent_observatory : ∃ t, Topology.build observatory = .ok t ∧ ExclusionCoherent ⟨t, .empty, none⟩ ∧
    t.mutuallyExclusive ⟨"blue", ["telescope", "left", "blue"]⟩ ⟨"red", ["telescope", "right", "red"]⟩ =
      .ok (some ⟨"turret", ["telescope"]⟩) := by
  have builds : (Topology.build observatory).toOption.map (fun t =>
      (t.mutuallyExclusive ⟨"blue", ["telescope", "left", "blue"]⟩ ⟨"red", ["telescope", "right", "red"]⟩).toOption) =
      some (some (some ⟨"turret", ["telescope"]⟩)) := by
    decide +kernel
  obtain ⟨t, built, known⟩ := Option.map_eq_some_iff.1 builds
  have built := toOption_eq_some.1 built
  exact ⟨t, built, @exclusionCoherent observatory ⟨t, .empty, none⟩ built, toOption_eq_some.1 known⟩

end Exclusion

end SensorKit.Sensor
