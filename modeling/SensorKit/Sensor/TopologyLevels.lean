import SensorKit.Sensor.TopologyLayers

/-!
# The levels of a structure

A level is reached by the names of the units and ports around it. Since siblings are named apart, its path determines
it. So the chains of instruments are prefixes of their paths, and the selectors that have to be in position for an
instrument are those whose ports its path leads through.
-/

namespace SensorKit.Sensor

open Lib

/-! ## Levels -/

/-- The path segments that a component of a level adds. -/
def Component.segments : Component → List String
  | .device d => if d.instrument then [d.device] else []
  | .unit name _ => [name]
  | .selector _ ports _ => ports.map Port.name

/-- The placement that a component of a level shares. -/
def Component.shared (path : List String) : Component → Option Placement
  | .device d => if d.instrument then none else some (d.placement path)
  | .unit .. => none
  | .selector s _ _ => some ⟨s, path⟩

/-- The components of a level are named apart. -/
def NamedApart (level : List Component) : Prop :=
  (level.flatMap Component.segments).Nodup

/-- The components of a unit or a port of the level. -/
def Below (level : List Component) (name : String) (components : List Component) : Prop :=
  .unit name components ∈ level ∨ ∃ s ports tags, .selector s ports tags ∈ level ∧ .mk name components ∈ ports

/-- The level of a structure at a path, below levels whose components are named apart. -/
inductive LevelAt (root : List Component) : List String → List Component → Prop
  | root : LevelAt root [] root
  | child {path : List String} {level : List Component} {name : String} {components : List Component} :
    LevelAt root path level → NamedApart level → Below level name components →
      LevelAt root (path ++ [name]) components

/-- The placement is shared by a level at the path, or above it. -/
def Above (root : List Component) (path : List String) (p : Placement) : Prop :=
  ∃ q level, q <+: path ∧ LevelAt root q level ∧ p ∈ level.filterMap (Component.shared q)

/-- The path leads through the port of the selector. -/
def LeadsThrough (root : List Component) (path : List String) (s : Placement) (port : String) : Prop :=
  ∃ q level d ports tags, LevelAt root q level ∧ s = ⟨d, q⟩ ∧ .selector d ports tags ∈ level ∧
    port ∈ ports.map Port.name ∧ q ++ [port] <+: path

variable {root level level' components : List Component} {path q : List String} {name : String} {c c' : Component}
  {p s : Placement}

/-- Among lists without a common element, an element tells its list. -/
theorem eq_of_mem_flatMap {α β : Type} {f : α → List β} {l : List α} (nodup : (l.flatMap f).Nodup) {a b : α} {x : β}
    (ha : a ∈ l) (hb : b ∈ l) (mem : x ∈ f a) (mem' : x ∈ f b) : a = b := by
  induction l with
  | nil => cases ha
  | cons c l ih =>
    rw [List.flatMap_cons] at nodup
    obtain ⟨-, rest, apart⟩ := List.nodup_append.1 nodup
    rcases List.mem_cons.1 ha with rfl | ha'
    · rcases List.mem_cons.1 hb with rfl | hb'
      · rfl
      · exact absurd rfl (apart x mem x (List.mem_flatMap.2 ⟨b, hb', mem'⟩))
    · rcases List.mem_cons.1 hb with rfl | hb'
      · exact absurd rfl (apart x mem' x (List.mem_flatMap.2 ⟨a, ha', mem⟩))
      · exact ih rest ha' hb'

namespace NamedApart

theorem eq_of_segment {n : String} (h : NamedApart level) (mem : c ∈ level) (mem' : c' ∈ level) (named : n ∈ c.segments)
    (named' : n ∈ c'.segments) : c = c' :=
  eq_of_mem_flatMap h mem mem' named named'

theorem ports_nodup (h : NamedApart level) {s : String} {ports : List Port} {tags : List String}
    (mem : .selector s ports tags ∈ level) : (ports.map Port.name).Nodup :=
  (List.nodup_flatMap.1 h).1 _ mem

/-- The component that a name leads below is told by the name. -/
theorem below_unique {components' : List Component} (h : NamedApart level) (below : Below level name components)
    (below' : Below level name components') : components = components' := by
  rcases below with unit | ⟨s, ports, tags, mem, port⟩
  · rcases below' with unit' | ⟨s', ports', tags', mem', port'⟩
    · have same := h.eq_of_segment (n := name) unit unit' (by simp [Component.segments]) (by simp [Component.segments])
      exact (Component.unit.inj same).2
    · have named' : name ∈ ports'.map Port.name := List.mem_map_of_mem (f := Port.name) port'
      cases h.eq_of_segment (n := name) unit mem' (by simp [Component.segments]) named'
  · have named : name ∈ ports.map Port.name := List.mem_map_of_mem (f := Port.name) port
    rcases below' with unit' | ⟨s', ports', tags', mem', port'⟩
    · cases h.eq_of_segment (n := name) mem unit' named (by simp [Component.segments])
    · have named' : name ∈ ports'.map Port.name := List.mem_map_of_mem (f := Port.name) port'
      cases h.eq_of_segment mem mem' named named'
      have same := List.inj_on_of_nodup_map (h.ports_nodup mem) port port' rfl
      exact (Port.mk.inj same).2

end NamedApart

namespace LevelAt

/-- **A level is determined by its path.** -/
theorem unique (h : LevelAt root path level) (h' : LevelAt root path level') : level = level' := by
  induction h generalizing level' with
  | root =>
    generalize at_ : ([] : List String) = path at h'
    cases h' with
    | root => rfl
    | child => simp at at_
  | @child path₁ level₁ name components above apart below ih =>
    generalize at_ : path₁ ++ [name] = path at h'
    cases h' with
    | root => simp at at_
    | child above' apart' below' =>
      obtain ⟨rfl, last⟩ := List.append_inj' at_ rfl
      obtain rfl := List.singleton_inj.1 last
      obtain rfl := ih above'
      exact apart.below_unique below below'

/-- The component of a level whose name a path goes on with. -/
theorem below_of_prefix (h : LevelAt root path level) {level' : List Component} (at_ : LevelAt root q level')
    (before : q ++ [name] <+: path) : NamedApart level' ∧ ∃ components, Below level' name components := by
  induction h with
  | root => simp at before
  | @child path₁ level₁ name₁ components above apart below ih =>
    rcases List.prefix_concat_iff.1 before with same | before
    · obtain ⟨rfl, last⟩ := List.append_inj' same rfl
      obtain rfl := List.singleton_inj.1 last
      obtain rfl := above.unique at_
      exact ⟨apart, components, below⟩
    · exact ih before

end LevelAt

theorem mem_shared (mem : c ∈ level) (shares : c.shared q = some p) : p ∈ level.filterMap (Component.shared q) :=
  List.mem_filterMap.2 ⟨c, mem, shares⟩

theorem path_of_shared (mem : p ∈ level.filterMap (Component.shared q)) : p.path = q := by
  obtain ⟨c, -, shares⟩ := List.mem_filterMap.1 mem
  cases c with
  | device d =>
    simp only [Component.shared] at shares
    split_ifs at shares with inst
    cases shares
    simp [Device.placement, inst]
  | unit => cases shares
  | selector =>
    cases shares
    rfl

/-- What is above a level's children is above the level, or shared there. -/
theorem above_iff (at_ : LevelAt root path level) : Above root path p ↔
    (∃ q level, q <+: path ∧ q ≠ path ∧ LevelAt root q level ∧ p ∈ level.filterMap (Component.shared q)) ∨
      p ∈ level.filterMap (Component.shared path) := by
  constructor
  · rintro ⟨q, level', before, at', shared⟩
    by_cases here : q = path
    · subst here
      obtain rfl := at_.unique at'
      exact .inr shared
    · exact .inl ⟨q, level', before, here, at', shared⟩
  · rintro (⟨q, level', before, -, at', shared⟩ | shared)
    · exact ⟨q, level', before, at', shared⟩
    · exact ⟨path, level, List.prefix_refl _, at_, shared⟩

theorem above_child : Above root path p ↔ ∃ q level, q <+: path ++ [name] ∧ q ≠ path ++ [name] ∧ LevelAt root q level ∧
    p ∈ level.filterMap (Component.shared q) := by
  constructor
  · rintro ⟨q, level, before, at_, shared⟩
    refine ⟨q, level, before.trans (List.prefix_append _ _), fun same => ?_, at_, shared⟩
    have length := before.length_le
    rw [same, List.length_append, List.length_singleton] at length
    omega
  · rintro ⟨q, level, before, other, at_, shared⟩
    exact ⟨q, level, (List.prefix_concat_iff.1 before).resolve_left other, at_, shared⟩

/-! ## Scanned levels -/

variable {t t' : TopologyIndex} {here here' shared : List Placement} {selected : List (Placement × String)}

/-- A device of the component is known to be where the component says. -/
def Component.PlacedIn (placed : Dict String Placement) (path : List String) : Component → Prop
  | .device d => placed.get? d.device = some (d.placement path)
  | .unit .. => True
  | .selector s _ _ => placed.get? s = some ⟨s, path⟩

theorem Component.PlacedIn.mono {placed placed' : Dict String Placement} (h : c.PlacedIn placed path)
    (kept : ∀ d p, placed.get? d = some p → placed'.get? d = some p) : c.PlacedIn placed' path := by
  cases c with
  | device d => exact kept _ _ h
  | unit => trivial
  | selector s => exact kept _ _ h

/-- **What a scan accepts**: components that are named apart, and whose devices are placed. -/
structure ScannedLevel (path : List String) (t : TopologyIndex) (components : List Component) (t' : TopologyIndex)
    (shared : List Placement) (segments : List String) : Prop where
  records : t'.records = t.records
  shared : shared = components.filterMap (Component.shared path)
  segments : segments = components.flatMap Component.segments
  placed : ∀ c ∈ components, c.PlacedIn t'.placed path

theorem ScannedLevel.scanNode {segments segments' : List String} {t'' : TopologyIndex} {shared' : List Placement}
    (h : ScannedLevel path t components t' shared segments)
    (turn : TopologyIndex.scanNode path (t', shared, segments) c = .ok (t'', shared', segments')) :
    ScannedLevel path t (components ++ [c]) t'' shared' segments' := by
  have claimed {device : String} {q : Placement} {t₁ : TopologyIndex} (claims : t'.claim device q = .ok t₁) :
      t₁.records = t'.records ∧ t₁.placed.get? device = some q ∧
        ∀ d p, t'.placed.get? d = some p → t₁.placed.get? d = some p := by
    obtain ⟨free, rfl⟩ := TopologyIndex.claim_eq_ok claims
    refine ⟨rfl, Dict.get?_insert_self, fun d p known => ?_⟩
    have other : d ≠ device := by
      rintro rfl
      rw [free] at known
      cases known
    rw [Dict.get?_insert_of_ne other]
    exact known
  have all {t₁ : TopologyIndex} (kept : ∀ d p, t'.placed.get? d = some p → t₁.placed.get? d = some p)
      (here : c.PlacedIn t₁.placed path) : ∀ c' ∈ components ++ [c], c'.PlacedIn t₁.placed path := by
    intro c' mem
    rcases mem_snoc.1 mem with mem | rfl
    · exact (h.placed c' mem).mono kept
    · exact here
  cases c with
  | device d =>
    simp only [TopologyIndex.scanNode, bind_eq_ok, pure_eq_ok] at turn
    obtain ⟨t₁, claims, turn⟩ := turn
    obtain ⟨records, placed, kept⟩ := claimed claims
    split_ifs at turn with inst
    · obtain ⟨rfl, rfl, rfl⟩ : t₁ = t'' ∧ shared = shared' ∧ segments ++ [d.device] = segments' := by simpa using turn
      exact ⟨records.trans h.records, by simp [h.shared, Component.shared, inst],
        by simp [h.segments, Component.segments, inst], all kept placed⟩
    · obtain ⟨rfl, rfl, rfl⟩ : t₁ = t'' ∧ shared ++ [d.placement path] = shared' ∧ segments = segments' := by simpa using turn
      exact ⟨records.trans h.records, by simp [h.shared, Component.shared, inst],
        by simp [h.segments, Component.segments, inst], all kept placed⟩
  | unit name _ =>
    obtain ⟨rfl, rfl, rfl⟩ : t' = t'' ∧ shared = shared' ∧ segments ++ [name] = segments' := by
      simpa [TopologyIndex.scanNode, pure_eq_ok] using turn
    exact ⟨h.records, by simp [h.shared, Component.shared], by simp [h.segments, Component.segments],
      all (fun _ _ => id) trivial⟩
  | selector s ports tags =>
    simp only [TopologyIndex.scanNode, bind_eq_ok, pure_eq_ok] at turn
    obtain ⟨t₁, claims, turn⟩ := turn
    obtain ⟨records, placed, kept⟩ := claimed claims
    obtain ⟨rfl, rfl, rfl⟩ : t₁ = t'' ∧ shared ++ [⟨s, path⟩] = shared' ∧ segments ++ ports.map Port.name = segments' := by
      simpa using turn
    exact ⟨records.trans h.records, by simp [h.shared, Component.shared],
      by simp [h.segments, Component.segments], all kept placed⟩

theorem scannedLevel (h : t.scan components path = .ok (t', shared)) : NamedApart components ∧
    ∃ segments, ScannedLevel path t components t' shared segments := by
  simp only [TopologyIndex.scan, bind_eq_ok] at h
  obtain ⟨⟨t₁, shared₁, segments⟩, folded, h⟩ := h
  split_ifs at h with dupes
  obtain ⟨rfl, rfl⟩ : t₁ = t' ∧ shared₁ = shared := by simpa [pure_eq_ok] using h
  have scanned := foldlM_invariant_prefix (fun pre (s : TopologyIndex × List Placement × List String) =>
    ScannedLevel path t pre s.1 s.2.1 s.2.2) folded ⟨rfl, rfl, rfl, by simp⟩ fun pre c post s s' _ inv turn => by
      obtain ⟨t₂, shared₂, segments₂⟩ := s
      obtain ⟨t₃, shared₃, segments₃⟩ := s'
      exact inv.scanNode turn
  refine ⟨?_, segments, scanned⟩
  have all : segments = components.flatMap Component.segments := scanned.segments
  unfold NamedApart
  rw [← all]
  refine List.nodup_iff_count_le_one.2 fun x => ?_
  by_contra more
  have repeated : x ∈ segments.filter fun s => 1 < segments.count s := by
    have positive : 0 < segments.count x := by omega
    refine List.mem_filter.2 ⟨List.count_pos_iff.1 positive, ?_⟩
    simpa using more
  have listed := (List.mem_insertionSort (· ≤ ·)).2 (List.mem_dedup.2 repeated)
  rw [not_not.1 dupes] at listed
  exact List.not_mem_nil listed

/-! ## What the index lists -/

/-- A path leads through a port above it, or goes on with one. -/
theorem leadsThrough_child {port : String} {s : Placement} (at_ : LevelAt root path level) :
    LeadsThrough root (path ++ [name]) s port ↔ LeadsThrough root path s port ∨
      port = name ∧ ∃ d ports tags, s = ⟨d, path⟩ ∧ .selector d ports tags ∈ level ∧ port ∈ ports.map Port.name := by
  constructor
  · rintro ⟨q, level', d, ports, tags, at', rfl, mem, named, before⟩
    rcases List.prefix_concat_iff.1 before with same | before
    · obtain ⟨rfl, last⟩ := List.append_inj' same rfl
      obtain rfl := List.singleton_inj.1 last
      obtain rfl := at_.unique at'
      exact .inr ⟨rfl, d, ports, tags, rfl, mem, named⟩
    · exact .inl ⟨q, level', d, ports, tags, at', rfl, mem, named, before⟩
  · rintro (⟨q, level', d, ports, tags, at', rfl, mem, named, before⟩ | ⟨rfl, d, ports, tags, rfl, mem, named⟩)
    · exact ⟨q, level', d, ports, tags, at', rfl, mem, named, before.trans (List.prefix_append _ _)⟩
    · exact ⟨path, level, d, ports, tags, at_, rfl, mem, named, List.prefix_refl _⟩

/-- The instrument's chain and ports are those of its level. -/
structure Targets (root : List Component) (ports : Dict Placement (List (Placement × String))) (i : Placement)
    (chain : List Placement) : Prop where
  placed : ∃ level d, LevelAt root i.path.dropLast level ∧ NamedApart level ∧ .device d ∈ level ∧ d.instrument = true ∧
    i = d.placement i.path.dropLast
  chain : ∀ p, p ∈ chain ↔ Above root i.path.dropLast p ∨ p = i
  ports : ∃ states, ports.get? i = some states ∧ ∀ s port, (s, port) ∈ states ↔ LeadsThrough root i.path.dropLast s port

/-- **What the index lists** is what the levels of the structure have. -/
structure Levelled (root : List Component) (placed : Dict String Placement) (t : TopologyIndex) : Prop where
  claims : t.placed = placed
  records : ∀ p ∈ t.records.keys, placed.get? p.device = some p ∧ ∃ level,
    (LevelAt root p.path level ∧ p ∈ level.filterMap (Component.shared p.path)) ∨ p ∈ t.chains.keys
  recorded : ∀ i ∈ t.chains.keys, i ∈ t.records.keys
  targets : ∀ i chain, t.chains.get? i = some chain → Targets root t.ports i chain

/-- What is known of a level that is visited. -/
structure Visited (root : List Component) (placed : Dict String Placement) (path : List String) (here : List Placement)
    (selected : List (Placement × String)) (level : List Component) : Prop where
  at_ : LevelAt root path level
  apart : NamedApart level
  placed : ∀ c ∈ level, c.PlacedIn placed path
  here : ∀ p, p ∈ here ↔ Above root path p
  selected : ∀ s port, (s, port) ∈ selected ↔ LeadsThrough root path s port

/-- What is known on the way to a level. -/
structure OnWay (root : List Component) (path : List String) (here : List Placement)
    (selected : List (Placement × String)) (level : List Component) : Prop where
  at_ : LevelAt root path level
  here : ∀ p, p ∈ here ↔ ∃ q level, q <+: path ∧ q ≠ path ∧ LevelAt root q level ∧ p ∈ level.filterMap (Component.shared q)
  selected : ∀ s port, (s, port) ∈ selected ↔ LeadsThrough root path s port

namespace Levelled

variable {placed placed' : Dict String Placement}

/-- Recording the devices of a level. -/
theorem recordDevices (visited : Visited root placed path here selected level) (components : List Component)
    (inside : ∀ c ∈ components, c ∈ level) (h : Levelled root placed t) :
    Levelled root placed (components.foldl (TopologyIndex.recordDevice path here selected) t) := by
  induction components generalizing t with
  | nil => exact h
  | cons c components ih =>
    rw [List.foldl_cons]
    refine ih (fun c mem => inside c (by simp [mem])) ?_
    have mem := inside c List.mem_cons_self
    cases c with
    | device d =>
      have known : placed.get? d.device = some (d.placement path) := visited.placed _ mem
      simp only [TopologyIndex.recordDevice]
      split_ifs with inst
      · have path' : (d.placement path).path.dropLast = path := by simp [Device.placement, inst]
        refine ⟨h.claims, fun p listed => ?_, fun i listed => ?_, fun i chain found => ?_⟩
        · rcases Dict.mem_keys_insert.1 listed with rfl | listed
          · exact ⟨known, level, .inr (Dict.mem_keys_insert.2 (.inl rfl))⟩
          · obtain ⟨claimed, level', way⟩ := h.records p listed
            exact ⟨claimed, level', way.imp_right fun key => Dict.mem_keys_insert.2 (.inr key)⟩
        · exact Dict.mem_keys_insert.2 ((Dict.mem_keys_insert.1 listed).imp_right (h.recorded i))
        · dsimp only at found
          rw [Dict.get?_insert] at found
          split_ifs at found with same
          · cases found
            subst same
            refine ⟨?_, fun p => ?_, selected, Dict.get?_insert_self, ?_⟩
            · rw [path']
              exact ⟨level, d, visited.at_, visited.apart, mem, inst, rfl⟩
            · rw [path', List.mem_append, List.mem_singleton, visited.here]
            · rw [path']
              exact visited.selected
          · obtain ⟨placed', chain', states, has, ports⟩ := h.targets i chain found
            exact ⟨placed', chain', states, by rw [Dict.get?_insert_of_ne same]; exact has, ports⟩
      · refine ⟨h.claims, fun p listed => ?_, fun i listed => Dict.mem_keys_insert.2 (.inr (h.recorded i listed)), h.targets⟩
        rcases Dict.mem_keys_insert.1 listed with rfl | listed
        · have path' : (d.placement path).path = path := by simp [Device.placement, inst]
          refine ⟨known, level, .inl ?_⟩
          rw [path']
          exact ⟨visited.at_, mem_shared mem (by simp [Component.shared, inst])⟩
        · exact h.records p listed
    | unit => exact h
    | selector => exact h

theorem enter (h : Levelled root placed t) (way : OnWay root path here selected components)
    (entered : t.enter components path here selected = .ok (t', here')) : ∃ placed',
      (∀ d p, placed.get? d = some p → placed'.get? d = some p) ∧ Levelled root placed' t' ∧
        Visited root placed' path here' selected components := by
  simp only [TopologyIndex.enter, bind_eq_ok, pure_eq_ok] at entered
  obtain ⟨⟨t₁, shared⟩, scan, entered⟩ := entered
  obtain ⟨rfl, rfl⟩ : components.foldl (TopologyIndex.recordDevice path (here ++ shared) selected) t₁ = t' ∧
    here ++ shared = here' := by simpa using entered
  have scanned := Scanned.of_scan scan
  obtain ⟨apart, segments, level⟩ := scannedLevel scan
  have visited : Visited root t₁.placed path (here ++ shared) selected components := by
    refine ⟨way.at_, apart, level.placed, fun p => ?_, way.selected⟩
    rw [above_iff way.at_, List.mem_append, way.here, level.shared]
  refine ⟨t₁.placed, fun d p known => ?_, recordDevices visited components (fun _ => id) ?_, visited⟩
  · rw [← h.claims] at known
    exact scanned.kept d p known
  · refine ⟨rfl, fun p mem => ?_, fun i mem => ?_, fun i chain found => ?_⟩
    · rw [level.records] at mem
      obtain ⟨claimed, level', way⟩ := h.records p mem
      rw [← h.claims] at claimed
      exact ⟨scanned.kept _ _ claimed, level', by rw [scanned.chains]; exact way⟩
    · rw [scanned.chains] at mem
      rw [level.records]
      exact h.recorded i mem
    · rw [scanned.chains] at found
      obtain ⟨placed', chain', ports⟩ := h.targets i chain found
      exact ⟨placed', chain', by rw [scanned.ports]; exact ports⟩

/-- **A visit lists what the levels have.** -/
theorem traversal (root : List Component) : Traversal
    (fun placed placed' : Dict String Placement => ∀ d p, placed.get? d = some p → placed'.get? d = some p)
    (Levelled root) (fun _ => OnWay root) (Visited root) where
  refl _ _ _ known := known
  trans more more' d p known := more' d p (more d p known)
  more more visited := { visited with placed := fun c mem => (visited.placed c mem).mono more }
  records {placed t path here selected level d ports tags} h visited mem := by
    refine ⟨h.claims, fun p listed => ?_, fun i listed => Dict.mem_keys_insert.2 (.inr (h.recorded i listed)), h.targets⟩
    rcases Dict.mem_keys_insert.1 listed with rfl | listed
    · exact ⟨visited.placed _ mem, level, .inl ⟨visited.at_, mem_shared mem rfl⟩⟩
    · exact h.records p listed
  enter h way entered := h.enter way entered
  «unit» {placed path here selected level name components} visited mem := by
    refine ⟨.child visited.at_ visited.apart (.inl mem), fun p => ?_, fun s port => ?_⟩
    · rw [visited.here, above_child]
    · rw [visited.selected, leadsThrough_child visited.at_, or_iff_left]
      rintro ⟨rfl, d, ports, tags, -, mem', named⟩
      cases visited.apart.eq_of_segment (n := port) mem mem' (by simp [Component.segments]) named
  port {placed path here selected level d ports tags name components} visited mem among := by
    have named : name ∈ ports.map Port.name := List.mem_map_of_mem (f := Port.name) among
    refine ⟨.child visited.at_ visited.apart (.inr ⟨d, ports, tags, mem, among⟩), fun p => ?_, fun s port => ?_⟩
    · rw [visited.here, above_child]
    · rw [List.mem_append, List.mem_singleton, Prod.mk.injEq, visited.selected, leadsThrough_child visited.at_]
      refine or_congr_right ⟨fun ⟨is, same⟩ => ?_, fun ⟨same, d', ports', tags', is, mem', named'⟩ => ?_⟩
      · subst same
        exact ⟨rfl, d, ports, tags, is, mem, named⟩
      · subst same
        obtain ⟨rfl, -, -⟩ := Component.selector.inj (visited.apart.eq_of_segment mem mem' named named')
        exact ⟨is, rfl⟩

theorem visit (h : TopologyIndex.visit root = .ok t) : ∃ placed, Levelled root placed t := by
  refine (traversal root).visit (s := .empty) ⟨rfl, by simp [Dict.keys, Dict.empty], by simp [Dict.keys, Dict.empty], by simp⟩
    ⟨.root, fun p => ?_, fun s port => ?_⟩ h
  · simp
  · simp [LeadsThrough]

end Levelled

/-! ## Chains and paths -/

namespace Topology

variable {t : Topology} {i j : Placement}

section

variable (built : build root = .ok t)
include built

theorem levelled_of_build : ∃ placed, Levelled root placed t.toTopologyIndex :=
  Levelled.visit (visit_of_build built)

/-- **A device has one placement.** -/
theorem eq_of_placed (hp : p ∈ t.records.keys) (hs : s ∈ t.records.keys) (same : p.device = s.device) : p = s := by
  obtain ⟨placed, levelled⟩ := levelled_of_build built
  have here := (levelled.records p hp).1
  have there := (levelled.records s hs).1
  rw [same] at here
  exact Option.some.inj (here.symm.trans there)

/-- **Chains are path prefixes.** -/
theorem onChain_iff (hp : p ∈ t.records.keys) (hi : i ∈ t.instruments) :
    t.OnChain i p ↔ p = i ∨ p ∉ t.instruments ∧ p.path <+: i.path.dropLast := by
  obtain ⟨placed, levelled⟩ := levelled_of_build built
  obtain ⟨chain, found⟩ := Dict.mem_keys.1 hi
  have target := levelled.targets i chain found
  have on : t.OnChain i p ↔ Above root i.path.dropLast p ∨ p = i := by
    rw [← target.chain p]
    exact ⟨fun ⟨chain', found', mem⟩ => Option.some.inj (found'.symm.trans found) ▸ mem, fun mem => ⟨chain, found, mem⟩⟩
  constructor
  · intro onChain
    by_cases own : p = i
    · exact .inl own
    · obtain ⟨q, level, before, -, shared⟩ := (on.1 onChain).resolve_right own
      have path := path_of_shared shared
      obtain ⟨chain', found', mem⟩ := onChain
      refine .inr ⟨fun target' => own (t.own_instrument i chain' found' p mem target'), ?_⟩
      rw [path]
      exact before
  · rintro (rfl | ⟨other, before⟩)
    · exact on.2 (.inr rfl)
    · obtain ⟨-, level, shared | target'⟩ := levelled.records p hp
      · exact on.2 (.inl ⟨p.path, level, before, shared.1, shared.2⟩)
      · exact absurd target' other

/-- An instrument's path goes on from its level with the device. -/
theorem path_of_instrument (hi : i ∈ t.instruments) : i.path = i.path.dropLast ++ [i.device] := by
  obtain ⟨placed, levelled⟩ := levelled_of_build built
  obtain ⟨chain, found⟩ := Dict.mem_keys.1 hi
  obtain ⟨level, d, -, -, -, inst, is⟩ := (levelled.targets i chain found).placed
  have path : i.path = i.path.dropLast ++ [d.device] := by
    conv_lhs => rw [is]
    simp [Device.placement, inst]
  have device : i.device = d.device := by
    rw [is]
    rfl
  rw [device]
  exact path

/-- No level lies below an instrument. -/
theorem not_below_instrument (hi : i ∈ t.instruments) (at_ : LevelAt root path level) : ¬ i.path <+: path := by
  intro before
  obtain ⟨placed, levelled⟩ := levelled_of_build built
  obtain ⟨chain, found⟩ := Dict.mem_keys.1 hi
  obtain ⟨level', d, at', apart, mem, inst, is⟩ := (levelled.targets i chain found).placed
  have device : i.device = d.device := by
    rw [is]
    rfl
  have segment : i.device ∈ (Component.device d).segments := by simp [Component.segments, inst, device]
  rw [path_of_instrument built hi] at before
  obtain ⟨-, components, unit | ⟨s, ports, tags, mem', among⟩⟩ := at_.below_of_prefix at' before
  · cases apart.eq_of_segment (n := i.device) mem unit segment (by simp [Component.segments])
  · have named : i.device ∈ ports.map Port.name := List.mem_map_of_mem (f := Port.name) among
    cases apart.eq_of_segment mem mem' segment named

/-- **What lies on the chain of an instrument** has a path that is a prefix of the instrument's. -/
theorem onChain_iff_prefix (hp : p ∈ t.records.keys) (hi : i ∈ t.instruments) : t.OnChain i p ↔ p.path <+: i.path := by
  have path := path_of_instrument built hi
  obtain ⟨placed, levelled⟩ := levelled_of_build built
  obtain ⟨chain, found⟩ := Dict.mem_keys.1 hi
  obtain ⟨level, d, at_, -⟩ := (levelled.targets i chain found).placed
  rw [onChain_iff built hp hi]
  constructor
  · rintro (rfl | ⟨-, before⟩)
    · exact List.prefix_refl _
    · rw [path]
      exact before.trans (List.prefix_append _ _)
  · intro before
    rw [path, List.prefix_concat_iff] at before
    by_cases target : p ∈ t.instruments
    · -- Another instrument on the way would have levels below it.
      have whole := before.resolve_right (not_below_instrument built target at_)
      rw [path_of_instrument built target] at whole
      obtain ⟨-, device⟩ := List.append_inj' whole rfl
      exact .inl (eq_of_placed built hp (levelled.recorded i hi) (List.singleton_inj.1 device))
    · rcases before with whole | before
      · obtain ⟨-, level', shared | target'⟩ := levelled.records p hp
        · have same : i.path = p.path := path.trans whole.symm
          exact absurd (same ▸ List.prefix_refl _) (not_below_instrument built hi shared.1)
        · exact absurd target' target
      · exact .inr ⟨target, before⟩

end

end Topology

end SensorKit.Sensor
