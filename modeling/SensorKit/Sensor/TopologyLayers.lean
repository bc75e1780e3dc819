import SensorKit.Sensor.Topology

/-!
# Where chains part

The chains of two instruments run together from the root and then part for good. A placement on both
chains therefore has everything above it, and beside it, on both as well.
-/

namespace SensorKit.Sensor

open Lib

/-- The placements that levels share, each with those that are no deeper on its chains. -/
structure Layers where
  shared : List Placement
  upto : Placement → List Placement

namespace Layers

variable {l l' l'' : Layers} {here shared : List Placement} {c : Placement}

/-- The layers know what lies above each of the placements. -/
def Lists (l : Layers) (here : List Placement) : Prop :=
  ∀ c ∈ here, c ∈ l.shared ∧ ∀ a, a ∈ l.upto c ↔ a ∈ here ∧ a.depth ≤ c.depth

/-- What the layers know is kept. -/
def Extends (l l' : Layers) : Prop :=
  ∀ c ∈ l.shared, c ∈ l'.shared ∧ l'.upto c = l.upto c

theorem Lists.extend (h : l.Lists here) (more : l.Extends l') : l'.Lists here := by
  intro c mem
  obtain ⟨known, above⟩ := h c mem
  obtain ⟨known', same⟩ := more c known
  exact ⟨known', fun a => by rw [same, above a]⟩

/-- The layers with the placements that a level shares, below those that it finds. -/
def deepen (l : Layers) (here shared : List Placement) : Layers where
  shared := l.shared ++ shared
  upto c := if c ∈ shared then here ++ shared else l.upto c

theorem extends_deepen (fresh : ∀ c ∈ shared, c ∉ l.shared) : l.Extends (l.deepen here shared) := by
  intro c known
  have old : c ∉ shared := fun mem => fresh c mem known
  exact ⟨List.mem_append_left _ known, if_neg old⟩

theorem Lists.deepen {depth : ℕ} (h : l.Lists here) (fresh : ∀ c ∈ shared, c ∉ l.shared)
    (above : ∀ c ∈ here, c.depth < depth) (level : ∀ c ∈ shared, c.depth = depth) :
    (l.deepen here shared).Lists (here ++ shared) := by
  intro c mem
  rcases List.mem_append.1 mem with mem | mem
  · -- A placement from above has nothing of this level above it.
    obtain ⟨known, upto⟩ := h.extend (extends_deepen fresh) c mem
    refine ⟨known, fun a => ?_⟩
    rw [upto, List.mem_append]
    have shallow := above c mem
    constructor
    · rintro ⟨mem, le⟩
      exact ⟨.inl mem, le⟩
    · rintro ⟨mem | mem, le⟩
      · exact ⟨mem, le⟩
      · have deep := level a mem
        omega
  · refine ⟨List.mem_append_right _ mem, fun a => ?_⟩
    have upto : (l.deepen here shared).upto c = here ++ shared := if_pos mem
    rw [upto, level c mem, iff_self_and]
    intro mem
    rcases List.mem_append.1 mem with mem | mem
    · exact (above a mem).le
    · exact (level a mem).le

end Layers

variable {t t' : TopologyIndex} {path : List String} {components : List Component} {here here' shared : List Placement}
  {selected : List (Placement × String)} {l : Layers} {i j p q : Placement}

/-- Each chain of the index leads through layers, and ends in its instrument below them. -/
structure Layered (l : Layers) (t : TopologyIndex) : Prop where
  placed : ∀ c ∈ l.shared, t.placed.get? c.device = some c
  chains : ∀ i chain, t.chains.get? i = some chain →
    ∃ here, chain = here ++ [i] ∧ l.Lists here ∧ ∀ c ∈ here, c.depth < i.depth

/-- What a scan finds to be shared lies at the level. -/
theorem depth_of_scan (h : t.scan components path = .ok (t', shared)) : ∀ c ∈ shared, c.depth = path.length := by
  simp only [TopologyIndex.scan, bind_eq_ok] at h
  obtain ⟨⟨t₁, shared₁, segments⟩, folded, h⟩ := h
  split_ifs at h
  obtain ⟨-, rfl⟩ : t₁ = t' ∧ shared₁ = shared := by simpa [pure_eq_ok] using h
  refine foldlM_invariant (fun s => ∀ c ∈ s.2.1, c.depth = path.length) folded (by simp) ?_
  rintro ⟨t₁, shared₁, segments₁⟩ ⟨t₂, shared₂, segments₂⟩ component - inv turn
  cases component with
  | device d =>
    simp only [TopologyIndex.scanNode, bind_eq_ok, pure_eq_ok] at turn
    obtain ⟨t₃, -, turn⟩ := turn
    split_ifs at turn with inst
    · cases turn
      exact inv
    · cases turn
      intro c mem
      rcases mem_snoc.1 mem with mem | rfl
      · exact inv c mem
      · simp [Placement.depth, Device.placement, inst]
  | unit name _ =>
    cases turn
    exact inv
  | selector s ports tags =>
    simp only [TopologyIndex.scanNode, bind_eq_ok, pure_eq_ok] at turn
    obtain ⟨t₃, -, turn⟩ := turn
    cases turn
    intro c mem
    rcases mem_snoc.1 mem with mem | rfl
    · exact inv c mem
    · rfl

/-- Recording the devices of a level adds the chains of its instruments. -/
theorem chains_of_recordDevices (components : List Component) {chain : List Placement}
    (found : (components.foldl (TopologyIndex.recordDevice path here selected) t).chains.get? i = some chain) :
    t.chains.get? i = some chain ∨ chain = here ++ [i] ∧ i.depth = path.length + 1 := by
  induction components generalizing t with
  | nil => exact .inl found
  | cons c components ih =>
    rcases ih found with found | new
    · cases c with
      | device d =>
        simp only [TopologyIndex.recordDevice] at found
        split_ifs at found with inst
        · simp only [Dict.get?_insert] at found
          split_ifs at found with same
          · cases found
            subst same
            exact .inr ⟨rfl, by simp [Placement.depth, Device.placement, inst]⟩
          · exact .inl found
        · exact .inl found
      | unit => exact .inl found
      | selector => exact .inl found
    · exact .inr new

theorem placed_of_recordDevices (components : List Component) :
    (components.foldl (TopologyIndex.recordDevice path here selected) t).placed = t.placed := by
  induction components generalizing t with
  | nil => rfl
  | cons c components ih =>
    rw [List.foldl_cons, ih]
    cases c with
    | device d =>
      simp only [TopologyIndex.recordDevice]
      split_ifs <;> rfl
    | unit => rfl
    | selector => rfl

namespace Layered

/-- A level adds a layer. -/
theorem enter (h : Layered l t) (above : l.Lists here) (shallow : ∀ c ∈ here, c.depth < path.length)
    (he : t.enter components path here selected = .ok (t', here')) :
    ∃ l', l.Extends l' ∧ Layered l' t' ∧ l'.Lists here' ∧ ∀ c ∈ here', c.depth ≤ path.length := by
  simp only [TopologyIndex.enter, bind_eq_ok, pure_eq_ok] at he
  obtain ⟨⟨t₁, shared⟩, scan, he⟩ := he
  obtain ⟨rfl, rfl⟩ : components.foldl (TopologyIndex.recordDevice path (here ++ shared) selected) t₁ = t' ∧
    here ++ shared = here' := by simpa using he
  have scanned := Scanned.of_scan scan
  have level := depth_of_scan scan
  have fresh (c : Placement) (mem : c ∈ shared) : c ∉ l.shared := by
    intro known
    have before := (scanned.shared_placed c mem).2
    simp [h.placed c known] at before
  have lists := above.deepen fresh shallow level
  have bounded (c : Placement) (mem : c ∈ here ++ shared) : c.depth ≤ path.length := by
    rcases List.mem_append.1 mem with mem | mem
    · exact (shallow c mem).le
    · exact (level c mem).le
  refine ⟨l.deepen here shared, Layers.extends_deepen fresh, ⟨fun c mem => ?_, fun i chain found => ?_⟩, lists, bounded⟩
  · rw [placed_of_recordDevices]
    rcases List.mem_append.1 mem with mem | mem
    · exact scanned.kept _ _ (h.placed c mem)
    · exact (scanned.shared_placed c mem).1
  · rcases chains_of_recordDevices components found with found | ⟨rfl, depth⟩
    · rw [scanned.chains] at found
      obtain ⟨here₁, eq, lists₁, below⟩ := h.chains i chain found
      exact ⟨here₁, eq, lists₁.extend (Layers.extends_deepen fresh), below⟩
    · refine ⟨here ++ shared, rfl, lists, fun c mem => ?_⟩
      have := bounded c mem
      omega

/-- A visit keeps the layers apart. -/
theorem visiting : Visiting Layers.Extends Layered
    (fun l path here _ => l.Lists here ∧ ∀ c ∈ here, c.depth < path.length)
    (fun l path here _ _ => l.Lists here ∧ ∀ c ∈ here, c.depth ≤ path.length) where
  refl _ _ known := ⟨known, rfl⟩
  trans more more' c known := by
    obtain ⟨known, same⟩ := more c known
    obtain ⟨known, same'⟩ := more' c known
    exact ⟨known, same'.trans same⟩
  more more level := ⟨level.1.extend more, level.2⟩
  records _ h := ⟨h.placed, h.chains⟩
  enter h way entered := by
    obtain ⟨l', more, h, level⟩ := h.enter way.1 way.2 entered
    exact ⟨l', more, h, level⟩
  «unit» _ level := ⟨level.1, fun c mem => by simpa using Nat.lt_succ_of_le (level.2 c mem)⟩
  port _ level _ := ⟨level.1, fun c mem => by simpa using Nat.lt_succ_of_le (level.2 c mem)⟩

theorem visit (h : TopologyIndex.visit components = .ok t) : ∃ l, Layered l t :=
  visiting.visit ⟨by simp, by simp⟩ ⟨by simp [Layers.Lists], by simp⟩ (s := ⟨[], fun _ => []⟩) h

end Layered

namespace Topology

variable {t : Topology}

theorem visit_of_build (built : build components = .ok t) : TopologyIndex.visit components = .ok t.toTopologyIndex := by
  unfold build at built
  split at built
  · simp at built
  · rename_i visited
    rw [visited, ← Except.ok.inj built]

/-- **Chains part for good.** A placement no deeper than one on both chains is on both. -/
theorem onChain_of_shallower (built : build components = .ok t) (hp : t.OnChain i p) (hq : t.OnChain i q)
    (other : t.OnChain j q) (depth : p.depth ≤ q.depth) : t.OnChain j p := by
  by_cases apart : i = j
  · exact apart ▸ hp
  obtain ⟨l, layered⟩ := Layered.visit (visit_of_build built)
  -- An instrument is on no chain but its own, so the common placement is on the shared part of both.
  have shared {i j : Placement} {here : List Placement} (found : t.chains.get? i = some (here ++ [i]))
      (hq : q ∈ here ++ [i]) (other : t.OnChain j q) (apart : i ≠ j) : q ∈ here := by
    rcases mem_snoc.1 hq with mem | rfl
    · exact mem
    · obtain ⟨chain, chained, mem⟩ := other
      exact absurd (t.own_instrument j chain chained q mem (Dict.mem_keys.2 ⟨_, found⟩)) apart
  obtain ⟨chain, found, memp⟩ := hp
  obtain ⟨chain', found', memq⟩ := hq
  cases found.symm.trans found'
  obtain ⟨here, rfl, lists, below⟩ := layered.chains i chain found
  have onI : t.OnChain i q := ⟨_, found, memq⟩
  have common := shared found memq other apart
  obtain ⟨chain', chained, memq'⟩ := other
  obtain ⟨here', rfl, lists', -⟩ := layered.chains j chain' chained
  have common' := shared chained memq' onI (Ne.symm apart)
  refine ⟨_, chained, List.mem_append_left _ (((lists' q common').2 p).1 (((lists q common).2 p).2 ⟨?_, depth⟩)).1⟩
  rcases mem_snoc.1 memp with mem | rfl
  · exact mem
  · have := below q common
    omega

/-! ## Positions -/

/-- Each instrument has its selector positions. -/
def Positioned (t : TopologyIndex) : Prop :=
  ∀ i ∈ t.chains.keys, i ∈ t.ports.keys

theorem positioned_of_recordDevices {t : TopologyIndex} {path : List String} {here : List Placement}
    {selected : List (Placement × String)} (components : List Component) (h : Positioned t) :
    Positioned (components.foldl (TopologyIndex.recordDevice path here selected) t) := by
  induction components generalizing t with
  | nil => exact h
  | cons c components ih =>
    apply ih
    cases c with
    | device d =>
      simp only [TopologyIndex.recordDevice]
      split_ifs
      · intro i mem
        rw [Dict.mem_keys_insert] at mem ⊢
        exact mem.imp_right (h i)
      · exact h
    | unit => exact h
    | selector => exact h

/-- A visit keeps the positions with the instruments. -/
theorem visiting_positioned : Visiting (fun _ _ : Unit => True) (fun _ t => Positioned t)
    (fun _ _ _ _ => True) (fun _ _ _ _ _ => True) where
  refl _ := trivial
  trans _ _ := trivial
  more _ _ := trivial
  records _ h := h
  enter h _ entered := by
    simp only [TopologyIndex.enter, bind_eq_ok, pure_eq_ok, Prod.mk.injEq] at entered
    obtain ⟨⟨t₁, shared⟩, scanned, rfl, rfl⟩ := entered
    have scanned := Scanned.of_scan scanned
    refine ⟨(), trivial, positioned_of_recordDevices _ ?_, trivial⟩
    intro i mem
    rw [scanned.chains] at mem
    rw [scanned.ports]
    exact h i mem
  «unit» _ _ := trivial
  port _ _ _ := trivial

/-- **Each instrument's selector positions are known.** -/
theorem exists_selectorStates (built : build components = .ok t) (mem : i ∈ t.instruments) :
    ∃ states, t.selectorStates i = .ok states := by
  obtain ⟨-, known⟩ := visiting_positioned.visit (s := ()) (by simp [Positioned, Dict.keys, Dict.empty]) trivial
    (visit_of_build built)
  obtain ⟨states, found⟩ := Dict.mem_keys.1 (known i mem)
  exact ⟨states, lookup_eq_ok.2 found⟩

theorem exists_chain (mem : i ∈ t.instruments) : ∃ chain, t.chain i = .ok chain := by
  obtain ⟨chain, found⟩ := Dict.mem_keys.1 mem
  exact ⟨chain, lookup_eq_ok.2 found⟩

end Topology

end SensorKit.Sensor
