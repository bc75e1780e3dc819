import SensorKit.Sensor.Collect

/-!
# Settings and instruments that share an epoch

What the checks of an epoch establish: a placement is asked for one command of a type, no two instruments
need one selector in different positions, and no setting targets a selector whose position follows from
the instruments.
-/

namespace SensorKit.Sensor

open Lib

variable {sensor : BoundSensor} {t : Topology} {participants : List Placement} {held held' : Held}
  {r r' : RoutedCommand} {origin «where» : String} {i j s : Placement} {port port' : String}

/-! ## One command of a type -/

/-- Each setting is held under its own key. -/
def Keyed (held : Held) : Prop :=
  ∀ k v, held.get? k = some v → v.1.governs = k

/-- The setting is held. -/
def Holds (held : Held) (r : RoutedCommand) : Prop :=
  (held.get? r.governs).map Prod.fst = some r

theorem keyed_empty : Keyed .empty := by
  intro k v found
  simp at found

theorem Keyed.put (h : Keyed held) (hp : Sensor.put held r origin «where» = .ok held') : Keyed held' := by
  intro k v found
  rcases put_eq_ok hp with ⟨-, rfl⟩ | ⟨_, _, _, _, _, rfl⟩
  · rw [Dict.get?_insert] at found
    split_ifs at found with same
    · rw [← Option.some.inj found, same]
    · exact h k v found
  · exact h k v found

/-- The setting that is merged is held from then on. -/
theorem holds_of_put (h : Keyed held) (hp : put held r origin «where» = .ok held') : Holds held' r := by
  unfold Holds
  rcases put_eq_ok hp with ⟨-, rfl⟩ | ⟨seen, by_, found, command, timeout, rfl⟩
  · simp
  · have governs := h _ _ found
    have target : seen.target = r.target := congrArg Prod.fst governs
    rw [found, Option.map_some]
    cases seen
    cases r
    simp_all

theorem Holds.put (h : Holds held r') (hp : Sensor.put held r origin «where» = .ok held') : Holds held' r' := by
  unfold Holds at *
  rcases put_eq_ok hp with ⟨free, rfl⟩ | ⟨_, _, _, _, _, rfl⟩
  · have other : r'.governs ≠ r.governs := by
      intro same
      rw [same, free] at h
      simp at h
    rwa [Dict.get?_insert_of_ne other]
  · exact h

/-- **A placement takes one command of a type.** -/
theorem Holds.eq (h : Holds held r) (h' : Holds held r') (same : r.governs = r'.governs) : r = r' := by
  unfold Holds at h h'
  rw [same, h'] at h
  exact (Option.some.inj h).symm

theorem Holds.mem_keys (h : Holds held r) : r.governs ∈ held.keys := by
  obtain ⟨v, found, -⟩ := Option.map_eq_some_iff.1 h
  exact Dict.mem_keys.2 ⟨v, found⟩

/-- What a traversal of settings merges is held. -/
theorem holds_of_putAll {rs : List RoutedCommand} (h : Keyed held)
    (hp : rs.foldlM (fun held r => put held r origin «where») held = .ok held') :
    Keyed held' ∧ (∀ r, Holds held r → Holds held' r) ∧ ∀ r ∈ rs, Holds held' r := by
  refine foldlM_invariant_prefix (fun pre (held' : Held) =>
    Keyed held' ∧ (∀ r, Holds held r → Holds held' r) ∧ ∀ r ∈ pre, Holds held' r) hp
    ⟨h, fun _ => id, by simp⟩ fun pre r post held₁ held₂ _ inv turn => ?_
  refine ⟨inv.1.put turn, fun r' before => (inv.2.1 r' before).put turn, fun r' mem => ?_⟩
  rcases mem_snoc.1 mem with mem | rfl
  · exact (inv.2.2 r' mem).put turn
  · exact holds_of_put inv.1 turn

/-! ## Selector positions -/

/-- The instrument needs the selector at the port. -/
def Topology.Selects (t : Topology) (i s : Placement) (port : String) : Prop :=
  ∃ states, t.ports.get? i = some states ∧ (s, port) ∈ states

namespace Topology

theorem Selects.onChain (h : t.Selects i s port) : t.OnChain i s := by
  obtain ⟨states, found, mem⟩ := h
  obtain ⟨chain, chained, inside⟩ := t.selectors_on_chain i states found
  exact ⟨chain, chained, inside s (List.mem_map_of_mem mem)⟩

/-- An instrument needs a selector at one port. -/
theorem Selects.eq (h : t.Selects i s port) (h' : t.Selects i s port') : port = port' := by
  obtain ⟨states, found, mem⟩ := h
  obtain ⟨states', found', mem'⟩ := h'
  cases found.symm.trans found'
  exact congrArg Prod.snd (List.inj_on_of_nodup_map (t.one_port i states found) mem mem' rfl)

/-- Instruments that are not mutually exclusive agree on their selectors. -/
theorem Selects.agree (compatible : t.mutuallyExclusive i j = .ok none) (h : t.Selects i s port)
    (h' : t.Selects j s port') : port = port' := by
  obtain ⟨states, found, mem⟩ := h
  obtain ⟨states', found', mem'⟩ := h'
  simp only [mutuallyExclusive, selectorStates, lookup_eq_ok, bind_eq_ok, pure_eq_ok] at compatible
  obtain ⟨others, hj, states₁, hi, none⟩ := compatible
  cases hi.symm.trans found
  obtain rfl := Option.some.inj (hj.symm.trans found')
  have agrees := List.find?_eq_none.1 (Option.map_eq_none_iff.1 none) _ mem
  have there := Dict.get?_ofList (t.one_port j others found') mem'
  simp only [there, Option.any_some, decide_eq_true_eq, not_not] at agrees
  exact agrees.symm

end Topology

theorem exclusive_eq_ok (h : exclusive sensor «where» participants = .ok ()) :
    participants.Pairwise fun i j => sensor.topology.mutuallyExclusive i j = .ok none := by
  induction participants with
  | nil => exact .nil
  | cons i participants ih =>
    simp only [exclusive, bind_eq_ok] at h
    obtain ⟨_, here, rest⟩ := h
    refine .cons (fun j mem => ?_) (ih rest)
    have turn := forM_eq_ok.1 here j mem
    obtain ⟨selector, checks, turn⟩ := bind_eq_ok.1 turn
    cases selector with
    | none => exact checks
    | some => simp at turn

/-- Instruments of which no pair is mutually exclusive agree on their selectors. -/
theorem agree_of_pairwise (pairwise : participants.Pairwise fun i j => sensor.topology.mutuallyExclusive i j = .ok none)
    (hi : i ∈ participants) (hj : j ∈ participants) (here : sensor.topology.Selects i s port)
    (there : sensor.topology.Selects j s port') : port = port' := by
  by_cases same : i = j
  · subst same
    exact here.eq there
  · have either : sensor.topology.mutuallyExclusive i j = .ok none ∨
        sensor.topology.mutuallyExclusive j i = .ok none := by
      let R (a b : Placement) : Prop := sensor.topology.mutuallyExclusive a b = .ok none ∨
        sensor.topology.mutuallyExclusive b a = .ok none
      have symmetric : Std.Symm R := ⟨fun _ _ => Or.symm⟩
      have pairwise : participants.Pairwise R := pairwise.imp .inl
      exact pairwise.forall hi hj same
    rcases either with free | free
    · exact here.agree free there
    · exact (there.agree free here).symm

/-- **Instruments of an epoch agree on their selectors.** -/
theorem selects_agree (h : exclusive sensor «where» participants = .ok ()) (hi : i ∈ participants)
    (hj : j ∈ participants) (here : sensor.topology.Selects i s port) (there : sensor.topology.Selects j s port') :
    port = port' :=
  agree_of_pairwise (exclusive_eq_ok h) hi hj here there

/-- **No setting targets a selector whose position follows from the instruments.** -/
theorem not_selects_of_positioned (h : positioned held participants sensor «where» = .ok ()) (hi : i ∈ participants)
    {k : Placement × CommandType} (key : k ∈ held.keys) : ¬ sensor.topology.Selects i k.1 port := by
  rintro ⟨states, found, mem⟩
  simp only [positioned, bind_eq_ok] at h
  obtain ⟨all, traversed, h⟩ := h
  split_ifs at h with none
  · obtain ⟨states', listed, same⟩ := exists_right_of_forall₂ (mapM_eq_ok.1 traversed) hi
    cases (Topology.lookup_eq_ok.1 same).symm.trans found
    have commanded : k.1.device ∈ ((held.keys.filter (·.1 ∈ all.flatten.map Prod.fst)).map
        (·.1.device)).dedup.insertionSort (· ≤ ·) := by
      rw [List.mem_insertionSort, List.mem_dedup]
      refine List.mem_map.2 ⟨k, List.mem_filter.2 ⟨key, ?_⟩, rfl⟩
      exact decide_eq_true (List.mem_map.2 ⟨_, List.mem_flatten.2 ⟨_, listed, mem⟩, rfl⟩)
    rw [none] at commanded
    exact absurd commanded List.not_mem_nil

end SensorKit.Sensor
