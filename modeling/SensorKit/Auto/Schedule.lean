import SensorKit.Auto.Scheduler
import SensorKit.Common.IntervalStack
import SensorKit.Common.IntervalSweep
import SensorKit.Lib.StableSort

/-!
# The schedule at an instant

After an update the schedule's intervals are disjoint. What they intend at an instant is the mode that lies on top
there, an operate mode if there is one and the last configured one of its state, with the programs that offer there,
by priority.
-/

namespace SensorKit.Auto

open Lib Common

variable {lib : IntervalTrees ℤ}

/-- The mode's evaluation contains the instant. -/
def Mode.Active (mode : Mode lib) (context : ModeContext lib) (t : ℤ) : Prop :=
  lib.Covers ((mode.evaluate context).getD lib.empty) t

instance (mode : Mode lib) (context : ModeContext lib) (t : ℤ) : Decidable (mode.Active context t) :=
  inferInstanceAs (Decidable (lib.Covers _ _))

/-- An enabled program offers at the instant. -/
def OffersAt (item : String × OfferWindows) (t : ℤ) : Prop :=
  ∃ iv ∈ item.2, iv.1 ≤ t ∧ t < iv.2

instance (item : String × OfferWindows) (t : ℤ) : Decidable (OffersAt item t) :=
  inferInstanceAs (Decidable (∃ iv ∈ _, _))

/-- The enabled programs that offer at the instant, in the order of the offers. -/
def offeringAt (offers : Dict String OfferWindows) (enabled : Finset String) (t : ℤ) : List String :=
  (offers.entries.filter fun item => item.1 ∈ enabled ∧ OffersAt item t).map Prod.fst

/-! ## Modes by priority -/

section Modes

variable {modes : List (Mode lib)}

theorem Mode.lt_iff {a b : Mode lib} : a.lt b = true ↔ a.state = .operate ∧ b.state = .standby := by
  unfold Mode.lt
  cases a.state <;> cases b.state <;> simp

theorem mem_sortModes {mode : Mode lib} : mode ∈ sortModes modes ↔ mode ∈ modes :=
  List.mem_mergeSort

private theorem not_lt_trans (a b c : Mode lib) (first : (!a.lt b) = true) (second : (!b.lt c) = true) :
    (!a.lt c) = true := by
  rw [Bool.not_eq_true', ← Bool.not_eq_true, Mode.lt_iff] at *
  rintro ⟨operate, standby⟩
  cases state : b.state with
  | operate => exact second ⟨state, standby⟩
  | standby => exact first ⟨operate, state⟩

private theorem not_lt_total (a b : Mode lib) : (!a.lt b || !b.lt a) = true := by
  unfold Mode.lt
  cases a.state <;> cases b.state <;> rfl

/-- Standby modes come before operate modes. -/
theorem sortModes_sorted (modes : List (Mode lib)) :
    (sortModes modes).Pairwise fun a b => ¬ (a.state = .operate ∧ b.state = .standby) := by
  refine (List.pairwise_mergeSort not_lt_trans not_lt_total modes).imp fun le => ?_
  rwa [Bool.not_eq_true', ← Bool.not_eq_true, Mode.lt_iff] at le

/-- Modes of one state keep their order. -/
theorem filter_sortModes (modes : List (Mode lib)) (state : ModeState) :
    (sortModes modes).filter (·.state = state) = modes.filter (·.state = state) := by
  apply filter_mergeSort not_lt_trans not_lt_total
  intro a b ha hb
  rw [Bool.not_eq_true', ← Bool.not_eq_true, Mode.lt_iff, of_decide_eq_true ha, of_decide_eq_true hb]
  cases state <;> simp

/-- The mode intended at an instant: the last configured one of its state that is active, an operate mode if one is. -/
structure OnTop (modes : List (Mode lib)) (context : ModeContext lib) (t : ℤ) (mode : Mode lib) : Prop where
  active : mode.Active context t
  last : ∃ pre post, modes = pre ++ mode :: post ∧ ∀ other ∈ post, other.state = mode.state → ¬ other.Active context t
  operate : (∃ other ∈ modes, other.state = .operate ∧ other.Active context t) → mode.state = .operate

theorem onTop_of_last {context : ModeContext lib} {t : ℤ} {mode : Mode lib} {pre post : List (Mode lib)}
    (eq : sortModes modes = pre ++ mode :: post) (active : mode.Active context t)
    (others : ∀ other ∈ post, ¬ other.Active context t) : OnTop modes context t mode := by
  refine ⟨active, ?_, ?_⟩
  · have filtered := filter_sortModes modes mode.state
    rw [eq, List.filter_append, List.filter_cons_of_pos (by simp)] at filtered
    obtain ⟨front, back, split, -, rest⟩ := List.filter_eq_append_iff.1 filtered.symm
    obtain ⟨middle, after, split', -, -, same⟩ := List.filter_eq_cons_iff.1 rest
    refine ⟨front ++ middle, after, by simp [split, split'], fun other mem state => ?_⟩
    apply others other
    have kept : other ∈ after.filter (·.state = mode.state) := List.mem_filter.2 ⟨mem, by simpa using state⟩
    rw [same] at kept
    exact (List.mem_filter.1 kept).1
  · rintro ⟨other, mem, operate, active'⟩
    have sorted := eq ▸ sortModes_sorted modes
    rw [← mem_sortModes, eq, List.mem_append, List.mem_cons] at mem
    rcases mem with before | rfl | after
    · have ordered := (List.pairwise_append.1 sorted).2.2 other before mode (List.mem_cons_self ..)
      cases state : mode.state with
      | operate => rfl
      | standby => exact absurd ⟨operate, state⟩ ordered
    · exact operate
    · exact absurd active' (others other after)

end Modes

/-! ## Programs by priority -/

section Offers

variable {s : Scheduler lib} {offers : Dict String OfferWindows} {enabled : Finset String} {t : ℤ}

/-- Each item with its priority. -/
private def Keyed (s : Scheduler lib) (keyed : List (ℤ × String × OfferWindows)) : Prop :=
  ∀ pair ∈ keyed, s.priority pair.2.1 = .ok pair.1

private theorem keyed_eq_ok (s : Scheduler lib) (items : List (String × OfferWindows))
    (configured : ∀ item ∈ items, item.1 ∈ s.programConfigs.keys) :
    ∃ keyed, (items.mapM fun item => do return (← s.priority item.1, item)) = .ok keyed ∧
      keyed.map Prod.snd = items ∧ Keyed s keyed := by
  induction items with
  | nil => exact ⟨[], rfl, rfl, by simp [Keyed]⟩
  | cons item items ih =>
    obtain ⟨keyed, maps, items_, ok⟩ := ih fun item mem => configured item (List.mem_cons_of_mem _ mem)
    obtain ⟨config, found⟩ := Dict.mem_keys.1 (configured item (List.mem_cons_self ..))
    have known : s.priority item.1 = .ok config.priority := by
      unfold Scheduler.priority
      rw [found]
    refine ⟨(config.priority, item) :: keyed, ?_, by rw [List.map_cons, items_], ?_⟩
    · rw [List.mapM_cons, maps, known]
      rfl
    · intro pair mem
      rcases List.mem_cons.1 mem with rfl | mem
      · exact known
      · exact ok pair mem

/-- The offers of the enabled programs, by priority: those of one priority keep their order. -/
theorem sortedOffers_eq_ok (configured : ∀ item ∈ offers.entries, item.1 ∈ enabled → item.1 ∈ s.programConfigs.keys) :
    ∃ sorted, s.sortedOffers offers enabled = .ok sorted ∧
      sorted.Perm (offers.entries.filter fun item => item.1 ∈ enabled) ∧
      (sorted.Pairwise fun a b => ∀ k l, s.priority a.1 = .ok k → s.priority b.1 = .ok l → k ≤ l) ∧
      ∀ k, sorted.filter (fun item => s.priority item.1 = .ok k) =
        (offers.entries.filter fun item => item.1 ∈ enabled).filter fun item => s.priority item.1 = .ok k := by
  obtain ⟨keyed, maps, items, ok⟩ := keyed_eq_ok s (offers.entries.filter fun item => item.1 ∈ enabled)
    fun item mem => configured item (List.mem_filter.1 mem).1 (by simpa using (List.mem_filter.1 mem).2)
  have trans (a b c : ℤ × String × OfferWindows) (first : decide (a.1 ≤ b.1) = true) (second : decide (b.1 ≤ c.1) = true) :
      decide (a.1 ≤ c.1) = true := by
    simp only [decide_eq_true_eq] at *
    omega
  have total (a b : ℤ × String × OfferWindows) : (decide (a.1 ≤ b.1) || decide (b.1 ≤ a.1)) = true := by
    simp only [Bool.or_eq_true, decide_eq_true_eq]
    omega
  have ok' : Keyed s (keyed.mergeSort fun a b => a.1 ≤ b.1) := fun pair mem => ok pair (List.mem_mergeSort.1 mem)
  refine ⟨(keyed.mergeSort fun a b => a.1 ≤ b.1).map Prod.snd, ?_, ?_, ?_, fun k => ?_⟩
  · unfold Scheduler.sortedOffers
    rw [maps]
    rfl
  · rw [← items]
    exact (List.mergeSort_perm keyed _).map Prod.snd
  · rw [List.pairwise_map]
    refine (List.pairwise_mergeSort trans total keyed).imp_of_mem fun mem mem' le => ?_
    intro k l here here'
    rw [ok' _ mem] at here
    rw [ok' _ mem'] at here'
    cases here
    cases here'
    exact of_decide_eq_true le
  · have keys {keyed : List (ℤ × String × OfferWindows)} (ok : Keyed s keyed) :
        (keyed.map Prod.snd).filter (fun item => s.priority item.1 = .ok k) =
          (keyed.filter fun pair => pair.1 = k).map Prod.snd := by
      rw [List.filter_map]
      congr 1
      refine List.filter_congr fun pair mem => ?_
      simp [ok pair mem]
    rw [keys ok', ← items, keys ok]
    congr 1
    apply filter_mergeSort trans total
    intro a b ha hb
    simp only [decide_eq_true_eq] at *
    omega

/-- Inputs that list no program twice offer what each program offers. -/
theorem offering_eq {items : List (String × OfferWindows)} (nodup : (items.map Prod.fst).Nodup) :
    Inputs.offering items t = (items.filter fun item => OffersAt item t).map Prod.fst := by
  unfold Inputs.offering
  rw [List.filter_map]
  congr 1
  refine List.filter_congr fun item mem => decide_eq_decide.2 ?_
  constructor
  · rintro ⟨other, mem', same, offers⟩
    obtain rfl : other = item := List.inj_on_of_nodup_map nodup mem' mem same
    exact offers
  · intro offers
    exact ⟨item, mem, rfl, offers⟩

end Offers

/-! ## The schedule -/

section Schedule

variable {s : Scheduler lib} {t : ℤ}

/-- In a disjoint schedule an instant has at most one intent. -/
theorem getIntent_exact (lawful : lib.Lawful) (disjoint : lib.Disjoint s.intervals) (t : ℤ) :
    (∃ r, s.getIntent t = .ok r) ∧ (∀ intent, s.getIntent t = .ok (some intent) ↔ lib.Holds s.intervals t intent) := by
  have nodup := lawful.nodup_at s.intervals t
  have mem := lawful.mem_at s.intervals t
  unfold Scheduler.getIntent
  generalize lib.at_ s.intervals t = found at nodup mem
  rcases found with _ | ⟨iv, _ | ⟨iv', rest⟩⟩
  · refine ⟨⟨none, rfl⟩, fun intent => ?_⟩
    constructor
    · intro h
      simp at h
    · rintro ⟨iv, there, here, -⟩
      exact absurd ((mem iv).2 ⟨there, here⟩) List.not_mem_nil
  · refine ⟨⟨some iv.data, rfl⟩, fun intent => ?_⟩
    have this := (mem iv).1 (List.mem_cons_self ..)
    constructor
    · intro h
      exact ⟨iv, this.1, this.2, by simpa using h⟩
    · rintro ⟨iv', there, here, rfl⟩
      have same := disjoint iv' there iv this.1 t here this.2
      simp [same]
  · have first := (mem iv).1 (by simp)
    have second := (mem iv').1 (by simp)
    have same := disjoint iv first.1 iv' second.1 t first.2 second.2
    simp [same] at nodup

/-- What the schedule intends at an instant: the mode on top, and the programs that offer by priority, in the order of
the offers where priorities are equal. -/
structure Intends (s : Scheduler lib) (modes : List (Mode lib)) (context : ModeContext lib)
    (offers : Dict String OfferWindows) (enabled : Finset String) (t : ℤ) (intent : ScheduleIntent) : Prop where
  mode : ∃ mode, OnTop modes context t mode ∧ intent.mode = mode.name
  offering : ∀ program, program ∈ intent.programs ↔ program ∈ offeringAt offers enabled t
  priority : intent.programs.Pairwise fun p q => ∀ k l, s.priority p = .ok k → s.priority q = .ok l → k ≤ l
  ties : ∀ k, intent.programs.filter (fun p => s.priority p = .ok k) =
    (offeringAt offers enabled t).filter fun p => s.priority p = .ok k

/-- The mode on top of the stack is the last active one. -/
theorem topmost_modes {modes : List (Mode lib)} {context : ModeContext lib} {data : ScheduleIntent} :
    topmost lib ((modes.map fun mode => (⟨mode.name, []⟩ : ScheduleIntent)).zip
        (modes.map fun mode => (mode.evaluate context).getD lib.empty)) t = some data ↔
      ∃ mode, lastOf (fun mode : Mode lib => mode.Active context t) modes = some mode ∧ data = ⟨mode.name, []⟩ := by
  rw [List.zip_map']
  unfold topmost
  rw [lastOf_map, Option.map_map, Option.map_eq_some_iff]
  constructor
  · rintro ⟨mode, last, rfl⟩
    exact ⟨mode, last, rfl⟩
  · rintro ⟨mode, last, rfl⟩
    exact ⟨mode, last, rfl⟩

/-- The programs that the combined offers list at an instant. -/
theorem offering_priority {offers : Dict String OfferWindows} {enabled : Finset String}
    {items : List (String × OfferWindows)} (perm : items.Perm (offers.entries.filter fun item => item.1 ∈ enabled))
    (ordered : items.Pairwise fun a b => ∀ k l, s.priority a.1 = .ok k → s.priority b.1 = .ok l → k ≤ l)
    (ties : ∀ k, items.filter (fun item => s.priority item.1 = .ok k) =
      (offers.entries.filter fun item => item.1 ∈ enabled).filter fun item => s.priority item.1 = .ok k) (t : ℤ) :
    (∀ program, program ∈ Inputs.offering items t ↔ program ∈ offeringAt offers enabled t) ∧
      (Inputs.offering items t).Pairwise (fun p q => ∀ k l, s.priority p = .ok k → s.priority q = .ok l → k ≤ l) ∧
      ∀ k, (Inputs.offering items t).filter (fun p => s.priority p = .ok k) =
        (offeringAt offers enabled t).filter fun p => s.priority p = .ok k := by
  have nodup : (items.map Prod.fst).Nodup := by
    rw [(perm.map Prod.fst).nodup_iff]
    exact (List.filter_sublist.map Prod.fst).nodup offers.nodup
  have here : offeringAt offers enabled t = ((offers.entries.filter fun item => item.1 ∈ enabled).filter
      fun item => OffersAt item t).map Prod.fst := by
    unfold offeringAt
    rw [List.filter_filter]
    congr 1
    refine List.filter_congr fun item _ => ?_
    simp [Bool.and_comm]
  rw [offering_eq nodup, here]
  refine ⟨fun program => ?_, ?_, fun k => ?_⟩
  · exact ((perm.filter _).map Prod.fst).mem_iff
  · rw [List.pairwise_map]
    exact ordered.sublist List.filter_sublist
  · have swap (xs : List (String × OfferWindows)) :
        ((xs.filter fun item => OffersAt item t).map Prod.fst).filter (fun p => s.priority p = .ok k) =
          ((xs.filter fun item => s.priority item.1 = .ok k).filter fun item => OffersAt item t).map Prod.fst := by
      rw [List.filter_map, List.filter_filter, List.filter_filter]
      congr 1
      refine List.filter_congr fun item _ => ?_
      simp [Bool.and_comm]
    rw [swap, swap, ties]

/-- The schedule that an update creates, where the enabled programs are configured. -/
theorem createSchedule_exact (lawful : lib.Lawful) {modes : List (Mode lib)} (sorted : s.modes = sortModes modes)
    (now : ℤ) {offers : Dict String OfferWindows} {enabled : Finset String}
    (configured : ∀ item ∈ offers.entries, item.1 ∈ enabled → item.1 ∈ s.programConfigs.keys)
    (proper : ∀ item ∈ offers.entries, item.1 ∈ enabled → ∀ iv ∈ item.2, iv.1 ≤ iv.2) :
    ∃ items, s.sortedOffers offers enabled = .ok items ∧
      let schedule := (createSchedule lib s.modes (s.evaluatedModes now) items).2
      lib.Disjoint schedule ∧ ∀ t,
        (∀ intent, lib.Holds schedule t intent → Intends s modes (s.context now) offers enabled t intent) ∧
        ((∃ mode ∈ modes, mode.Active (s.context now) t) ↔ ∃ intent, lib.Holds schedule t intent) := by
  obtain ⟨items, sorts, perm, ordered, ties⟩ := sortedOffers_eq_ok configured
  have proper' : ∀ item ∈ items, ∀ iv ∈ item.2, iv.1 ≤ iv.2 := by
    intro item mem
    obtain ⟨listed, on⟩ := List.mem_filter.1 (perm.mem_iff.1 mem)
    exact proper item listed (of_decide_eq_true on)
  obtain ⟨apart, combined⟩ := combineIntervalTrees_exact lawful proper'
  obtain ⟨stacked, onTop⟩ := stackIntervalTrees_exact lawful
    ((s.modes.map fun mode => (⟨mode.name, []⟩ : ScheduleIntent)).zip (s.evaluatedModes now))
  obtain ⟨disjoint, holds⟩ := stampIntervalTrees_exact lawful
    (fun (target : ScheduleIntent) stamp => ⟨target.mode, stamp⟩) stacked apart
  -- Whether anything is offered or not, the programs are those that the combination lists.
  have held (t : ℤ) (intent : ScheduleIntent) :
      lib.Holds (createSchedule lib s.modes (s.evaluatedModes now) items).2 t intent ↔
        ∃ mode, lastOf (fun mode : Mode lib => mode.Active (s.context now) t) s.modes = some mode ∧
          intent = ⟨mode.name, Inputs.offering items t⟩ := by
    unfold createSchedule
    dsimp only
    rw [holds]
    unfold Scheduler.evaluatedModes at onTop ⊢
    simp only [onTop, topmost_modes, combined]
    constructor
    · rintro ⟨_, ⟨mode, last, rfl⟩, ⟨_, ⟨rfl, -⟩, rfl⟩ | ⟨nothing, rfl⟩⟩
      · exact ⟨mode, last, rfl⟩
      · refine ⟨mode, last, ?_⟩
        have empty : Inputs.offering items t = [] := by
          by_contra some
          exact nothing _ ⟨rfl, some⟩
        rw [empty]
    · rintro ⟨mode, last, rfl⟩
      refine ⟨_, ⟨mode, last, rfl⟩, ?_⟩
      by_cases empty : Inputs.offering items t = []
      · exact .inr ⟨fun ds h => h.2 (h.1.trans empty), by rw [empty]⟩
      · exact .inl ⟨_, ⟨rfl, empty⟩, rfl⟩
  refine ⟨items, sorts, disjoint, fun t => ⟨fun intent there => ?_, ?_⟩⟩
  · obtain ⟨mode, last, rfl⟩ := (held t intent).1 there
    obtain ⟨active, pre, post, eq, others⟩ := exists_append_of_lastOf last
    rw [sorted] at eq
    have top := onTop_of_last eq (of_decide_eq_true active) fun other mem => of_decide_eq_false (others other mem)
    obtain ⟨offering, priority, ties⟩ := offering_priority perm ordered ties t
    exact ⟨⟨mode, top, rfl⟩, offering, priority, ties⟩
  · simp only [held]
    constructor
    · rintro ⟨mode, mem, active⟩
      cases last : lastOf (fun mode : Mode lib => decide (mode.Active (s.context now) t)) s.modes with
      | none =>
        rw [lastOf_eq_none, sorted] at last
        exact absurd active (of_decide_eq_false (last mode (mem_sortModes.2 mem)))
      | some mode => exact ⟨_, mode, rfl, rfl⟩
    · rintro ⟨_, mode, last, -⟩
      obtain ⟨active, pre, post, eq, -⟩ := exists_append_of_lastOf last
      refine ⟨mode, mem_sortModes.1 ?_, of_decide_eq_true active⟩
      rw [← sorted, eq]
      simp

/-- An update changes neither the modes nor the configuration. -/
theorem update_keeps {s' : Scheduler lib} {offers : Dict String OfferWindows} {enabled : Finset String} {now : ℤ}
    (h : s.update offers enabled now = .ok s') : s'.modes = s.modes ∧ s'.programConfigs = s.programConfigs := by
  unfold Scheduler.update at h
  simp only [bind_eq_ok, pure_eq_ok] at h
  obtain ⟨items, -, rfl⟩ := h
  exact ⟨rfl, rfl⟩

/-- An update returns if and only if the enabled programs that offer are configured. -/
theorem update_returns (offers : Dict String OfferWindows) (enabled : Finset String) (now : ℤ) :
    (∃ s', s.update offers enabled now = .ok s') ↔
      ∀ item ∈ offers.entries, item.1 ∈ enabled → item.1 ∈ s.programConfigs.keys := by
  unfold Scheduler.update
  simp only [bind_eq_ok, pure_eq_ok]
  constructor
  · rintro ⟨s', items, sorts, -⟩ item mem on
    unfold Scheduler.sortedOffers at sorts
    simp only [bind_eq_ok] at sorts
    obtain ⟨keyed, maps, -⟩ := sorts
    have listed : item ∈ offers.entries.filter fun item => item.1 ∈ enabled := List.mem_filter.2 ⟨mem, by simpa using on⟩
    obtain ⟨pair, -, here⟩ := exists_right_of_forall₂ (mapM_eq_ok.1 maps) listed
    simp only [bind_eq_ok] at here
    obtain ⟨k, known, -⟩ := here
    unfold Scheduler.priority at known
    split at known
    · rename_i config found
      exact Dict.mem_keys.2 ⟨config, found⟩
    · cases known
  · intro configured
    obtain ⟨items, sorts, -⟩ := sortedOffers_eq_ok configured
    exact ⟨_, items, sorts, rfl⟩

/-- The schedule is disjoint, and intends configured modes and programs only. -/
def Scheduler.Sound (s : Scheduler lib) : Prop :=
  lib.Disjoint s.intervals ∧ ∀ t intent, lib.Holds s.intervals t intent →
    intent.mode ∈ s.modes.map Mode.name ∧ ∀ program ∈ intent.programs, program ∈ s.programConfigs.keys

/-- Whatever is offered, an update that returns leaves a sound schedule. -/
theorem update_sound (lawful : lib.Lawful) {s' : Scheduler lib} {offers : Dict String OfferWindows}
    {enabled : Finset String} {now : ℤ} (h : s.update offers enabled now = .ok s') : s'.Sound := by
  have configured := (update_returns offers enabled now).1 ⟨s', h⟩
  obtain ⟨sorted, sorts, perm, -⟩ := sortedOffers_eq_ok configured
  unfold Scheduler.update at h
  simp only [bind_eq_ok, pure_eq_ok] at h
  obtain ⟨items, eq, rfl⟩ := h
  cases sorts.symm.trans eq
  obtain ⟨stacked, onTop⟩ := stackIntervalTrees_exact lawful
    ((s.modes.map fun mode => (⟨mode.name, []⟩ : ScheduleIntent)).zip (s.evaluatedModes now))
  apply stampIntervals_keeps lawful _ stacked
  · intro t intent held
    obtain ⟨input, listed, rfl⟩ := exists_of_topmost ((onTop t intent).1 held)
    obtain ⟨mode, mem, eq⟩ := List.mem_map.1 (List.of_mem_zip listed).1
    rw [← eq]
    exact ⟨List.mem_map.2 ⟨mode, mem, rfl⟩, fun program mem => absurd mem List.not_mem_nil⟩
  · intro intent iv mem before
    refine ⟨before.1, fun program listed => ?_⟩
    obtain ⟨item, mem, rfl⟩ := List.mem_map.1 (mem_of_combined lawful mem program listed)
    obtain ⟨offered, on⟩ := List.mem_filter.1 (perm.mem_iff.1 mem)
    exact configured item offered (of_decide_eq_true on)

theorem updates_keep {modes : List (Mode lib)} {configs : List ProgramConfig} {calls : List Scheduler.UpdateCall}
    (run : (Scheduler.create modes configs).updates calls = .ok s) : s.modes = sortModes modes ∧
      s.programConfigs = .ofList (configs.map fun config => (config.program, config)) := by
  unfold Scheduler.updates at run
  refine foldlM_invariant (fun s : Scheduler lib => s.modes = sortModes modes ∧
    s.programConfigs = .ofList (configs.map fun config => (config.program, config))) run ⟨rfl, rfl⟩ ?_
  rintro s s' call - ⟨sorted, configured⟩ turn
  obtain ⟨modes, configs⟩ := update_keeps turn
  exact ⟨modes.trans sorted, configs.trans configured⟩

/-- **The schedule is exact at every instant.** After any updates, an update whose enabled programs are configured
succeeds, and its schedule intends at each instant the mode on top with the programs that offer, by priority. -/
theorem update_exact (lawful : lib.Lawful) {modes : List (Mode lib)} {configs : List ProgramConfig}
    {calls : List Scheduler.UpdateCall} (run : (Scheduler.create modes configs).updates calls = .ok s)
    {offers : Dict String OfferWindows} {enabled : Finset String} (now : ℤ)
    (configured : ∀ item ∈ offers.entries, item.1 ∈ enabled → item.1 ∈ configs.map ProgramConfig.program)
    (proper : ∀ item ∈ offers.entries, item.1 ∈ enabled → ∀ iv ∈ item.2, iv.1 ≤ iv.2) :
    ∃ s', s.update offers enabled now = .ok s' ∧ lib.Disjoint s'.intervals ∧ ∀ t,
      (∃ r, s'.getIntent t = .ok r) ∧
      (s'.getIntent t = .ok none ↔ ∀ mode ∈ modes, ¬ mode.Active (s.context now) t) ∧
      ∀ intent, s'.getIntent t = .ok (some intent) → Intends s' modes (s.context now) offers enabled t intent := by
  obtain ⟨sorted, configs_⟩ := updates_keep run
  have configured' : ∀ item ∈ offers.entries, item.1 ∈ enabled → item.1 ∈ s.programConfigs.keys := by
    intro item mem on
    rw [configs_, Dict.mem_keys_ofList, List.map_map]
    exact configured item mem on
  obtain ⟨items, sorts, disjoint, exact_⟩ := createSchedule_exact lawful sorted now configured' proper
  obtain ⟨s', updates, intervals, keeps⟩ : ∃ s', s.update offers enabled now = .ok s' ∧
      s'.intervals = (createSchedule lib s.modes (s.evaluatedModes now) items).2 ∧ s'.priority = s.priority := by
    refine ⟨s.updated now (createSchedule lib s.modes (s.evaluatedModes now) items), ?_, rfl, rfl⟩
    unfold Scheduler.update
    rw [sorts]
    rfl
  rw [← intervals] at disjoint exact_
  refine ⟨s', updates, disjoint, fun t => ?_⟩
  obtain ⟨intends, active⟩ := exact_ t
  obtain ⟨⟨r, returns⟩, held⟩ := getIntent_exact lawful disjoint t
  refine ⟨⟨r, returns⟩, ?_, fun intent here => ?_⟩
  · have unintended : s'.getIntent t = .ok none ↔ ¬ ∃ intent, lib.Holds s'.intervals t intent := by
      simp only [← held, returns]
      cases r <;> simp
    rw [unintended, ← active]
    simp
  · obtain ⟨mode, offering, priority, ties⟩ := intends intent ((held intent).1 here)
    rw [← keeps] at priority ties
    exact ⟨mode, offering, priority, ties⟩

end Schedule

/-- An interval of the day, in hours. -/
def hours (b e : ℤ) (lt : b < e) : (IntervalTrees.lists ℤ).Tree Unit :=
  ⟨[⟨b * Scheduler.hour, e * Scheduler.hour, (), by unfold Scheduler.hour; omega⟩], List.nodup_singleton _⟩

/-- The sensor stands by from dusk to dawn, and operates at night. -/
def nightModes : List (Mode (IntervalTrees.lists ℤ)) :=
  [{ name := "night", evaluate := fun _ => some (hours 22 28 (by decide)) },
    { name := "dusk", state := .standby, evaluate := fun _ => some (hours 20 30 (by decide)) }]

def surveyOffers : Dict String OfferWindows :=
  .ofList [("survey", [(23 * Scheduler.hour, 25 * Scheduler.hour)])]

theorem update_exact_example : ∃ s',
    (Scheduler.create nightModes [{ program := "survey" }]).update surveyOffers {"survey"} 0 = .ok s' ∧
    ∀ intent, s'.getIntent (24 * Scheduler.hour) = .ok (some intent) →
      Intends s' nightModes ((Scheduler.create nightModes [{ program := "survey" }]).context 0) surveyOffers {"survey"}
        (24 * Scheduler.hour) intent := by
  have entries : surveyOffers.entries = [("survey", [(23 * Scheduler.hour, 25 * Scheduler.hour)])] := rfl
  have configured : ∀ item ∈ surveyOffers.entries, item.1 ∈ ({"survey"} : Finset String) →
      item.1 ∈ [({ program := "survey" } : ProgramConfig)].map ProgramConfig.program := by
    simp [entries]
  have proper : ∀ item ∈ surveyOffers.entries, item.1 ∈ ({"survey"} : Finset String) → ∀ iv ∈ item.2, iv.1 ≤ iv.2 := by
    simp [entries, Scheduler.hour]
  obtain ⟨s', updates, -, exact_⟩ := update_exact IntervalTrees.lawful_lists
    (show (Scheduler.create nightModes [{ program := "survey" }]).updates [] = .ok _ from rfl) 0 configured proper
  exact ⟨s', updates, (exact_ (24 * Scheduler.hour)).2.2⟩

end SensorKit.Auto
