import SensorKit.Sensor.CollectCompile
import SensorKit.Sensor.Compatibility

/-!
# What the steps of a collect wait for

Each step that the compiler emits is described by the steps before it. A setting waits for the last
setting of its placement and for the last capture of each instrument that looks through the placement. A
capture waits for the last capture of its instrument, and requires the last setting of each placement and
command type on its chain and all preparation there. The settings of its epoch are among these.
-/

namespace SensorKit.Sensor

open Lib

namespace PlannedStep

/-- A setting or a preparation of the placement. -/
def writes (p : Placement) (step : PlannedStep) : Bool :=
  step.acquisition.isNone && step.target = some p

/-- A capture of the instrument. -/
def reads (i : Placement) (step : PlannedStep) : Bool :=
  step.acquisition.isSome && step.target = some i

/-- A setting or a preparation of the placement by a command of the type. -/
def sets (k : Placement × CommandType) (step : PlannedStep) : Bool :=
  step.writes k.1 && step.command.any (·.commandType = k.2)

def prepares (step : PlannedStep) : Bool :=
  step.origin.path.head? = some (.name "prepare")

variable {step : PlannedStep} {p i : Placement} {k : Placement × CommandType}

theorem writes_iff : step.writes p = true ↔ step.acquisition = none ∧ step.target = some p := by
  simp [writes]

theorem reads_iff : step.reads i = true ↔ step.acquisition.isSome = true ∧ step.target = some i := by
  simp [reads]

theorem sets_iff : step.sets k = true ↔
    step.writes k.1 = true ∧ ∃ command, step.command = some command ∧ command.commandType = k.2 := by
  simp [sets, Option.any_eq_true]

theorem not_reads_of_writes (writer : step.writes p = true) : step.reads i = false := by
  simp [reads, (writes_iff.1 writer).1]

end PlannedStep

open PlannedStep

/-- What a capture of the instrument requires: the last setting of each key on the chain, and all
preparation there. -/
def Needed (t : Topology) (pre : List PlannedStep) (i : Placement) (n : String) : Prop :=
  (∃ k l, t.OnChain i k.1 ∧ lastOf (sets k) pre = some l ∧ l.name = n) ∨
    ∃ p l, l ∈ pre ∧ l.prepares = true ∧ l.writes p = true ∧ t.OnChain i p ∧ l.name = n

/-- The settings of an epoch, with the selector positions that follow from its instruments. -/
def SettingOf (collect : BoundCollect) (sensor : BoundSensor) (e : ℕ) (r : RoutedCommand) : Prop :=
  ∃ epoch derived, collect.epochs[e]? = some epoch ∧
    CollectCompiler.ports sensor (CollectCompiler.participants epoch.units) = .ok derived ∧
    r ∈ derived ++ epoch.settings

/-- What a setting or an ordering step says of the steps before it. -/
structure SettingEmitted (t : Topology) (pre : List PlannedStep) (step : PlannedStep) : Prop where
  /-- It requires nothing. -/
  free : ∀ dep ∈ step.deps, dep.kind = .completion
  on_chain : ∀ p, step.writes p = true → ∃ q, t.OnChain q p
  commanded : ∀ p, step.writes p = true → step.command.isSome = true
  after_setting : ∀ p l, step.writes p = true → lastOf (writes p) pre = some l → ∃ dep ∈ step.deps, dep.on = l.name
  after_capture : ∀ p i l, step.writes p = true → t.OnChain i p → lastOf (reads i) pre = some l →
    ∃ dep ∈ step.deps, dep.on = l.name

/-- What a capture says of the steps before it. -/
structure CaptureEmitted (collect : BoundCollect) (sensor : BoundSensor) (pre : List PlannedStep) (step : PlannedStep)
    (i : Placement) : Prop where
  chain : ∃ chain, sensor.topology.chains.get? i = some chain
  command : ∃ time, step.command = some (.cameraCapture time)
  requires : ∀ n, (∃ dep ∈ step.deps, dep.on = n ∧ dep.kind = .success) ↔ Needed sensor.topology pre i n
  after_capture : ∀ l, lastOf (reads i) pre = some l → ∃ dep ∈ step.deps, dep.on = l.name
  /-- The settings of its epoch that lie on its chain are the last ones of their keys. -/
  governed : ∃ e, step.origin.path.head? = some (.number (e : ℕ)) ∧ ∀ r, SettingOf collect sensor e r →
    ∃ l, lastOf (sets r.governs) pre = some l ∧ l.command = some r.command

/-- What a step says of the steps before it. -/
structure Emitted (collect : BoundCollect) (sensor : BoundSensor) (pre : List PlannedStep) (step : PlannedStep) :
    Prop where
  strict : step.unsupported = .error
  setting : step.acquisition = none → SettingEmitted sensor.topology pre step
  capture : ∀ i, step.reads i = true → CaptureEmitted collect sensor pre step i
  prepare_first : step.prepares = true → ∀ l ∈ pre, l.prepares = true

namespace CollectCompiler

/-- The indexes of the compiler agree with the steps emitted. -/
structure Tracks (c : CollectCompiler) : Prop where
  latest : ∀ p, c.latest.get? p = (lastOf (writes p) c.steps).map name
  lastUnit : ∀ i, c.lastUnit.get? i = (lastOf (reads i) c.steps).map name
  governing : ∀ k, (c.governing.get? k).map (fun g => (g.1, some g.2.command)) =
    (lastOf (sets k) c.steps).map fun l => (l.name, l.command)
  prepared : ∀ p n, (p, n) ∈ c.prepared ↔ ∃ l ∈ c.steps, l.prepares = true ∧ l.writes p = true ∧ l.name = n

/-- The steps emitted so far are as described. -/
structure Built (collect : BoundCollect) (sensor : BoundSensor) (c : CollectCompiler) : Prop extends Tracks c where
  traced : Traced (Emitted collect sensor) c.steps

/-- The command governs its key. -/
def Governs (c : CollectCompiler) (r : RoutedCommand) : Prop :=
  (c.governing.get? r.governs).map Prod.snd = some r

variable {collect : BoundCollect} {sensor : BoundSensor} {c c' : CollectCompiler} {step : PlannedStep}
  {r r' : RoutedCommand} {p i : Placement} {group : String} {path : List PathPart}

theorem Tracks.add (h : Tracks c) (steps : c'.steps = c.steps ++ [step])
    (latest : ∀ p, c'.latest.get? p = if step.writes p then some step.name else c.latest.get? p)
    (lastUnit : ∀ i, c'.lastUnit.get? i = if step.reads i then some step.name else c.lastUnit.get? i)
    (governing : ∀ k, (c'.governing.get? k).map (fun g => (g.1, some g.2.command)) =
      if step.sets k then some (step.name, step.command) else
        (c.governing.get? k).map fun g => (g.1, some g.2.command))
    (prepared : ∀ p n, (p, n) ∈ c'.prepared ↔ (p, n) ∈ c.prepared ∨
      step.prepares = true ∧ step.writes p = true ∧ step.name = n) : Tracks c' := by
  refine ⟨fun p => ?_, fun i => ?_, fun k => ?_, fun p n => ?_⟩
  · rw [latest, steps, lastOf_snoc, h.latest]
    split_ifs <;> rfl
  · rw [lastUnit, steps, lastOf_snoc, h.lastUnit]
    split_ifs <;> rfl
  · rw [governing, steps, lastOf_snoc, h.governing]
    split_ifs <;> rfl
  · rw [prepared, steps, h.prepared]
    simp only [List.mem_append, List.mem_singleton, or_and_right, exists_or, exists_eq_left]

theorem Tracks.settingStep (h : Tracks c) (on : ∃ q, sensor.topology.OnChain q r.target) :
    SettingEmitted sensor.topology c.steps (c.settingStep collect sensor r group path) := by
  have target {p : Placement} (writer : (c.settingStep collect sensor r group path).writes p = true) :
      r.target = p := Option.some.inj (writes_iff.1 writer).2
  have waits {n : String} (mem : n ∈ (sensor.topology.readersOf r.target).filterMap c.lastUnit.get? ++
      (c.latest.get? r.target).toList) :
      ∃ dep ∈ (c.settingStep collect sensor r group path).deps, dep.on = n := by
    exact ⟨_, List.mem_map_of_mem mem, rfl⟩
  refine ⟨fun dep mem => ?_, fun p writer => ?_, fun p writer => rfl, fun p l writer last => ?_,
    fun p i l writer on last => ?_⟩
  · obtain ⟨n, -, rfl⟩ := List.mem_map.1 mem
    rfl
  · obtain rfl := target writer
    exact on
  · obtain rfl := target writer
    apply waits
    rw [h.latest, last]
    simp
  · obtain rfl := target writer
    apply waits
    refine List.mem_append_left _ (List.mem_filterMap.2 ⟨i, Topology.mem_readersOf.2 on, ?_⟩)
    rw [h.lastUnit, last]
    rfl

/-- **Emitting a setting.** Preparation notes its step as well. -/
theorem Built.setting {noted : List (Placement × String)} (h : Built collect sensor c)
    (on : ∃ q, sensor.topology.OnChain q r.target)
    (first : path.head? = some (.name "prepare") → ∀ l ∈ c.steps, l.prepares = true)
    (prepared : ∀ p n, (p, n) ∈ noted ↔ (p, n) ∈ c.prepared ∨ path.head? = some (.name "prepare") ∧
      r.target = p ∧ (c.settingStep collect sensor r group path).name = n) :
    Built collect sensor { c.setting collect sensor r group path with prepared := noted } := by
  have writes (p : Placement) : (c.settingStep collect sensor r group path).writes p = true ↔ p = r.target := by
    rw [writes_iff]
    exact ⟨fun both => (Option.some.inj both.2).symm, fun same => ⟨rfl, congrArg some same.symm⟩⟩
  have sets (k : Placement × CommandType) : (c.settingStep collect sensor r group path).sets k = true ↔
      k = r.governs := by
    rw [sets_iff, writes, Prod.ext_iff]
    refine and_congr_right' ⟨fun ⟨command, eq, type⟩ => ?_, fun type => ⟨r.command, rfl, type.symm⟩⟩
    rw [← type, ← Option.some.inj eq]
    rfl
  refine ⟨h.toTracks.add rfl (fun p => ?_) (fun i => ?_)
    (fun k => ?_) fun p n => ?_, h.traced.snoc ⟨rfl, fun _ => h.settingStep on, fun i reader => ?_, fun prepares => ?_⟩⟩
  · simp only [CollectCompiler.setting, writes]
    exact Dict.get?_insert
  · rw [not_reads_of_writes ((writes _).2 rfl)]
    rfl
  · simp only [CollectCompiler.setting, sets, Dict.get?_insert]
    split_ifs <;> rfl
  · rw [prepared, writes, eq_comm (a := p), PlannedStep.prepares, decide_eq_true_eq]
    rfl
  · have none := (reads_iff.1 reader).1
    simp [CollectCompiler.settingStep] at none
  · exact first (of_decide_eq_true prepares)

/-! ## Settings of an epoch -/

variable {rs : List RoutedCommand} {e : ℕ} {epoch : BoundEpoch}

theorem Governs.insert {name : String} (alone : r'.governs = r.governs → r' = r) (h : c.Governs r' ∨ r' = r)
    (governing : c'.governing = c.governing.insert r.governs (name, r)) : c'.Governs r' := by
  unfold Governs at *
  rw [governing, Dict.get?_insert]
  split_ifs with same
  · rw [alone same]
    rfl
  · exact h.resolve_right fun eq => same (congrArg RoutedCommand.governs eq)

/-- A setting that has not changed governs already. -/
theorem governs_of_inForce (h : c.inForce r = true) : c.Governs r := by
  unfold inForce at h
  unfold Governs
  cases found : c.governing.get? r.governs with
  | none => simp [found] at h
  | some g => simpa [found] using h

theorem Built.change (h : Built collect sensor c) (on : ∃ q, sensor.topology.OnChain q r.target) :
    Built collect sensor (change collect sensor e c r) := by
  unfold CollectCompiler.change
  split_ifs
  · exact h
  · exact h.setting on (by simp) (by simp [emit])

theorem governs_change (alone : r'.governs = r.governs → r' = r) (h : c.Governs r' ∨ r' = r) :
    (change collect sensor e c r).Governs r' := by
  unfold CollectCompiler.change
  split_ifs with force
  · exact h.elim id fun eq => eq ▸ governs_of_inForce force
  · exact .insert alone h rfl

theorem Built.changes (h : Built collect sensor c) (on : ∀ r ∈ rs, ∃ q, sensor.topology.OnChain q r.target) :
    Built collect sensor (rs.foldl (CollectCompiler.change collect sensor e) c) := by
  induction rs generalizing c with
  | nil => exact h
  | cons r rs ih => exact ih (h.change (on r (by simp))) fun r mem => on r (by simp [mem])

/-- **The settings of an epoch govern** when they have been emitted, if no two of them differ at one key. -/
theorem governs_changes (alone : ∀ r' ∈ rs, ∀ r ∈ rs, r'.governs = r.governs → r' = r) (mem : r ∈ rs) :
    (rs.foldl (CollectCompiler.change collect sensor e) c).Governs r := by
  have all (post : List RoutedCommand) : ∀ c : CollectCompiler, (∀ x ∈ post, x ∈ rs) → c.Governs r ∨ r ∈ post →
      (post.foldl (CollectCompiler.change collect sensor e) c).Governs r := by
    induction post with
    | nil => exact fun c _ h => h.resolve_right List.not_mem_nil
    | cons x post ih =>
      intro c inside h
      have turn (h : c.Governs r ∨ r = x) : (CollectCompiler.change collect sensor e c x).Governs r :=
        governs_change (alone r mem x (inside x (by simp))) h
      apply ih _ fun y mem => inside y (by simp [mem])
      rcases h with h | h
      · exact .inl (turn (.inl h))
      · exact (List.mem_cons.1 h).imp_left fun eq => turn (.inr eq)
  exact all rs c (fun _ => id) (.inr mem)

/-- The selector positions that the participants need. -/
theorem mem_ports {participants : List Placement} (h : ports sensor participants = .ok rs) :
    r ∈ rs ↔ ∃ i ∈ participants, ∃ s port, sensor.topology.Selects i s port ∧
      r = { target := s, command := .selectPort port } := by
  simp only [ports, bind_eq_ok, pure_eq_ok] at h
  obtain ⟨states, traversed, rfl⟩ := h
  have pairs := mapM_eq_ok.1 traversed
  simp only [List.mem_map, List.mem_eraseDups, List.mem_flatten]
  constructor
  · rintro ⟨state, ⟨here, listed, mem⟩, rfl⟩
    obtain ⟨i, participates, found⟩ := exists_left_of_forall₂ pairs listed
    exact ⟨i, participates, state.1, state.2, ⟨here, Topology.lookup_eq_ok.1 found, mem⟩, rfl⟩
  · rintro ⟨i, participates, s, port, ⟨here, found, mem⟩, rfl⟩
    obtain ⟨here', listed, found'⟩ := exists_right_of_forall₂ pairs participates
    obtain rfl := Option.some.inj ((Topology.lookup_eq_ok.1 found').symm.trans found)
    exact ⟨(s, port), ⟨here', listed, mem⟩, rfl⟩

/-- **A consistent epoch** asks each placement for one command of a type. -/
theorem eq_of_consistent {participants : List Placement} {«where» : String}
    (h : consistent sensor epoch participants «where» = .ok ()) (hp : ports sensor participants = .ok rs) :
    ∀ r' ∈ rs ++ epoch.settings, ∀ r ∈ rs ++ epoch.settings, r'.governs = r.governs → r' = r := by
  simp only [consistent, bind_eq_ok] at h
  obtain ⟨_, compatible, held, merged, positions⟩ := h
  obtain ⟨-, -, holds⟩ := holds_of_putAll keyed_empty merged
  have apart {r r' : RoutedCommand} (mem : r ∈ rs) (mem' : r' ∈ epoch.settings) : r.governs ≠ r'.governs := by
    intro same
    obtain ⟨i, participates, s, port, selects, rfl⟩ := (mem_ports hp).1 mem
    have key := (holds r' mem').mem_keys
    rw [← same] at key
    exact not_selects_of_positioned positions participates key selects
  intro r' mem' r mem same
  rcases List.mem_append.1 mem' with mem' | mem' <;> rcases List.mem_append.1 mem with mem | mem
  · obtain ⟨i, hi, s, port, selects, rfl⟩ := (mem_ports hp).1 mem'
    obtain ⟨j, hj, s', port', selects', rfl⟩ := (mem_ports hp).1 mem
    obtain rfl : s = s' := congrArg Prod.fst same
    rw [selects_agree compatible hi hj selects selects']
  · exact absurd same (apart mem' mem)
  · exact absurd same.symm (apart mem mem')
  · exact (holds r' mem').eq (holds r mem) same

/-! ## Blocks of captures -/

variable {hard soft follows : List String} {shot : PlannedAcquisition} {delay : ℚ}

/-- The required successes of an instrument's next block, read off the indexes. -/
def NeedsOf (c : CollectCompiler) (t : Topology) (i : Placement) (hard : List String) : Prop :=
  ∃ chain, t.chains.get? i = some chain ∧ ∀ n, n ∈ hard ↔
    (∃ k g, c.governing.get? k = some g ∧ k.1 ∈ chain ∧ g.1 = n) ∨ ∃ p, (p, n) ∈ c.prepared ∧ p ∈ chain

theorem needs_eq_ok (h : c.needs sensor i = .ok (hard, soft)) :
    c.NeedsOf sensor.topology i hard ∧ soft = (c.lastUnit.get? i).toList := by
  simp only [needs, bind_eq_ok, pure_eq_ok, Prod.mk.injEq] at h
  obtain ⟨chain, found, rfl, rfl⟩ := h
  refine ⟨⟨chain, Topology.lookup_eq_ok.1 found, fun n => ?_⟩, rfl⟩
  simp only [List.mem_eraseDups, List.mem_append, List.mem_map, List.mem_filter, decide_eq_true_eq, Dict.get?_eq_some]
  refine or_congr ⟨?_, ?_⟩ ⟨?_, ?_⟩
  · rintro ⟨⟨k, g⟩, ⟨entry, inside⟩, rfl⟩
    exact ⟨k, g, entry, inside, rfl⟩
  · rintro ⟨k, g, entry, inside, rfl⟩
    exact ⟨(k, g), ⟨entry, inside⟩, rfl⟩
  · rintro ⟨⟨p, name⟩, ⟨entry, inside⟩, rfl⟩
    exact ⟨p, entry, inside⟩
  · rintro ⟨p, entry, inside⟩
    exact ⟨(p, n), ⟨entry, inside⟩, rfl⟩

theorem Tracks.needed (h : Tracks c) (needs : c.NeedsOf sensor.topology i hard) (n : String) :
    n ∈ hard ↔ Needed sensor.topology c.steps i n := by
  obtain ⟨chain, found, spec⟩ := needs
  have onChain (p : Placement) : p ∈ chain ↔ sensor.topology.OnChain i p := by
    constructor
    · exact fun mem => ⟨chain, found, mem⟩
    · rintro ⟨chain', found', mem⟩
      cases found.symm.trans found'
      exact mem
  rw [spec, Needed]
  refine or_congr (exists_congr fun k => ?_) (exists_congr fun p => ?_)
  · have tracked := h.governing k
    rw [← onChain k.1]
    constructor
    · rintro ⟨g, entry, inside, rfl⟩
      rw [entry] at tracked
      obtain ⟨l, last, same⟩ := Option.map_eq_some_iff.1 tracked.symm
      exact ⟨l, inside, last, congrArg Prod.fst same⟩
    · rintro ⟨l, inside, last, rfl⟩
      rw [last] at tracked
      obtain ⟨g, entry, same⟩ := Option.map_eq_some_iff.1 tracked
      exact ⟨g, entry, inside, congrArg Prod.fst same⟩
  · rw [h.prepared, onChain]
    constructor
    · rintro ⟨⟨l, mem, prepares, writer, name⟩, on⟩
      exact ⟨l, mem, prepares, writer, on, name⟩
    · rintro ⟨l, mem, prepares, writer, on, name⟩
      exact ⟨⟨l, mem, prepares, writer, name⟩, on⟩

theorem Tracks.governs (h : Tracks c) (governs : c.Governs r) :
    ∃ l, lastOf (sets r.governs) c.steps = some l ∧ l.command = some r.command := by
  obtain ⟨g, entry, rfl⟩ := Option.map_eq_some_iff.1 governs
  have tracked := h.governing g.2.governs
  rw [entry] at tracked
  obtain ⟨l, last, same⟩ := Option.map_eq_some_iff.1 tracked.symm
  exact ⟨l, last, congrArg Prod.snd same⟩

/-- **Emitting a capture**, as if its instrument's last capture were noted at once. -/
theorem Built.capture (h : Built collect sensor c) (hard follows : List String) (delay : ℚ)
    (captures : ∃ time, shot.command = .cameraCapture time)
    (needs : c.NeedsOf sensor.topology shot.target hard) (governs : ∀ r, SettingOf collect sensor e r → c.Governs r)
    (after : ∀ n ∈ c.lastUnit.get? shot.target, n ∈ follows) :
    Built collect sensor { c.emit (c.unitStep collect shot e hard follows delay) with
      lastUnit := c.lastUnit.insert shot.target (c.unitStep collect shot e hard follows delay).name } := by
  have reads (i : Placement) : (c.unitStep collect shot e hard follows delay).reads i = true ↔ i = shot.target := by
    rw [reads_iff]
    exact ⟨fun both => (Option.some.inj both.2).symm, fun same => ⟨rfl, congrArg some same.symm⟩⟩
  have writes (p : Placement) : (c.unitStep collect shot e hard follows delay).writes p = false := rfl
  refine ⟨h.toTracks.add rfl (fun p => ?_) (fun i => ?_)
    (fun k => ?_) fun p n => ?_, h.traced.snoc ⟨rfl, fun none => ?_, fun i reader => ?_, fun prepares => ?_⟩⟩
  · rw [writes]
    rfl
  · simp only [reads]
    exact Dict.get?_insert
  · simp only [sets, writes]
    rfl
  · simp only [writes]
    simp [emit]
  · simp [unitStep] at none
  · obtain rfl := (reads i).1 reader
    obtain ⟨time, command⟩ := captures
    refine ⟨needs.imp fun _ => And.left, ⟨time, congrArg some command⟩, fun n => ?_, fun l last => ?_, e, rfl,
      fun r setting => h.governs (governs r setting)⟩
    · rw [← h.needed needs]
      constructor
      · rintro ⟨dep, mem, rfl, success⟩
        rcases List.mem_append.1 mem with mem | mem
        · obtain ⟨name, listed, rfl⟩ := List.mem_map.1 mem
          exact listed
        · obtain ⟨name, -, rfl⟩ := List.mem_map.1 mem
          cases success
      · exact fun mem => ⟨{ on := n }, List.mem_append_left _ (List.mem_map_of_mem mem), rfl, rfl⟩
    · have mem := after l.name (by rw [h.lastUnit, last]; rfl)
      exact ⟨_, List.mem_append_right _ (List.mem_map_of_mem mem), rfl⟩
  · simp [PlannedStep.prepares, unitStep] at prepares

/-- What governs and what has been prepared is as it was. -/
structure Same (c c' : CollectCompiler) : Prop where
  governing : c'.governing = c.governing
  prepared : c'.prepared = c.prepared

theorem Same.governs (h : Same c c') (governs : c.Governs r) : c'.Governs r := by
  unfold Governs
  rw [h.governing]
  exact governs

theorem Same.needsOf {t : Topology} (h : Same c c') (needs : c.NeedsOf t i hard) : c'.NeedsOf t i hard := by
  unfold NeedsOf
  rw [h.governing, h.prepared]
  exact needs

/-- Only the captures that it finds matter of the index of last captures. -/
theorem Built.noting {lastUnit : Dict Placement String} (h : Built collect sensor c)
    (same : ∀ j, lastUnit.get? j = c.lastUnit.get? j) : Built collect sensor { c with lastUnit } :=
  ⟨⟨h.latest, fun i => (same i).trans (h.lastUnit i), h.governing, h.prepared⟩, h.traced⟩

/-- **Emitting a block.** By induction on the captures after the first: each follows the one before. -/
theorem Built.emitUnits {units : List PlannedAcquisition} (h : Built collect sensor c) (follows : List String)
    (delay : ℚ) (some_ : units ≠ [])
    (captures : ∀ shot ∈ units, shot.target = i ∧ ∃ time, shot.command = .cameraCapture time)
    (needs : c.NeedsOf sensor.topology i hard) (governs : ∀ r, SettingOf collect sensor e r → c.Governs r)
    (after : ∀ n ∈ c.lastUnit.get? i, n ∈ follows) :
    Built collect sensor (c.emitUnits collect units e hard follows delay) ∧
      Same c (c.emitUnits collect units e hard follows delay) ∧
      ∀ j, j ≠ i → (c.emitUnits collect units e hard follows delay).lastUnit.get? j = c.lastUnit.get? j := by
  have rest (units : List PlannedAcquisition) : ∀ state : CollectCompiler × String,
      (∀ shot ∈ units, shot.target = i ∧ ∃ time, shot.command = .cameraCapture time) → Same c state.1 →
      state.1.lastUnit = c.lastUnit →
      Built collect sensor { state.1 with lastUnit := state.1.lastUnit.insert i state.2 } →
      let state' := units.foldl (emitRest collect e hard) state
      Same c state'.1 ∧ state'.1.lastUnit = c.lastUnit ∧
        Built collect sensor { state'.1 with lastUnit := state'.1.lastUnit.insert i state'.2 } := by
    induction units with
    | nil => exact fun state _ same noted built => ⟨same, noted, built⟩
    | cons shot units ih =>
      intro state captures same noted built
      obtain ⟨rfl, capture⟩ := captures shot (by simp)
      refine ih _ (fun shot mem => captures shot (by simp [mem])) ⟨same.governing, same.prepared⟩ noted ?_
      have next := built.capture hard [state.2] 0 capture (same.needsOf needs)
        (fun r setting => same.governs (governs r setting)) (by simp)
      refine next.noting fun j => ?_
      simp only [Dict.get?_insert]
      split_ifs <;> rfl
  cases units with
  | nil => exact absurd rfl some_
  | cons first units =>
    obtain ⟨rfl, capture⟩ := captures first (by simp)
    obtain ⟨same, noted, built⟩ := rest units (c.emit (c.unitStep collect first e hard follows delay), _)
      (fun shot mem => captures shot (by simp [mem])) ⟨rfl, rfl⟩ rfl (h.capture hard follows delay capture needs governs after)
    refine ⟨built, ⟨same.governing, same.prepared⟩, fun j other => ?_⟩
    simp only [CollectCompiler.emitUnits, noted]
    exact Dict.get?_insert_of_ne other

/-! ## Epochs -/

variable {units : List PlannedAcquisition}

/-- A block holds some acquisitions of its instrument. -/
theorem blocks_spec {block : List PlannedAcquisition} (found : (blocks units).get? i = some block) :
    block ≠ [] ∧ ∀ shot ∈ block, shot ∈ units ∧ shot.target = i := by
  have grouped : (Dict.group PlannedAcquisition.target units).get? i = some block := found
  rw [Dict.get?_group] at grouped
  split_ifs at grouped with some_
  cases grouped
  exact ⟨some_, fun shot mem => by simpa using mem⟩

theorem Built.align (h : Built collect sensor c) (epoch : BoundEpoch) (blocks : Dict Placement (List PlannedAcquisition))
    (needs : List (List String × List String)) (e : ℕ) : Built collect sensor (c.align collect epoch blocks needs e).1 ∧
      Same c (c.align collect epoch blocks needs e).1 ∧
      (c.align collect epoch blocks needs e).1.lastUnit = c.lastUnit := by
  unfold CollectCompiler.align
  split_ifs
  · exact ⟨h, ⟨rfl, rfl⟩, rfl⟩
  · refine ⟨⟨h.toTracks.add rfl (fun p => rfl) (fun i => rfl) (fun k => ?_) fun p n => ?_,
      h.traced.snoc ⟨rfl, fun _ => ⟨fun dep mem => ?_, ?_, ?_, ?_, ?_⟩, fun i reader => ?_, fun prepares => ?_⟩⟩,
      ⟨rfl, rfl⟩, rfl⟩
    · simp [sets, writes, emit]
    · simp [writes, emit]
    · obtain ⟨n, -, rfl⟩ := List.mem_map.1 mem
      rfl
    all_goals simp_all [writes, reads, PlannedStep.prepares]

/-- Emitting the blocks of an epoch, each under what its instrument needed before the first. -/
theorem Built.emitBlocks {aligned : Option String} {offset : List PlannedAcquisition → ℚ}
    {blocks : List ((Placement × List PlannedAcquisition) × List String × List String)} (h : Built collect sensor c)
    (nodup : (blocks.map (·.1.1)).Nodup)
    (each : ∀ b ∈ blocks, b.1.2 ≠ [] ∧
      (∀ shot ∈ b.1.2, shot.target = b.1.1 ∧ ∃ time, shot.command = .cameraCapture time) ∧
      c.NeedsOf sensor.topology b.1.1 b.2.1 ∧ b.2.2 = (c.lastUnit.get? b.1.1).toList)
    (governs : ∀ r, SettingOf collect sensor e r → c.Governs r) :
    Built collect sensor (blocks.foldl (emitBlock collect e aligned offset) c) := by
  induction blocks generalizing c with
  | nil => exact h
  | cons b blocks ih =>
    obtain ⟨fresh, nodup⟩ := List.nodup_cons.1 nodup
    obtain ⟨some_, captures, needs, soft⟩ := each b (by simp)
    obtain ⟨built, same, others⟩ := h.emitUnits (b.2.2 ++ aligned.toList) (offset b.1.2) some_
      captures needs governs fun n mem => List.mem_append_left _ (by rw [soft]; simpa using mem)
    refine ih built nodup (fun b' mem => ?_) fun r setting => same.governs (governs r setting)
    obtain ⟨some_, captures, needs, soft⟩ := each b' (by simp [mem])
    refine ⟨some_, captures, same.needsOf needs, soft.trans ?_⟩
    have other : b'.1.1 ≠ b.1.1 := fun eq => fresh (List.mem_map.2 ⟨b', mem, eq⟩)
    rw [← others b'.1.1 other]
    rfl

/-- **Compiling an epoch.** -/
theorem Built.compileEpoch (h : Built collect sensor c) (packed : Packed sensor.topology epoch)
    (at_ : collect.epochs[e]? = some epoch) (compiles : c.compileEpoch collect sensor epoch e = .ok c') :
    Built collect sensor c' := by
  simp only [CollectCompiler.compileEpoch, bind_eq_ok, pure_eq_ok] at compiles
  obtain ⟨_, consistent, derived, ports, needs, needed, rfl⟩ := compiles
  have on : ∀ r ∈ derived ++ epoch.settings, ∃ q, sensor.topology.OnChain q r.target := by
    intro r mem
    rcases List.mem_append.1 mem with mem | mem
    · obtain ⟨i, -, s, port, selects, rfl⟩ := (mem_ports ports).1 mem
      exact ⟨i, selects.onChain⟩
    · exact packed.placed r mem
  have built := h.changes (e := e) on
  have governs : ∀ r, SettingOf collect sensor e r →
      ((derived ++ epoch.settings).foldl (CollectCompiler.change collect sensor e) c).Governs r := by
    rintro r ⟨epoch', derived', at', ports', mem⟩
    cases at_.symm.trans at'
    cases ports.symm.trans ports'
    exact governs_changes (eq_of_consistent consistent ports) mem
  generalize (derived ++ epoch.settings).foldl (CollectCompiler.change collect sensor e) c = c₁ at *
  obtain ⟨built', same, noted⟩ := built.align epoch (blocks epoch.units) needs e
  obtain ⟨length, pairs⟩ := List.forall₂_iff_zip.1 (List.forall₂_map_left_iff.1 (mapM_eq_ok.1 needed))
  refine built'.emitBlocks ?_ (fun b mem => ?_) fun r setting => same.governs (governs r setting)
  · have keys : ((blocks epoch.units).entries.zip needs).map (·.1.1) = (blocks epoch.units).keys := by
      have first := congrArg (List.map Prod.fst) (List.map_fst_zip length.le)
      rwa [List.map_map] at first
    rw [keys]
    exact (blocks epoch.units).nodup
  · obtain ⟨block, hard, soft⟩ := b
    obtain ⟨some_, captures⟩ := blocks_spec (Dict.get?_eq_some.2 (List.of_mem_zip mem).1)
    obtain ⟨needs, soft⟩ := needs_eq_ok (pairs mem)
    refine ⟨some_, fun shot mem => ?_, same.needsOf needs, noted ▸ soft⟩
    exact ⟨(captures shot mem).2, packed.captures shot (captures shot mem).1⟩

/-! ## The whole collect -/

theorem built_prepare (on : ∀ r ∈ collect.prepare, ∃ q, sensor.topology.OnChain q r.target) :
    Built collect sensor
      (collect.prepare.zipIdx.foldl (fun c routed => c.prepareOne collect sensor routed.1 routed.2) {}) := by
  have all (post : List (RoutedCommand × ℕ)) : ∀ c : CollectCompiler, Built collect sensor c →
      (∀ l ∈ c.steps, l.prepares = true) → (∀ x ∈ post, ∃ q, sensor.topology.OnChain q x.1.target) →
      Built collect sensor (post.foldl (fun c routed => c.prepareOne collect sensor routed.1 routed.2) c) := by
    induction post with
    | nil => exact fun c h _ _ => h
    | cons x post ih =>
      intro c h only on
      refine ih _ (h.setting (on x (by simp)) (fun _ => only) fun p n => ?_) (fun l mem => ?_)
        fun y mem => on y (by simp [mem])
      · simp [eq_comm]
      · rcases mem_snoc.1 mem with mem | rfl
        · exact only l mem
        · simp [PlannedStep.prepares, settingStep]
  refine all _ {} ⟨⟨fun p => rfl, fun i => rfl, fun k => rfl, by simp⟩, traced_nil⟩ (by simp) fun x mem => ?_
  exact on x.1 (List.fst_mem_of_mem_zipIdx mem)

/-- **Every step of a collect** is as described, given settings that are routed to chains. -/
theorem traced_of_emission (on : ∀ r ∈ collect.prepare, ∃ q, sensor.topology.OnChain q r.target)
    (packed : ∀ epoch ∈ collect.epochs, Packed sensor.topology epoch) (h : emission collect sensor = .ok c) :
    Traced (Emitted collect sensor) c.steps := by
  refine (foldlM_invariant (Built collect sensor) h (built_prepare on) ?_).traced
  rintro c c' ⟨epoch, index⟩ mem built compiles
  have at_ : collect.epochs[index]? = some epoch := List.mem_zipIdx_iff_getElem?.1 mem
  exact built.compileEpoch (packed epoch (List.mem_of_getElem? at_)) at_ compiles

end CollectCompiler

end SensorKit.Sensor
