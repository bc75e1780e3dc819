import Mathlib.Data.List.ReduceOption
import SensorKit.Lib.Raises
import SensorKit.Sensor.LifecycleTotal
import SensorKit.Sensor.ShutdownSafe
import SensorKit.Sensor.TopologyLevels

/-!
# Generated tables compile

Whatever the policies are and whatever equipment a sensor has, the composed tables compile. A cleanup that is kept is
armed by all operations of the main graph.
-/

namespace SensorKit.Sensor

open Lib

/-! ## Generated tables -/

/-- The selections of generated tables: of what supports a command, or of everything. -/
def Selection.isGenerated : Selection → Bool
  | .supports _ => true
  | .kind name => name = "any"
  | _ => false

def Entry.isGenerated (entry : Entry) : Bool :=
  entry.select.isGenerated && entry.exclude.isNone && entry.require = [] &&
    entry.ops.all fun op => op.unsupported = .omit && op.timeoutS = none

/-- At most one entry, so that no placement is reached twice. -/
def GeneratedEntries (entries : List Entry) : Prop :=
  entries.length ≤ 1 ∧ ∀ entry ∈ entries, entry.isGenerated = true

instance (entries : List Entry) : Decidable (GeneratedEntries entries) :=
  inferInstanceAs (Decidable (_ ∧ _))

/-- No name has the characters that separate the parts of an operation's id. -/
def Phase.Separable (phase : Phase) : Prop :=
  '/' ∉ phase.name.toList ∧ '@' ∉ phase.name.toList ∧
    ∀ entry ∈ phase.entries, ∀ id ∈ entry.id, '@' ∉ id.toList

instance (phase : Phase) : Decidable phase.Separable :=
  inferInstanceAs (Decidable (_ ∧ _ ∧ ∀ entry ∈ phase.entries, ∀ id ∈ entry.id, _))

/-- What the phases of a generated table keep to. -/
structure Generated (phases : List Phase) : Prop where
  named : (phases.map Phase.name).Nodup
  forward : ∀ turn ∈ phases.zipIdx,
    ∀ name ∈ TableCompiler.following turn.1 (((phases.take turn.2).getLast?).map Phase.name),
      name ∈ (phases.take turn.2).map Phase.name
  ids : ((phases.flatMap Phase.entries).filterMap Entry.id).Nodup
  entries : ∀ phase ∈ phases, GeneratedEntries phase.entries
  separable : ∀ phase ∈ phases, phase.Separable

instance (phases : List Phase) : Decidable (Generated phases) :=
  decidable_of_iff (_ ∧ _ ∧ _ ∧ _ ∧ _)
    ⟨fun ⟨named, forward, ids, entries, separable⟩ => ⟨named, forward, ids, entries, separable⟩,
      fun h => ⟨h.named, h.forward, h.ids, h.entries, h.separable⟩⟩

theorem initTable_generated (policies : SensorPolicies) : Generated policies.initTable.phases := by
  have all : ∀ overlap opens cover, Generated (SensorPolicies.initTable
      { concurrentDomeAndMountInit := overlap, concurrentDomeInitOpen := opens,
        concurrentMountAndMirrorCoverInit := cover }).phases := by
    decide +kernel
  exact all policies.concurrentDomeAndMountInit policies.concurrentDomeInitOpen
    policies.concurrentMountAndMirrorCoverInit

theorem shutdownTable_generated (policies : SensorPolicies) : Generated policies.shutdownTable.phases := by
  have all : ∀ overlap closes «always», Generated (SensorPolicies.shutdownTable
      { concurrentDomeAndMountDeinit := overlap, concurrentDomeDeinitClose := closes,
        alwaysDeinitDome := «always» }).phases := by
    decide +kernel
  exact all policies.concurrentDomeAndMountDeinit policies.concurrentDomeDeinitClose policies.alwaysDeinitDome

/-- Each entry of the bring-up has an id. -/
theorem initTable_identified (policies : SensorPolicies) :
    ∀ phase ∈ policies.initTable.phases, ∀ entry ∈ phase.entries, entry.id.isSome = true := by
  have all : ∀ overlap opens cover, ∀ phase ∈ (SensorPolicies.initTable
      { concurrentDomeAndMountInit := overlap, concurrentDomeInitOpen := opens,
        concurrentMountAndMirrorCoverInit := cover }).phases, ∀ entry ∈ phase.entries, entry.id.isSome = true := by
    decide +kernel
  exact all policies.concurrentDomeAndMountInit policies.concurrentDomeInitOpen
    policies.concurrentMountAndMirrorCoverInit

/-- A cleanup is armed by all entries of the phases, which have ids. -/
structure ArmedByAll (table : LifecycleWorkflow) (spec : CleanupSpec) : Prop where
  entries : GeneratedEntries spec.entries
  timeout : 0 < spec.timeoutS
  identified : ∀ phase ∈ table.phases, ∀ entry ∈ phase.entries, entry.id.isSome = true
  armedBy : spec.armedBy = some ((table.phases.flatMap Phase.entries).filterMap Entry.id)

/-- **The generated tables.** -/
theorem generated_of_mem {policies : SensorPolicies} {table : LifecycleWorkflow} (mem : table ∈ policies.tables) :
    '@' ∉ table.name.toList ∧ Generated table.phases ∧ ∀ spec ∈ table.cleanup, ArmedByAll table spec := by
  have halts : ∀ spec ∈ policies.initTable.cleanup, ArmedByAll policies.initTable spec := by
    intro spec mem
    obtain rfl := List.mem_singleton.1 mem
    have positive : (0 : ℚ) < 60 := by decide
    refine ⟨⟨le_refl 1, fun entry listed => ?_⟩, positive, initTable_identified policies, rfl⟩
    obtain rfl := List.mem_singleton.1 listed
    rfl
  simp only [SensorPolicies.tables, List.mem_cons, List.not_mem_nil, or_false] at mem
  have names : '@' ∉ "init".toList ∧ '@' ∉ "standby".toList ∧ '@' ∉ "shutdown".toList := by decide
  rcases mem with rfl | rfl | rfl | rfl
  · exact ⟨names.1, initTable_generated policies, halts⟩
  · exact ⟨names.2.1, initTable_generated policies, fun spec mem =>
      ⟨(halts spec mem).entries, (halts spec mem).timeout, (halts spec mem).identified, (halts spec mem).armedBy⟩⟩
  · exact ⟨names.2.2, shutdownTable_generated policies, fun spec mem => absurd mem List.not_mem_nil⟩
  · exact ⟨by decide, by decide +kernel, fun spec mem => absurd mem List.not_mem_nil⟩

/-! ## Pruned tables -/

section Pruned

variable {sensor : BoundSensor} {components : List Component} {generated table : LifecycleWorkflow} {entry : Entry}
  {entries : List Entry} {targets : List Placement} {spec' : CleanupSpec}

/-- Where a placement is recorded, its kind is known. -/
theorem kind_returns {p : Placement} (placed : p ∈ sensor.topology.placements) :
    ∃ kind, sensor.topology.kind p = .ok kind := by
  obtain ⟨record, found⟩ := Dict.mem_keys.1 placed
  unfold Topology.kind Topology.record Topology.lookup
  rw [found]
  cases record <;> exact ⟨_, rfl⟩

/-- A generated selection is answered at every placement. -/
theorem exists_targets (general : entry.isGenerated = true) : ∃ targets, entry.targets sensor = .ok targets := by
  simp only [Entry.isGenerated, Bool.and_eq_true] at general
  obtain ⟨⟨⟨select, whole⟩, -⟩, -⟩ := general
  have answers (p : Placement) (placed : p ∈ sensor.topology.placements) :
      ∃ b, entry.select.matches p (some sensor) = .ok b := by
    unfold Selection.isGenerated at select
    split at select
    next is => exact ⟨_, by rw [is]; rfl⟩
    next is =>
      obtain ⟨kind, known⟩ := kind_returns placed
      rw [is]
      unfold Selection.matches
      exact ⟨_, bind_eq_ok.2 ⟨sensor, rfl, bind_eq_ok.2 ⟨kind, known, rfl⟩⟩⟩
    next => cases select
  obtain ⟨kept, keeps⟩ := returns_iff.1 (raisesOnly_keepM fun p mem => returns_iff.2 (answers p mem))
  unfold Entry.targets
  rw [keeps, Option.isNone_iff_eq_none.1 whole]
  exact ⟨kept, rfl⟩

theorem exists_selecting (general : ∀ entry ∈ entries, entry.isGenerated = true) :
    ∃ kept, selecting sensor entries = .ok kept := by
  refine returns_iff.1 (raisesOnly_keepM fun entry mem => returns_iff.2 ?_)
  obtain ⟨targets, found⟩ : ∃ targets, entry.targets sensor = .ok targets := exists_targets (general entry mem)
  exact ⟨_, bind_eq_ok.2 ⟨targets, found, rfl⟩⟩

/-- **A generated table is pruned.** -/
theorem exists_pruned (phases : ∀ phase ∈ generated.phases, GeneratedEntries phase.entries)
    (cleanup : ∀ spec ∈ generated.cleanup, GeneratedEntries spec.entries) :
    ∃ table, pruned sensor generated = .ok table := by
  have keeps (phase : Phase) (mem : phase ∈ generated.phases) :
      ∃ phase' : Phase, (do return { phase with entries := ← selecting sensor phase.entries }) = Except.ok phase' := by
    obtain ⟨kept, selects⟩ : ∃ kept, selecting sensor phase.entries = .ok kept := exists_selecting (phases phase mem).2
    exact ⟨_, bind_eq_ok.2 ⟨kept, selects, rfl⟩⟩
  obtain ⟨phases, prunes⟩ := exists_mapM keeps
  have tears (spec : CleanupSpec) (mem : spec ∈ generated.cleanup) :
      ∃ spec', prunedCleanup sensor ((phases.flatMap Phase.entries).map Entry.id) spec = .ok spec' := by
    obtain ⟨kept, selects⟩ : ∃ kept, selecting sensor spec.entries = .ok kept := exists_selecting (cleanup spec mem).2
    unfold prunedCleanup
    rw [selects]
    exact ⟨_, (apply_ite Except.ok _ _ _).symm⟩
  obtain ⟨cleanup, tears⟩ := exists_mapM tears
  exact ⟨_, bind_eq_ok.2 ⟨phases, prunes, bind_eq_ok.2 ⟨cleanup, tears, rfl⟩⟩⟩

/-- What a cleanup is pruned to. -/
structure PrunesCleanup (sensor : BoundSensor) (kept : List (Option String)) (spec spec' : CleanupSpec) : Prop where
  entries : selecting sensor spec.entries = .ok spec'.entries
  timeout : spec'.timeoutS = spec.timeoutS
  armedBy : spec'.armedBy = spec.armedBy.map fun ids => ids.filter (some · ∈ kept)

theorem prunedCleanup_eq_ok {kept : List (Option String)} {spec : CleanupSpec}
    (h : prunedCleanup sensor kept spec = .ok (some spec')) : PrunesCleanup sensor kept spec spec' := by
  unfold prunedCleanup at h
  obtain ⟨entries, selects, h⟩ := bind_eq_ok.1 h
  dsimp only at h
  split at h
  · simp [pure, Except.pure] at h
  · cases h
    exact ⟨selects, rfl, rfl⟩

theorem cleanup_of_pruned (h : pruned sensor generated = .ok table) (mem : spec' ∈ table.cleanup) :
    ∃ spec ∈ generated.cleanup,
      PrunesCleanup sensor ((table.phases.flatMap Phase.entries).map Entry.id) spec spec' := by
  unfold pruned at h
  simp only [bind_eq_ok, pure_eq_ok] at h
  obtain ⟨phases, -, cleanup, torn, rfl⟩ := h
  obtain ⟨spec, listed, pruned⟩ := exists_of_mem_mapM torn (List.reduceOption_mem_iff.1 mem)
  exact ⟨spec, listed, prunedCleanup_eq_ok pruned⟩

/-- Whatever one entry reaches, it is the only one to do so. -/
theorem exists_reach (entry : Entry) (targets : List Placement) («where» : String) :
    ∃ reached, (targets.map fun p => ((entry, 0), p)).foldlM (TableCompiler.reach «where») .empty = .ok reached := by
  have turn (p : Placement) (reached : Dict Placement (Entry × ℕ))
      (first : ∀ p held, reached.get? p = some held → held.2 = 0) :
      ∃ reached', TableCompiler.reach «where» reached ((entry, 0), p) = .ok reached' ∧
        ∀ p held, reached'.get? p = some held → held.2 = 0 := by
    unfold TableCompiler.reach
    cases found : reached.get? p with
    | none =>
      refine ⟨reached.insert p (entry, 0), rfl, fun q held there => ?_⟩
      rw [Dict.get?_insert] at there
      split at there
      · cases there
        rfl
      · exact first q held there
    | some held => exact ⟨reached, if_pos (first p held found), first⟩
  refine (exists_foldlM (fun _ reached => ∀ p held, reached.get? p = some held → held.2 = 0) (by simp) ?_).imp
    fun _ loop => loop.1
  intro pre reaching post reached eq first
  have mem : reaching ∈ targets.map fun p => ((entry, 0), p) := by simp [eq]
  obtain ⟨p, -, rfl⟩ := List.mem_map.1 mem
  exact turn p reached first

/-- One entry that selects something is selected. -/
theorem exists_selected (single : entries.length ≤ 1) («where» : String)
    (some_ : ∀ entry ∈ entries, ∃ targets, entry.targets sensor = .ok targets ∧ targets ≠ []) :
    ∃ chosen, TableCompiler.selected sensor entries «where» = .ok chosen := by
  match entries, single with
  | [], _ => exact ⟨[], rfl⟩
  | [entry], _ =>
    obtain ⟨targets, found, inhabited⟩ := some_ entry List.mem_cons_self
    have chosen : TableCompiler.targets sensor «where» entry = .ok targets := by
      unfold TableCompiler.targets
      exact bind_eq_ok.2 ⟨targets, found, if_neg inhabited⟩
    have all : [entry].mapM (TableCompiler.targets sensor «where») = .ok [targets] := by
      simp [chosen]
    obtain ⟨reached, loop⟩ := exists_reach entry targets «where»
    refine ⟨_, bind_eq_ok.2 ⟨_, all, bind_eq_ok.2 ⟨reached, ?_, rfl⟩⟩⟩
    simpa using loop

/-- The entries that are kept are expanded. -/
theorem plain_of_selecting {kept : List Entry} (general : GeneratedEntries entries)
    (selects : selecting sensor entries = .ok kept) : PlainEntries sensor kept := by
  have sub := keepM_sublist selects
  have single : kept.length ≤ 1 := sub.length_le.trans general.1
  have among (entry : Entry) (mem : entry ∈ kept) : entry.isGenerated = true := general.2 entry (sub.subset mem)
  refine ⟨fun entry mem => ?_, ?_, fun «where» => exists_selected single «where» fun entry mem => ?_,
    fun entry mem op listed => ?_⟩
  · have unrequired := among entry mem
    simp only [Entry.isGenerated, Bool.and_eq_true, decide_eq_true_eq] at unrequired
    exact unrequired.1.2
  · match kept, single with
    | [], _ => exact List.nodup_nil
    | [entry], _ => cases has : entry.id <;> simp [has]
  · obtain ⟨-, selected⟩ := mem_of_keepM selects mem
    simp only [bind_eq_ok, pure_eq_ok] at selected
    obtain ⟨targets, found, inhabited⟩ := selected
    exact ⟨targets, found, by simpa using inhabited⟩
  · have ops := among entry mem
    simp only [Entry.isGenerated, Bool.and_eq_true, List.all_eq_true, decide_eq_true_eq] at ops
    exact ops.2 op listed

/-! ## Ids -/

theorem at_notMem_toString (n : ℕ) : '@' ∉ (toString n).toList := by
  intro mem
  have digit := Nat.isDigit_of_mem_toDigits (by decide) (by decide) (Nat.toList_repr ▸ mem)
  simp at digit

theorem at_notMem_part {phase : Phase} (separable : phase.Separable) (mem : entry ∈ phase.entries) (position : ℕ) :
    '@' ∉ (entry.part position).shown.toList := by
  unfold Entry.part
  cases has : entry.id with
  | none => exact at_notMem_toString position
  | some id =>
    dsimp only
    split
    · exact at_notMem_toString position
    · exact separable.2.2 entry mem id has

/-- **Labels.** Where no name has a separator, a label says the phase and the position of a command. -/
theorem labelled_of_separable (name : '@' ∉ table.name.toList) (separable : ∀ phase ∈ table.phases, phase.Separable) :
    Labelled table := by
  have site (s : Site) (mem : s ∈ table.sites) :
      s.lead = [] ∧ '/' ∉ s.owner.toList ∧ '@' ∉ s.owner.toList ∧ '@' ∉ (s.entry.part s.position).shown.toList := by
    obtain ⟨phase, listed, here⟩ := List.mem_flatMap.1 mem
    obtain ⟨⟨entry, position⟩, there, rfl⟩ := List.mem_map.1 here
    have apart := separable phase listed
    exact ⟨rfl, apart.1, apart.2.1, at_notMem_part apart (List.fst_mem_of_mem_zipIdx there) position⟩
  have slash : "/".toList = ['/'] := rfl
  have shown (s : Site) (mem : s ∈ table.sites) (k : ℕ) :
      (Origin.shown { source := table.name, path := s.commandPath k }).toList = table.name.toList ++ '/' ::
        (s.owner.toList ++ '/' :: ((s.entry.part s.position).shown.toList ++ '/' :: (toString k).toList)) := by
    have parts : Origin.shown { source := table.name, path := s.commandPath k } =
        table.name ++ "/" ++ s.owner ++ "/" ++ (s.entry.part s.position).shown ++ "/" ++ toString k := by
      unfold Site.commandPath Site.path
      rw [(site s mem).1]
      rfl
    rw [parts]
    simp only [String.toList_append, slash, List.append_assoc, List.cons_append, List.nil_append]
  intro s mem k _
  constructor
  · rw [shown s mem]
    obtain ⟨-, -, owner, part⟩ := site s mem
    have numeral := at_notMem_toString k
    simpa [name, owner, part] using numeral
  · intro s' mem' k' _ same
    have lists := congrArg String.toList same
    rw [shown s mem, shown s' mem'] at lists
    have rest := (List.cons.inj (List.append_cancel_left lists)).2
    obtain ⟨owner, rest⟩ := eq_of_append_cons rest (site s mem).2.1 (site s' mem').2.1
    have position := suffix_eq_of_append_cons rest slash_notMem_toString slash_notMem_toString
    exact ⟨String.toList_injective owner, toString_inj (String.toList_injective position)⟩

/-! ## Compilation -/

namespace Prunes

variable (h : Prunes sensor generated table)

include h

theorem names_eq : table.phases.map Phase.name = generated.phases.map Phase.name := by
  refine List.ext_getElem? fun i => ?_
  have bare := congrArg (Option.map Phase.name) (h.bare i)
  simpa only [List.getElem?_map, Option.map_map, Function.comp_def] using bare

theorem entries_sublist : (table.phases.flatMap Phase.entries).Sublist (generated.phases.flatMap Phase.entries) := by
  have all {phases phases' : List Phase} (alike : List.Forall₂ (fun phase phase' : Phase =>
      phase' = { phase with entries := phase'.entries } ∧ selecting sensor phase.entries = .ok phase'.entries)
      phases phases') : (phases'.flatMap Phase.entries).Sublist (phases.flatMap Phase.entries) := by
    induction alike with
    | nil => exact .slnil
    | cons first _ ih =>
      rw [List.flatMap_cons, List.flatMap_cons]
      exact (keepM_sublist first.2).append ih
  exact all h.phases

/-- A phase follows what it followed before. -/
theorem forward (general : Generated generated.phases) {done rest : List Phase} {phase : Phase}
    (split : table.phases = done ++ phase :: rest) :
    ∀ name ∈ TableCompiler.following phase ((done.getLast?).map Phase.name), name ∈ done.map Phase.name := by
  have here : table.phases[done.length]? = some phase := by simp [split]
  obtain ⟨phase', there, eq, -⟩ := h.phase_of here
  have before : (generated.phases.take done.length).map Phase.name = done.map Phase.name := by
    rw [List.map_take, ← h.names_eq, ← List.map_take, split, List.take_left]
  have forward := general.forward (phase', done.length) (List.mk_mem_zipIdx_iff_getElem?.2 there)
  dsimp only at forward
  rw [before, ← List.getLast?_map, before, List.getLast?_map] at forward
  have same : TableCompiler.following phase' ((done.getLast?).map Phase.name) =
      TableCompiler.following phase ((done.getLast?).map Phase.name) := by
    rw [eq]
    rfl
  rwa [same] at forward

/-- The phases of a pruned table are separable. -/
theorem separable (general : Generated generated.phases) : ∀ phase ∈ table.phases, phase.Separable := by
  intro phase mem
  obtain ⟨i, here⟩ := List.mem_iff_getElem?.1 mem
  obtain ⟨phase', there, eq, selects⟩ := h.phase_of here
  obtain ⟨slash, device, ids⟩ := general.separable phase' (List.mem_of_getElem? there)
  rw [eq]
  exact ⟨slash, device, fun entry listed => ids entry ((keepM_sublist selects).subset listed)⟩

end Prunes

/-- The ids by which a cleanup is armed are those of the entries that are kept. -/
theorem ArmedByAll.armedBy_iff {spec : CleanupSpec} (arms : ArmedByAll generated spec)
    (prunes : Prunes sensor generated table)
    (pruned : PrunesCleanup sensor ((table.phases.flatMap Phase.entries).map Entry.id) spec spec') :
    ∃ ids, spec'.armedBy = some ids ∧ ∀ id, id ∈ ids ↔ ∃ entry ∈ table.phases.flatMap Phase.entries, entry.id = some id := by
  refine ⟨_, by rw [pruned.armedBy, arms.armedBy]; rfl, fun id => ?_⟩
  rw [List.mem_filter, decide_eq_true_eq, List.mem_map]
  constructor
  · rintro ⟨-, entry, kept, has⟩
    exact ⟨entry, kept, has⟩
  · rintro ⟨entry, kept, has⟩
    exact ⟨List.mem_filterMap.2 ⟨entry, prunes.entries_sublist.subset kept, has⟩, entry, kept, has⟩

/-- **A pruned table compiles.** -/
theorem plain_of_pruned (general : Generated generated.phases)
    (cleanup : ∀ spec ∈ generated.cleanup, ArmedByAll generated spec) (h : pruned sensor generated = .ok table) :
    Plain table sensor := by
  have prunes := pruned_eq_ok h
  refine ⟨prunes.names_eq ▸ general.named, fun done phase rest split => prunes.forward general split,
    (prunes.entries_sublist.filterMap Entry.id).nodup general.ids, fun phase mem => ?_, fun spec' mem => ?_⟩
  · obtain ⟨i, here⟩ := List.mem_iff_getElem?.1 mem
    obtain ⟨phase', there, -, selects⟩ := prunes.phase_of here
    exact plain_of_selecting (general.entries phase' (List.mem_of_getElem? there)) selects
  · obtain ⟨spec, listed, pruned⟩ := cleanup_of_pruned h mem
    have arms := cleanup spec listed
    refine ⟨plain_of_selecting arms.entries pruned.entries, pruned.timeout ▸ arms.timeout, fun ids has id named => ?_⟩
    obtain ⟨ids', has', iff⟩ := arms.armedBy_iff prunes pruned
    cases has.symm.trans has'
    exact List.mem_filterMap.2 ((iff id).1 named)

end Pruned

/-- **Generated tables compile** on every sensor, with their cleanups. A cleanup that is kept is armed by the operations of
the entries that were kept, where these are supported; they are all operations of the main graph. -/
theorem composeTables_compile {components : List Component} {sensor : BoundSensor}
    (built : Topology.build components = .ok sensor.topology) (policies : SensorPolicies) :
    ∃ tables, composeTables [] policies.tables sensor = .ok tables ∧ ∀ table ∈ tables,
      ∃ workflow, compileLifecycle table sensor [] [] = .ok workflow ∧
        workflow.cleanup.length = table.cleanup.length ∧
        ∀ cleanup ∈ workflow.cleanup, ∃ armed, cleanup.armedBy = some armed ∧ ∀ operation,
          (operation ∈ armed ↔ ∃ s ∈ table.sites, s.Dispatches table sensor operation) ∧
          (operation ∈ armed ↔ operation ∈ operationsOf workflow.graph) := by
  have devices : ∀ p ∈ sensor.topology.placements, ∀ q ∈ sensor.topology.placements, p.device = q.device → p = q :=
    fun p mem q mem' same => Topology.eq_of_placed built mem mem' same
  have each (generated : LifecycleWorkflow) (mem : generated ∈ policies.tables) :
      ∃ table, pruned sensor generated = .ok table := by
    obtain ⟨-, general, arms⟩ := generated_of_mem mem
    exact exists_pruned general.entries fun spec listed => (arms spec listed).entries
  obtain ⟨tables, prunes⟩ := exists_mapM each
  have composes : composeTables [] policies.tables sensor = .ok tables := by
    unfold composeTables
    simpa using prunes
  refine ⟨tables, composes, fun table mem => ?_⟩
  obtain ⟨generated, listed, prunes⟩ := exists_of_mem_mapM prunes mem
  obtain ⟨name, general, arms⟩ := generated_of_mem listed
  have same := pruned_eq_ok prunes
  have labelled := labelled_of_separable (same.name ▸ name) (same.separable general)
  obtain ⟨workflow, compiles, main, armed⟩ := (plain_of_pruned general arms prunes).compiles labelled devices
  refine ⟨workflow, compiles, armed.length_eq.symm, fun cleanup inside => ?_⟩
  obtain ⟨spec', listed', by_⟩ := exists_left_of_forall₂ armed inside
  obtain ⟨spec, listed'', pruned⟩ := cleanup_of_pruned prunes listed'
  obtain ⟨ids, has, iff⟩ := (arms spec listed'').armedBy_iff same pruned
  have identified (s : Site) (here : s ∈ table.sites) : ∃ id ∈ ids, s.entry.id = some id := by
    obtain ⟨phase, mem, there⟩ := List.mem_flatMap.1 here
    obtain ⟨⟨entry, position⟩, at_, rfl⟩ := List.mem_map.1 there
    have kept := List.mem_flatMap.2 ⟨phase, mem, List.fst_mem_of_mem_zipIdx at_⟩
    obtain ⟨phase', mem', among⟩ := List.mem_flatMap.1 (same.entries_sublist.subset kept)
    obtain ⟨id, named⟩ := Option.isSome_iff_exists.1 ((arms spec listed'').identified phase' mem' entry among)
    exact ⟨id, (iff id).2 ⟨entry, kept, named⟩, named⟩
  rw [has] at by_
  cases operations : cleanup.armedBy with
  | none =>
    rw [operations] at by_
    exact by_.elim
  | some armed =>
    rw [operations] at by_
    have all (operation : Operation) : operation ∈ armed ↔ ∃ s ∈ table.sites, s.Dispatches table sensor operation := by
      refine (by_ operation).trans ⟨fun ⟨s, here, _, dispatches⟩ => ⟨s, here, dispatches⟩, ?_⟩
      rintro ⟨s, here, dispatches⟩
      exact ⟨s, here, identified s here, dispatches⟩
    exact ⟨armed, rfl, fun operation => ⟨all operation, (all operation).trans (main operation).symm⟩⟩

/-- The telescope keeps the cleanup of its bring-up. -/
theorem composeTables_compile_example : ∃ topology tables, Topology.build telescopeSite = .ok topology ∧
    composeTables [] alwaysPolicies.tables ⟨topology, telescopeDetails, none⟩ = .ok tables ∧
    tables.map (fun table => table.cleanup.length) = [1, 1, 0, 0] ∧ ∀ table ∈ tables,
      ∃ workflow, compileLifecycle table ⟨topology, telescopeDetails, none⟩ [] [] = .ok workflow ∧
        workflow.cleanup.length = table.cleanup.length := by
  have runs : ((Topology.build telescopeSite).toOption.bind fun topology =>
      (composeTables [] alwaysPolicies.tables ⟨topology, telescopeDetails, none⟩).toOption.map fun tables =>
        tables.map fun table => table.cleanup.length) = some [1, 1, 0, 0] := by
    decide +kernel
  obtain ⟨topology, builds, runs⟩ := Option.bind_eq_some_iff.1 runs
  obtain ⟨tables, composes, lengths⟩ := Option.map_eq_some_iff.1 runs
  have built : Topology.build telescopeSite = .ok (BoundSensor.topology ⟨topology, telescopeDetails, none⟩) :=
    toOption_eq_some.1 builds
  obtain ⟨tables', composes', compile⟩ := composeTables_compile built alwaysPolicies
  obtain rfl := Except.ok.inj (composes'.symm.trans (toOption_eq_some.1 composes))
  refine ⟨topology, tables', built, composes', lengths, fun table mem => ?_⟩
  obtain ⟨workflow, compiles, length, -⟩ := compile table mem
  exact ⟨workflow, compiles, length⟩

end SensorKit.Sensor
