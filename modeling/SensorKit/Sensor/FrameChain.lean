import SensorKit.Sensor.CollectRun
import SensorKit.Sensor.FrameNumbers

/-!
# The captures of an instrument are chained

The compiler groups the acquisitions of an epoch by instrument, which keeps their order for each of them.
So the captures of an instrument are emitted in the order of the bound epochs, and each depends on the one before.
-/

namespace SensorKit.Sensor

open Lib Common PlannedStep

variable {collect : BoundCollect} {sensor : BoundSensor} {deadlines : List DeadlineRule} {rules : List OperatorRule}
  {i : Placement}

/-- The acquisitions of the captures of the instrument, in order. -/
def instrumentAcquisitions (units : List PlannedAcquisition) (i : Placement) : List Acquisition :=
  (units.filter (·.target = i)).map PlannedAcquisition.acquisition

theorem instrumentAcquisitions_append (units units' : List PlannedAcquisition) :
    instrumentAcquisitions (units ++ units') i = instrumentAcquisitions units i ++ instrumentAcquisitions units' i := by
  simp [instrumentAcquisitions]

/-! ## Emission -/

namespace CollectCompiler

variable {c c' : CollectCompiler} {step : PlannedStep} {units : List PlannedAcquisition} {index : ℕ}
  {hard soft : List String} {delay : ℚ}

/-- The steps emitted so far capture the acquisitions on the instrument, in order. -/
def Acquires (c : CollectCompiler) (i : Placement) (acquisitions : List Acquisition) : Prop :=
  (c.steps.filter (reads i)).map PlannedStep.acquisition = acquisitions.map some

variable {acquisitions : List Acquisition}

section

variable (h : c.Acquires i acquisitions)
include h

theorem Acquires.congr (same : c'.steps = c.steps) : c'.Acquires i acquisitions := by
  unfold Acquires
  rw [same]
  exact h

/-- A step that captures nothing adds no acquisition. -/
theorem Acquires.emit (none_ : step.acquisition = none) (steps : c'.steps = c.steps ++ [step]) :
    c'.Acquires i acquisitions := by
  have reads : step.reads i = false := by simp [PlannedStep.reads, none_]
  unfold Acquires at h ⊢
  rw [steps, List.filter_append, List.map_append, h]
  simp [reads]

theorem Acquires.change {r : RoutedCommand} : (change collect sensor index c r).Acquires i acquisitions := by
  unfold CollectCompiler.change
  split_ifs
  · exact h
  · exact h.emit rfl rfl

theorem Acquires.changes {rs : List RoutedCommand} :
    (rs.foldl (CollectCompiler.change collect sensor index) c).Acquires i acquisitions := by
  induction rs generalizing c with
  | nil => exact h
  | cons r rs ih => exact ih h.change

theorem Acquires.align {epoch : BoundEpoch} {blocks : Dict Placement (List PlannedAcquisition)}
    {needs : List (List String × List String)} :
    (c.align collect epoch blocks needs index).1.Acquires i acquisitions := by
  unfold CollectCompiler.align
  split_ifs
  · exact h
  · exact h.emit rfl rfl

/-- A capture adds its acquisition to its instrument. -/
theorem Acquires.unit {unit : PlannedAcquisition} : (c.emit (c.unitStep collect unit index hard soft delay)).Acquires i
      (acquisitions ++ instrumentAcquisitions [unit] i) := by
  unfold Acquires at h ⊢
  rw [show (c.emit (c.unitStep collect unit index hard soft delay)).steps =
    c.steps ++ [c.unitStep collect unit index hard soft delay] from rfl, List.filter_append, List.map_append, h,
    List.map_append]
  congr 1
  by_cases same : unit.target = i
  · simp [instrumentAcquisitions, reads, unitStep, same]
  · simp [instrumentAcquisitions, reads, unitStep, same]

/-- **Emitting a block** adds the acquisitions of its captures. -/
theorem Acquires.emitUnits : (c.emitUnits collect units index hard soft delay).Acquires i
    (acquisitions ++ instrumentAcquisitions units i) := by
  have rest (units : List PlannedAcquisition) : ∀ (state : CollectCompiler × String) (acquisitions : List Acquisition),
      state.1.Acquires i acquisitions → (units.foldl (emitRest collect index hard) state).1.Acquires i
        (acquisitions ++ instrumentAcquisitions units i) := by
    induction units with
    | nil => exact fun state acquisitions h => by simpa [instrumentAcquisitions] using h
    | cons unit units ih =>
      intro state acquisitions h
      have next := ih (emitRest collect index hard state unit) _ h.unit
      rwa [List.append_assoc, ← instrumentAcquisitions_append] at next
  cases units with
  | nil => simpa [CollectCompiler.emitUnits, instrumentAcquisitions] using h
  | cons first units =>
    have next := rest units (c.emit (c.unitStep collect first index hard soft delay),
      (c.unitStep collect first index hard soft delay).name) _ h.unit
    rw [List.append_assoc, ← instrumentAcquisitions_append] at next
    exact next.congr rfl

theorem Acquires.emitBlocks {aligned : Option String} {offset : List PlannedAcquisition → ℚ}
    {blocks : List ((Placement × List PlannedAcquisition) × List String × List String)} :
    (blocks.foldl (emitBlock collect index aligned offset) c).Acquires i
      (acquisitions ++ instrumentAcquisitions (blocks.flatMap (·.1.2)) i) := by
  induction blocks generalizing c acquisitions with
  | nil => simpa [instrumentAcquisitions] using h
  | cons b blocks ih =>
    have block : (emitBlock collect index aligned offset c b).Acquires i
        (acquisitions ++ instrumentAcquisitions b.1.2 i) := h.emitUnits
    have next := ih block
    rwa [List.append_assoc, ← instrumentAcquisitions_append] at next

end

/-- Grouping the acquisitions of an epoch by instrument keeps those of each instrument. -/
theorem instrumentAcquisitions_blocks :
    instrumentAcquisitions ((blocks units).entries.flatMap Prod.snd) i = instrumentAcquisitions units i := by
  unfold instrumentAcquisitions
  rw [List.filter_flatMap]
  exact congrArg (List.map PlannedAcquisition.acquisition) (Dict.filter_entries_group (f := PlannedAcquisition.target))

/-- **Compiling an epoch** adds the acquisitions of its captures, in their order for each instrument. -/
theorem Acquires.compileEpoch {epoch : BoundEpoch} (h : c.Acquires i acquisitions)
    (compiles : c.compileEpoch collect sensor epoch index = .ok c') :
    c'.Acquires i (acquisitions ++ instrumentAcquisitions epoch.units i) := by
  simp only [CollectCompiler.compileEpoch, bind_eq_ok, pure_eq_ok] at compiles
  obtain ⟨_, -, derived, -, needs, needed, rfl⟩ := compiles
  obtain ⟨length, -⟩ := List.forall₂_iff_zip.1 (List.forall₂_map_left_iff.1 (mapM_eq_ok.1 needed))
  have emitted : ((blocks epoch.units).entries.zip needs).flatMap (·.1.2) =
      (blocks epoch.units).entries.flatMap Prod.snd := by
    have first : ((blocks epoch.units).entries.zip needs).map Prod.fst = (blocks epoch.units).entries :=
      List.map_fst_zip length.le
    conv_rhs => rw [← first, List.flatMap_map]
  rw [← instrumentAcquisitions_blocks, ← emitted]
  exact h.changes.align.emitBlocks

/-- **The steps of a collect** capture the acquisitions of each instrument in the order of the bound epochs. -/
theorem acquires_of_emission (h : emission collect sensor = .ok c) :
    c.Acquires i (instrumentAcquisitions (collect.epochs.flatMap Epoch.units) i) := by
  have prepared (post : List (RoutedCommand × ℕ)) : ∀ c : CollectCompiler, c.Acquires i [] →
      (post.foldl (fun c routed => c.prepareOne collect sensor routed.1 routed.2) c).Acquires i [] := by
    induction post with
    | nil => exact fun _ h => h
    | cons x post ih => exact fun c h => ih _ (h.emit rfl rfl)
  have inv := foldlM_invariant_prefix (fun pre (c : CollectCompiler) =>
    c.Acquires i (instrumentAcquisitions (pre.flatMap fun e : BoundEpoch × ℕ => e.1.units) i)) h (prepared _ {} rfl) ?_
  · have epochs : collect.epochs.zipIdx.map Prod.fst = collect.epochs := List.zipIdx_map_fst _ _
    rw [← epochs, List.flatMap_map]
    exact inv
  · rintro pre ⟨epoch, index⟩ post c c' - acquires turn
    rw [List.flatMap_append, List.flatMap_singleton, instrumentAcquisitions_append]
    exact acquires.compileEpoch turn

end CollectCompiler

/-! ## The graph -/

/-- The node is a capture of the instrument. -/
def CaptureAt (g : Graph (Option Operation)) (i : Placement) (n : ℕ) (acquisition : Acquisition) : Prop :=
  ∃ op, OpAt g n op ∧ op.target = i ∧ op.acquisition = some acquisition

/-- **The captures of an instrument are chained**: the nodes take its acquisitions in order, and each depends on the one
before. -/
structure CapturesChained (g : Graph (Option Operation)) (i : Placement) (acquisitions : List Acquisition)
    (nodes : List ℕ) : Prop where
  nodup : nodes.Nodup
  all : ∀ n acquisition, CaptureAt g i n acquisition → n ∈ nodes
  captures : List.Forall₂ (CaptureAt g i) nodes acquisitions
  chained : nodes.IsChain fun m n => m ∈ g.deps n

/-- A step that commands a placement has an operation. -/
theorem exists_op_of_planned {step : PlannedStep} {payload : Option Operation} {command : DeviceCommand}
    (h : planned step sensor deadlines = .ok payload) (commanded : step.command = some command)
    (placed : step.target = some i) : ∃ op, payload = some op := by
  unfold planned at h
  rw [commanded, placed] at h
  simp only [bind_eq_ok, pure_eq_ok] at h
  obtain ⟨timeout, -, rfl⟩ := h
  exact ⟨_, rfl⟩

theorem capturesChained_of_projects {steps : List PlannedStep} {graph : Graph (Option Operation)}
    {acquisitions : List Acquisition} (projects : Projects sensor deadlines rules steps graph)
    (traced : Traced (Emitted collect sensor) steps) (kept : ∀ step ∈ steps, step.omitted sensor = false)
    (acquires : (steps.filter (reads i)).map PlannedStep.acquisition = acquisitions.map some) :
    CapturesChained graph i acquisitions (positions (reads i) steps) := by
  refine ⟨nodup_positions, ?_, ?_, ?_⟩
  · rintro n acquisition ⟨op, ⟨node, found, payload⟩, rfl, taken⟩
    obtain ⟨mem, rfl⟩ := Graph.node_mem found
    obtain ⟨step, here, nodeOf⟩ := projects.step_of kept mem
    have stepOf := CollectGraph.stepOf_of_planned (payload ▸ nodeOf.payload)
    refine mem_positions.2 ⟨step, here, reads_iff.2 ⟨?_, stepOf.target⟩⟩
    rw [stepOf.acquisition, taken]
    rfl
  · have taken : (positions (reads i) steps).map (fun n => steps[n]?.bind PlannedStep.acquisition) =
        acquisitions.map some := by
      have places : (positions (reads i) steps).map (steps[·]?) = (steps.filter (reads i)).map some := map_positions
      have bound := congrArg (List.map (Option.bind · PlannedStep.acquisition)) places
      rw [List.map_map, List.map_map] at bound
      exact bound.trans acquires
    have pairs : List.Forall₂ (fun n acquisition => steps[n]?.bind PlannedStep.acquisition = some acquisition)
        (positions (reads i) steps) acquisitions := by
      have both : List.Forall₂ Eq ((positions (reads i) steps).map fun n => steps[n]?.bind PlannedStep.acquisition)
          (acquisitions.map some) := by
        rw [List.forall₂_eq_eq_eq]
        exact taken
      exact List.forall₂_map_right_iff.1 (List.forall₂_map_left_iff.1 both)
    have listed := (List.forall₂_and_left (p := fun n => n ∈ positions (reads i) steps) _ _).2 ⟨fun _ => id, pairs⟩
    refine listed.imp fun n acquisition both => ?_
    obtain ⟨mem, taken⟩ := both
    obtain ⟨step, here, reader⟩ := mem_positions.1 mem
    rw [here] at taken
    obtain ⟨node, inside, rfl, nodeOf⟩ := projects.node_at kept here
    obtain ⟨_, command⟩ := ((traced node.id step here).capture i reader).command
    obtain ⟨op, payload⟩ := exists_op_of_planned nodeOf.payload command (reads_iff.1 reader).2
    have stepOf := CollectGraph.stepOf_of_planned (payload ▸ nodeOf.payload)
    refine ⟨op, ⟨node, Graph.node_eq_some projects.valid.ids inside, payload⟩, ?_, stepOf.acquisition.symm.trans taken⟩
    exact Option.some.inj (stepOf.target.symm.trans (reads_iff.1 reader).2)
  · refine isChain_positions.imp_of_mem_imp fun m n _ mem => ?_
    rintro ⟨l, there, last⟩
    obtain ⟨step, here, reader⟩ := mem_positions.1 mem
    exact (projects.deps_iff kept).2 ⟨step, l, here, there, ((traced n step here).capture i reader).after_capture l last⟩

/-- **Frame numbering has no gaps or repeats.** Whenever `pack` succeeds, the captures of each instrument, each named
assignment and each unnamed request are numbered from zero in the order of the bound epochs, and in the compiled graph,
under whatever deadlines and operator rules, the captures of each instrument are chained in the order of their frame
numbers. -/
theorem frames_chained {intent : CollectIntent} {keywords : Option (Dict String (Dict String Keyword))}
    (packs : pack intent sensor keywords = .ok collect) :
    (∃ segments, FramesNumbered intent (collect.epochs.flatMap Epoch.units) segments) ∧
      ∀ deadlines rules workflow, compileCollect collect sensor deadlines rules = .ok workflow →
        ∀ i, ∃ nodes, CapturesChained workflow.graph i
          (instrumentAcquisitions (collect.epochs.flatMap Epoch.units) i) nodes := by
  refine ⟨framesNumbered packs, fun deadlines rules workflow compiles i => ?_⟩
  obtain ⟨c, emits, projects, traced, kept⟩ := projects_of_compile packs compiles
  exact ⟨_, capturesChained_of_projects projects traced kept (CollectCompiler.acquires_of_emission emits)⟩

/-- The two frames of the camera. -/
theorem frames_chained_twoFrames : ∃ collect workflow nodes, pack (twoFrames selectFilter) imager none = .ok collect ∧
    compileCollect collect imager [] [] = .ok workflow ∧
    frameNumbers (collect.epochs.flatMap Epoch.units) ⟨"camera", ["camera"]⟩ = [0, 1] ∧
    CapturesChained workflow.graph ⟨"camera", ["camera"]⟩
      (instrumentAcquisitions (collect.epochs.flatMap Epoch.units) ⟨"camera", ["camera"]⟩) nodes := by
  have found : ((pack (twoFrames selectFilter) imager none).toOption.bind fun collect =>
      (compileCollect collect imager [] []).toOption.map fun _ =>
        frameNumbers (collect.epochs.flatMap Epoch.units) ⟨"camera", ["camera"]⟩) = some [0, 1] := by
    decide +kernel
  obtain ⟨collect, packs, found⟩ := Option.bind_eq_some_iff.1 found
  obtain ⟨workflow, compiles, numbers⟩ := Option.map_eq_some_iff.1 found
  have packs := toOption_eq_some.1 packs
  have compiles := toOption_eq_some.1 compiles
  obtain ⟨nodes, chained⟩ := (frames_chained packs).2 [] [] workflow compiles ⟨"camera", ["camera"]⟩
  exact ⟨collect, workflow, nodes, packs, compiles, numbers, chained⟩

end SensorKit.Sensor
