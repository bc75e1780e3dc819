import SensorKit.Sensor.PackingSound

/-!
# Frame numbers and request ordinals

Packing numbers the captures of each instrument across the collect, and the captures of each named
assignment on each instrument. A segment is what a request becomes on one of its instruments. The
counters of the packer are the lengths of what has been numbered.
-/

namespace SensorKit.Sensor

open Lib

/-! ## Numberings -/

/-- The numbers are 0, 1, 2 and so on, without gaps or repeats. -/
def Consecutive (xs : List ℤ) : Prop :=
  xs = (List.range xs.length).map Nat.cast

/-- The numbers are consecutive, and the counter is the next one. -/
def Counts (next : ℤ) (xs : List ℤ) : Prop :=
  Consecutive xs ∧ next = xs.length

theorem counts_nil : Counts 0 [] := ⟨rfl, rfl⟩

/-- A segment of numbers that begins with the counter carries the numbering on. -/
theorem Counts.append {next count : ℤ} {xs : List ℤ} (h : Counts next xs) (nonneg : 0 ≤ count) :
    Counts (next + count) (xs ++ (List.range count.toNat).map fun offset : ℕ => next + offset) := by
  obtain ⟨consecutive, rfl⟩ := h
  constructor
  · unfold Consecutive at consecutive ⊢
    rw [List.length_append, List.length_map, List.length_range, List.range_add, List.map_append, ← consecutive,
      List.map_map]
    congr 1
  · simp
    omega

/-- A segment of numbers that begins with zero is a numbering of its own. -/
theorem consecutive_range (n : ℕ) : Consecutive ((List.range n).map fun offset : ℕ => (0 : ℤ) + offset) := by
  unfold Consecutive
  simp

/-! ## Segments -/

/-- The captures of a request on one of its instruments. -/
structure Segment where
  request : InstrumentRequest
  target : Placement
  captures : List PlannedAcquisition

/-- The frame numbers of the captures of the instrument. -/
def frameNumbers (units : List PlannedAcquisition) (i : Placement) : List ℤ :=
  (units.filter (·.target = i)).map (·.acquisition.frameNumber)

/-- The request ordinals of the captures. -/
def requestOrdinals (units : List PlannedAcquisition) : List ℤ :=
  units.map (·.acquisition.index)

/-- The captures of the segments of the named assignment on the instrument. -/
def assignedCaptures (segments : List Segment) (name : String) (i : Placement) : List PlannedAcquisition :=
  (segments.filter fun s => s.request.assignment = some name ∧ s.target = i).flatMap Segment.captures

/-- The captures are those that the request asks for on the instrument. -/
structure Segment.Taken (s : Segment) : Prop where
  length : s.captures.length = s.request.count
  request : ∀ u ∈ s.captures, u.acquisition.request = s.request.id
  target : ∀ u ∈ s.captures, u.target = s.target

/-- The segments are those of the requests on their instruments, in order. -/
def SegmentsOf (requests : List InstrumentRequest) (segments : List Segment) : Prop :=
  ∃ assigned : Assigned, assigned.map Prod.fst = requests ∧
    segments.map (fun s => (s.request, s.target)) = assigned.flatMap fun a => a.2.map (Prod.mk a.1)

/-- **The numbering of a collect.** Read in the order of the bound epochs, the frame numbers of each
instrument count up from zero, and so do the ordinals of each named assignment on each instrument and those of each
unnamed request on each of its instruments. -/
structure FramesNumbered (intent : CollectIntent) (units : List PlannedAcquisition) (segments : List Segment) : Prop where
  /-- The captures are those of the authored requests on their instruments. -/
  requests : SegmentsOf (intent.epochs.flatMap Epoch.units) segments
  captures : segments.flatMap Segment.captures = units
  taken : ∀ s ∈ segments, s.Taken
  frames : ∀ i, Consecutive (frameNumbers units i)
  named : ∀ name i, Consecutive (requestOrdinals (assignedCaptures segments name i))
  unnamed : ∀ s ∈ segments, s.request.assignment = none → Consecutive (requestOrdinals s.captures)

variable {request : InstrumentRequest} {target i : Placement} {segments segments' : List Segment}
  {requests requests' : List InstrumentRequest} {name : String}

theorem SegmentsOf.append (h : SegmentsOf requests segments) (h' : SegmentsOf requests' segments') :
    SegmentsOf (requests ++ requests') (segments ++ segments') := by
  obtain ⟨assigned, rfl, pairs⟩ := h
  obtain ⟨assigned', rfl, pairs'⟩ := h'
  refine ⟨assigned ++ assigned', by simp, ?_⟩
  rw [List.map_append, pairs, pairs', List.flatMap_append]

section Expand

variable {frame first : ℤ}

theorem expand_eq_map : request.expand target frame first = (List.range request.count.toNat).map fun offset : ℕ =>
    { acquisition :=
        { request := request.id
          index := first + offset
          frameNumber := frame + offset
          keywords := request.collect.map fun c => { c with frameNumber := frame + offset } }
      target
      command := .cameraCapture request.acquisition.integrationTimeS
      estimatedDurationS := request.acquisition.integrationTimeS
      timeoutS := request.acquisition.timeoutS } := by
  unfold InstrumentRequest.expand
  simp only [List.bind_eq_flatMap, List.pure_def, List.map_flatMap, List.map_singleton]
  exact List.flatMap_pure_eq_map _ _

theorem frameNumbers_expand : frameNumbers (request.expand target frame first) target =
    (List.range request.count.toNat).map fun offset : ℕ => frame + offset := by
  unfold frameNumbers
  rw [expand_eq_map, List.filter_eq_self.2 (by simp), List.map_map]
  rfl

theorem frameNumbers_expand_of_ne (other : i ≠ target) : frameNumbers (request.expand target frame first) i = [] := by
  unfold frameNumbers
  rw [expand_eq_map, List.filter_eq_nil_iff.2, List.map_nil]
  simp [Ne.symm other]

theorem requestOrdinals_expand : requestOrdinals (request.expand target frame first) =
    (List.range request.count.toNat).map fun offset : ℕ => first + offset := by
  unfold requestOrdinals
  rw [expand_eq_map, List.map_map]
  rfl

theorem taken_expand (positive : 1 ≤ request.count) :
    Segment.Taken ⟨request, target, request.expand target frame first⟩ := by
  have mem {u : PlannedAcquisition} (here : u ∈ request.expand target frame first) :
      u.acquisition.request = request.id ∧ u.target = target := by
    rw [expand_eq_map] at here
    obtain ⟨offset, -, rfl⟩ := List.mem_map.1 here
    exact ⟨rfl, rfl⟩
  refine ⟨?_, fun u here => (mem here).1, fun u here => (mem here).2⟩
  simp only [expand_eq_map, List.length_map, List.length_range]
  omega

end Expand

theorem frameNumbers_append (units units' : List PlannedAcquisition) :
    frameNumbers (units ++ units') i = frameNumbers units i ++ frameNumbers units' i := by
  simp [frameNumbers]

/-- A segment adds to the captures of its own assignment and instrument. -/
theorem assignedCaptures_snoc (s : Segment) : assignedCaptures (segments ++ [s]) name i =
    assignedCaptures segments name i ++ if s.request.assignment = some name ∧ s.target = i then s.captures else [] := by
  unfold assignedCaptures
  rw [List.filter_append, List.flatMap_append]
  split_ifs with here <;> simp [here]

/-! ## The counters of the packer -/

namespace CollectPacker

variable {c c' : CollectPacker} {epoch : RequestEpoch} {assigned : Assigned} {«where» : String} {index : ℕ}
  {bound : BoundEpoch}

/-- The counters are at the lengths of what the segments have been numbered with. -/
structure Numbers (c : CollectPacker) (segments : List Segment) : Prop where
  taken : ∀ s ∈ segments, s.Taken
  frames : ∀ i, Counts ((c.frames.get? i).getD 0) (frameNumbers (segments.flatMap Segment.captures) i)
  named : ∀ name i, Counts ((c.ordinals.get? (name, i)).getD 0) (requestOrdinals (assignedCaptures segments name i))
  unnamed : ∀ s ∈ segments, s.request.assignment = none → Consecutive (requestOrdinals s.captures)

theorem Numbers.congr (h : c.Numbers segments) (frames : c'.frames = c.frames) (ordinals : c'.ordinals = c.ordinals) :
    c'.Numbers segments :=
  ⟨h.taken, fun i => frames ▸ h.frames i, fun name i => ordinals ▸ h.named name i, h.unnamed⟩

/-- What expanding a request gives: captures that begin with the counters, which are advanced by the count. -/
theorem expand_eq (c : CollectPacker) (request : InstrumentRequest) (target : Placement) : ∃ first,
    (c.expand request target).2 = request.expand target ((c.frames.get? target).getD 0) first ∧
    (c.expand request target).1.frames =
      c.frames.insert target ((c.frames.get? target).getD 0 + request.count) ∧
    (request.assignment = none → first = 0 ∧ (c.expand request target).1.ordinals = c.ordinals) ∧
    ∀ name, request.assignment = some name → first = (c.ordinals.get? (name, target)).getD 0 ∧
      (c.expand request target).1.ordinals = c.ordinals.insert (name, target) (first + request.count) := by
  unfold CollectPacker.expand
  cases assignment : request.assignment with
  | none => exact ⟨0, rfl, rfl, fun _ => ⟨rfl, rfl⟩, by simp⟩
  | some name =>
    refine ⟨_, rfl, rfl, by simp, fun name' same => ?_⟩
    cases same
    exact ⟨rfl, rfl⟩

/-- **Expanding a request on an instrument** adds its segment. -/
theorem Numbers.expand (h : c.Numbers segments) (positive : 1 ≤ request.count) :
    (c.expand request target).1.Numbers (segments ++ [⟨request, target, (c.expand request target).2⟩]) := by
  obtain ⟨first, units, frames, none, some_⟩ := expand_eq c request target
  have nonneg : 0 ≤ request.count := by omega
  have snoc {P : Segment → Prop} (before : ∀ s ∈ segments, P s) (here : P ⟨request, target, (c.expand request target).2⟩) :
      ∀ s ∈ segments ++ [⟨request, target, (c.expand request target).2⟩], P s := by
    intro s mem
    rcases List.mem_append.1 mem with mem | mem
    · exact before s mem
    · exact List.mem_singleton.1 mem ▸ here
  refine ⟨snoc h.taken ?_, fun i => ?_, fun name i => ?_, snoc h.unnamed fun assignment => ?_⟩
  · rw [units]
    exact taken_expand positive
  · rw [List.flatMap_append, frameNumbers_append, List.flatMap_singleton, units, frames, Dict.get?_insert]
    split_ifs with same
    · rw [same, frameNumbers_expand]
      exact (h.frames target).append nonneg
    · rw [frameNumbers_expand_of_ne same, List.append_nil]
      exact h.frames i
  · rw [assignedCaptures_snoc]
    have named := h.named name i
    split_ifs with here
    · obtain ⟨assignment, rfl⟩ := here
      obtain ⟨rfl, advanced⟩ := some_ name assignment
      rw [advanced, Dict.get?_insert_self, requestOrdinals, List.map_append, units]
      have carried := named.append nonneg
      rw [← requestOrdinals_expand] at carried
      exact carried
    · have kept : (c.expand request target).1.ordinals.get? (name, i) = c.ordinals.get? (name, i) := by
        cases assignment : request.assignment with
        | none => rw [(none assignment).2]
        | some name' =>
          rw [(some_ name' assignment).2]
          refine Dict.get?_insert_of_ne fun same => here ?_
          cases same
          exact ⟨assignment, rfl⟩
      rw [kept, List.append_nil]
      exact named
  · dsimp only at assignment ⊢
    rw [units, requestOrdinals_expand, (none assignment).1]
    exact consecutive_range _

/-- Expanding a request on its instruments adds its segments. -/
theorem Numbers.expandTargets (h : c.Numbers segments) (units : List PlannedAcquisition)
    (a : InstrumentRequest × List Placement) (positive : 1 ≤ a.1.count) : ∃ added,
      (CollectPacker.expandTargets (c, units) a).1.Numbers (segments ++ added) ∧
      (CollectPacker.expandTargets (c, units) a).2 = units ++ added.flatMap Segment.captures ∧
      added.map (fun s => (s.request, s.target)) = a.2.map (Prod.mk a.1) := by
  obtain ⟨request, targets⟩ := a
  unfold CollectPacker.expandTargets
  dsimp only at positive ⊢
  induction targets generalizing c segments units with
  | nil => exact ⟨[], by simpa using h, by simp, rfl⟩
  | cons target targets ih =>
    have first : (c.expand request target).1.Numbers (segments ++ [⟨request, target, (c.expand request target).2⟩]) :=
      h.expand positive
    obtain ⟨added, numbers, taken, pairs⟩ := ih first (units ++ (c.expand request target).2)
    refine ⟨⟨request, target, (c.expand request target).2⟩ :: added, ?_, ?_, by simpa using pairs⟩
    · rw [List.append_cons]
      exact numbers
    · rw [List.flatMap_cons, ← List.append_assoc]
      exact taken

/-- Expanding all requests of a group adds their segments. -/
theorem Numbers.expandAll (h : c.Numbers segments) (units : List PlannedAcquisition)
    (positive : ∀ a ∈ assigned, 1 ≤ a.1.count) : ∃ added,
      (assigned.foldl CollectPacker.expandTargets (c, units)).1.Numbers (segments ++ added) ∧
      (assigned.foldl CollectPacker.expandTargets (c, units)).2 = units ++ added.flatMap Segment.captures ∧
      SegmentsOf (assigned.map Prod.fst) added := by
  induction assigned generalizing c segments units with
  | nil => exact ⟨[], by simpa using h, by simp, [], rfl, rfl⟩
  | cons a assigned ih =>
    obtain ⟨here, numbers, taken, pairs⟩ := h.expandTargets units a (positive a (by simp))
    obtain ⟨added, numbers', taken', segments⟩ := ih numbers (CollectPacker.expandTargets (c, units) a).2
      fun b mem => positive b (by simp [mem])
    refine ⟨here ++ added, by rwa [← List.append_assoc], ?_, ?_⟩
    · rw [List.flatMap_append, ← List.append_assoc, ← taken]
      exact taken'
    · have first : SegmentsOf [a.1] here := ⟨[a], rfl, by simpa using pairs⟩
      exact first.append segments

theorem Numbers.child (h : c.Numbers segments) (positive : ∀ a ∈ assigned, 1 ≤ a.1.count)
    (made : c.child assigned epoch «where» = .ok (c', bound)) : ∃ added, c'.Numbers (segments ++ added) ∧
      bound.units = added.flatMap Segment.captures ∧ SegmentsOf (assigned.map Prod.fst) added := by
  simp only [CollectPacker.child, bind_eq_ok, pure_eq_ok] at made
  obtain ⟨settings, -, made⟩ := made
  cases made
  obtain ⟨added, numbers, taken, segments⟩ := h.expandAll [] positive
  exact ⟨added, numbers, by simpa using taken, segments⟩

theorem bind_numbering (key : Bool × String) (targets : List Placement) :
    (c.bind key targets).frames = c.frames ∧ (c.bind key targets).ordinals = c.ordinals := by
  unfold CollectPacker.bind
  split_ifs
  · exact ⟨rfl, rfl⟩
  · exact ⟨rfl, rfl⟩

/-- A turn of the first loop numbers nothing, and puts the request behind all others. -/
theorem place_numbering {closed closed' : List Assigned} {current current' : Assigned} {request : InstrumentRequest × ℕ}
    (h : place epoch index (c, closed, current) request = .ok (c', closed', current')) :
    c'.frames = c.frames ∧ c'.ordinals = c.ordinals ∧
      (closed' ++ [current']).flatten.map Prod.fst = (closed ++ [current]).flatten.map Prod.fst ++ [request.1] := by
  simp only [place, bind_eq_ok] at h
  obtain ⟨options, -, found, -, h⟩ := h
  cases found with
  | some targets =>
    cases pure_eq_ok.1 h
    obtain ⟨frames, ordinals⟩ := bind_numbering (c := c) (request.1.assignmentKey index request.2) targets
    exact ⟨frames, ordinals, by simp⟩
  | none =>
    obtain ⟨_, -, h⟩ := bind_eq_ok.1 h
    cases pure_eq_ok.1 h
    obtain ⟨frames, ordinals⟩ := bind_numbering (c := c) (request.1.assignmentKey index request.2) (options.headD [])
    exact ⟨frames, ordinals, by simp⟩

/-- **Packing an authored epoch** adds the segments of its requests, child by child. -/
theorem Numbers.packEpoch {packed : List BoundEpoch} (h : c.Numbers segments)
    (positive : ∀ request ∈ epoch.units, 1 ≤ request.count) (packs : c.packEpoch epoch index = .ok (c', packed)) :
    ∃ added, c'.Numbers (segments ++ added) ∧ packed.flatMap Epoch.units = added.flatMap Segment.captures ∧
      SegmentsOf epoch.units added := by
  simp only [CollectPacker.packEpoch, bind_eq_ok] at packs
  obtain ⟨⟨c₁, closed, current⟩, placed, packs⟩ := packs
  have split := foldlM_invariant_prefix (fun pre (state : CollectPacker × List Assigned × Assigned) =>
    state.1.frames = c.frames ∧ state.1.ordinals = c.ordinals ∧
      (state.2.1 ++ [state.2.2]).flatten.map Prod.fst = pre.map Prod.fst) placed ⟨rfl, rfl, by simp⟩ ?_
  · obtain ⟨frames, ordinals, requests⟩ := split
    rw [List.zipIdx_map_fst, ← List.flatten_filter_not_isEmpty] at requests
    have inv := foldlM_invariant_prefix (fun pre (state : CollectPacker × List BoundEpoch) => ∃ added,
      state.1.Numbers (segments ++ added) ∧ state.2.flatMap Epoch.units = added.flatMap Segment.captures ∧
        SegmentsOf (pre.flatten.map Prod.fst) added) packs ⟨[], by simpa using h.congr frames ordinals, rfl, [], rfl, rfl⟩ ?_
    · rwa [requests] at inv
    rintro pre assigned post ⟨c₂, packed₂⟩ ⟨c₃, packed₃⟩ groups ⟨added, numbers, units, segmented⟩ turn
    obtain ⟨⟨c₄, bound⟩, made, turn⟩ := bind_eq_ok.1 turn
    cases pure_eq_ok.1 turn
    have counted : ∀ a ∈ assigned, 1 ≤ a.1.count := by
      intro a mem
      refine positive a.1 ?_
      rw [← requests, groups]
      exact List.mem_map_of_mem (List.mem_flatten.2 ⟨assigned, by simp, mem⟩)
    obtain ⟨more, numbers', units', segmented'⟩ := numbers.child counted made
    refine ⟨added ++ more, by rwa [← List.append_assoc], ?_, ?_⟩
    · rw [List.flatMap_append, units, List.flatMap_append, List.flatMap_singleton, units']
    · rw [List.flatten_append, List.map_append, List.flatten_singleton]
      exact segmented.append segmented'
  · rintro pre request post ⟨c₁, closed₁, current₁⟩ ⟨c₂, closed₂, current₂⟩ - ⟨frames, ordinals, requests⟩ turn
    obtain ⟨frames', ordinals', requests'⟩ := place_numbering turn
    refine ⟨frames'.trans frames, ordinals'.trans ordinals, ?_⟩
    rw [requests', requests, List.map_append]
    rfl

end CollectPacker

/-- **Frame numbering.** Whenever `pack` succeeds, the captures of the bound epochs are numbered without gaps or
repeats. -/
theorem framesNumbered {intent : CollectIntent} {sensor : BoundSensor}
    {keywords : Option (Dict String (Dict String Keyword))} {collect : BoundCollect}
    (packs : pack intent sensor keywords = .ok collect) :
    ∃ segments, FramesNumbered intent (collect.epochs.flatMap Epoch.units) segments := by
  simp only [pack, bind_eq_ok, pure_eq_ok] at packs
  obtain ⟨-, -, groups, grouped, ⟨c, packed⟩, loop, prepare, -, cleanup, -, rfl⟩ := packs
  have inv := foldlM_invariant_prefix (fun pre (state : CollectPacker × List BoundEpoch) => ∃ segments,
    state.1.Numbers segments ∧ state.2.flatMap Epoch.units = segments.flatMap Segment.captures ∧
      SegmentsOf (pre.flatMap fun e : RequestEpoch × ℕ => e.1.units) segments) loop
    ⟨[], ⟨by simp, fun i => counts_nil, fun name i => counts_nil, by simp⟩, rfl, [], rfl, rfl⟩ ?_
  · obtain ⟨segments, numbers, units, segmented⟩ := inv
    have authored : intent.epochs.zipIdx.flatMap (fun e => e.1.units) = intent.epochs.flatMap Epoch.units := by
      have epochs : intent.epochs.zipIdx.map Prod.fst = intent.epochs := List.zipIdx_map_fst _ _
      conv_rhs => rw [← epochs, List.flatMap_map]
    rw [authored] at segmented
    refine ⟨segments, segmented, units.symm, numbers.taken, fun i => ?_, fun name i => (numbers.named name i).1,
      numbers.unnamed⟩
    exact units.symm ▸ (numbers.frames i).1
  · rintro pre ⟨epoch, index⟩ post ⟨c₁, packed₁⟩ ⟨c₂, packed₂⟩ epochs ⟨segments, numbers, units, segmented⟩ turn
    obtain ⟨⟨c₃, bound⟩, packs, turn⟩ := bind_eq_ok.1 turn
    cases pure_eq_ok.1 turn
    have positive : ∀ request ∈ epoch.units, 1 ≤ request.count := by
      intro request mem
      obtain ⟨position, here⟩ := List.mem_iff_getElem?.1 mem
      have authored : (epoch, index) ∈ intent.epochs.zipIdx := by simp [epochs]
      exact (mem_of_grouped grouped authored (List.mem_zipIdx_iff_getElem?.2 here)).1
    obtain ⟨added, numbers', units', segmented'⟩ := numbers.packEpoch positive packs
    refine ⟨segments ++ added, numbers', ?_, ?_⟩
    · rw [List.flatMap_append, units, List.flatMap_append, units']
    · rw [List.flatMap_append, List.flatMap_singleton]
      exact segmented.append segmented'

end SensorKit.Sensor
