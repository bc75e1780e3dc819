import SensorKit.Sensor.CollectPacking

/-!
# Packing is sound

What a collect is that `pack` returns: the bound epochs split the authored ones in order, each request has its
captures on its instruments and no others, the instruments are those that the request asks for, and the settings
of a bound epoch are compatible and are those that each of its captures needs.
-/

namespace SensorKit.Sensor

open Lib

/-! ## What is bound -/

/-- The request, instrument and command of a capture. -/
def PlannedAcquisition.capture (u : PlannedAcquisition) : String × Placement × DeviceCommand :=
  (u.acquisition.request, u.target, u.command)

/-- The captures of requests on their instruments, `count` on each. -/
def captures (assigned : Assigned) : List (String × Placement × DeviceCommand) :=
  assigned.flatMap fun a => a.2.flatMap fun target =>
    List.replicate a.1.count.toNat (a.1.id, target, .cameraCapture a.1.acquisition.integrationTimeS)

/-- The bound epoch is that of a group of requests of the authored one, with their instruments. -/
structure BoundFor (sensor : BoundSensor) (named : String → List Placement) (epoch : RequestEpoch)
    (assigned : Assigned) (bound : BoundEpoch) : Prop where
  nonempty : assigned ≠ []
  align : bound.align = epoch.align
  captures : bound.units.map PlannedAcquisition.capture = captures assigned
  counted : ∀ a ∈ assigned, 1 ≤ a.1.count
  distinct : ∀ a ∈ assigned, a.2 ≠ [] ∧ a.2.Nodup
  instruments : ∀ a ∈ assigned, ∀ target ∈ a.2, target ∈ sensor.topology.instruments ∧ Meets sensor a.1 target
  /-- All segments of a named assignment are on the instruments of that name. -/
  named : ∀ a ∈ assigned, ∀ name, a.1.assignment = some name → a.2 = named name
  compatible : Compatible sensor (bound.units.map PlannedAcquisition.target) bound.settings
  established : ∀ a ∈ assigned, ∀ target ∈ a.2, ∀ setting ∈ epoch.settings ++ a.1.settings,
    Established sensor bound.settings target setting

/-- The bound epochs split the requests of the authored one into groups. -/
def SplitsInto (sensor : BoundSensor) (named : String → List Placement) (epoch : RequestEpoch)
    (bound : List BoundEpoch) : Prop :=
  ∃ groups : List Assigned, groups.flatten.map Prod.fst = epoch.units ∧
    List.Forall₂ (BoundFor sensor named epoch) groups bound

/-- The epochs of the collect are those of the intent, each split into groups of its requests. -/
def PackingSound (intent : CollectIntent) (sensor : BoundSensor) (collect : BoundCollect) : Prop :=
  ∃ named packed, collect.epochs = packed.flatten ∧ List.Forall₂ (SplitsInto sensor named) intent.epochs packed

variable {sensor : BoundSensor} {components : List Component} {participants : List Placement} {«where» : String}
  {assigned : Assigned} {epoch : RequestEpoch} {request : InstrumentRequest} {targets : List Placement} {target : Placement}
  {groups : Groups} {intent : CollectIntent} {bound : BoundEpoch} {index position : ℕ}

theorem Compatible.mono {settings : List RoutedCommand} {some_ : List Placement}
    (h : Compatible sensor participants settings) (sub : ∀ p ∈ some_, p ∈ participants) :
    Compatible sensor some_ settings :=
  ⟨fun i hi j hj => h.ports i (sub i hi) j (sub j hj), h.one_command,
    fun r mem i hi => h.underived r mem i (sub i hi)⟩

/-! ## Assignment groups -/

/-- An entry of a group stays when others are added. -/
theorem mem_insert_group {key key' : Bool × String} {m m' : InstrumentRequest × RequestEpoch}
    (mem : m ∈ (groups.get? key).getD []) :
    m ∈ ((groups.insert key' ((groups.get? key').getD [] ++ [m'])).get? key).getD [] := by
  rw [Dict.get?_insert]
  split_ifs with same
  · subst same
    exact List.mem_append_left _ mem
  · exact mem

/-- Each request is well formed, and a member of its group beside its epoch. -/
theorem mem_of_grouped (h : grouped intent = .ok groups) (he : (epoch, index) ∈ intent.epochs.zipIdx)
    (hr : (request, position) ∈ epoch.units.zipIdx) : 1 ≤ request.count ∧
      (request, epoch) ∈ (groups.get? (request.assignmentKey index position)).getD [] := by
  simp only [grouped, bind_eq_ok, pure_eq_ok] at h
  obtain ⟨groups', loop, _, -, rfl⟩ := h
  let Listed (groups : Groups) (index : ℕ) (epoch : RequestEpoch) (u : InstrumentRequest × ℕ) : Prop :=
    1 ≤ u.1.count ∧ (u.1, epoch) ∈ (groups.get? (u.1.assignmentKey index u.2)).getD []
  let Grows (groups groups' : Groups) : Prop :=
    ∀ key m, m ∈ (groups.get? key).getD [] → m ∈ (groups'.get? key).getD []
  have inv := foldlM_invariant_prefix (fun pre (groups : Groups) =>
    ∀ e ∈ pre, ∀ u ∈ e.1.units.zipIdx, Listed groups e.2 e.1 u) loop (by simp) ?_
  · exact inv _ he _ hr
  rintro pre ⟨epoch, index⟩ post groups₁ groups₂ - done turn
  have inner := foldlM_invariant_prefix (fun pre (groups : Groups) =>
    Grows groups₁ groups ∧ ∀ u ∈ pre, Listed groups index epoch u) turn ⟨fun _ _ => id, by simp⟩ ?_
  · obtain ⟨grows, listed⟩ := inner
    intro e mem u there
    rcases mem_snoc.1 mem with mem | rfl
    · exact ⟨(done e mem u there).1, grows _ _ (done e mem u there).2⟩
    · exact listed u there
  rintro pre ⟨request, position⟩ post groups₃ groups₄ - ⟨grows, listed⟩ turn
  obtain ⟨_, checked, turn⟩ := bind_eq_ok.1 turn
  obtain rfl := pure_eq_ok.1 turn
  refine ⟨fun key m mem => mem_insert_group (grows key m mem), fun u mem => ?_⟩
  rcases mem_snoc.1 mem with mem | rfl
  · exact ⟨(listed u mem).1, mem_insert_group (listed u mem).2⟩
  · refine ⟨?_, by simp⟩
    unfold InstrumentRequest.check at checked
    split_ifs at checked
    omega

/-! ## The packer -/

namespace CollectPacker

variable {c c' c'' : CollectPacker} {key : Bool × String}

/-- What has been chosen suits its group. -/
def Chosen (c : CollectPacker) : Prop :=
  ∀ key targets, c.chosen.get? key = some targets → Suits c.sensor (c.members key) targets

/-- What has been chosen stays. -/
structure Extends (c c' : CollectPacker) : Prop where
  sensor : c'.sensor = c.sensor
  groups : c'.groups = c.groups
  chosen : ∀ key targets, c.chosen.get? key = some targets → c'.chosen.get? key = some targets

theorem Extends.refl (c : CollectPacker) : c.Extends c := ⟨rfl, rfl, fun _ _ => id⟩

theorem Extends.trans (h : c.Extends c') (h' : c'.Extends c'') : c.Extends c'' :=
  ⟨h'.sensor.trans h.sensor, h'.groups.trans h.groups,
    fun key targets found => h'.chosen key targets (h.chosen key targets found)⟩

/-- Only the numbering has changed. -/
structure Renumbered (c c' : CollectPacker) : Prop where
  sensor : c'.sensor = c.sensor
  groups : c'.groups = c.groups
  chosen : c'.chosen = c.chosen

theorem Renumbered.trans (h : c.Renumbered c') (h' : c'.Renumbered c'') : c.Renumbered c'' :=
  ⟨h'.sensor.trans h.sensor, h'.groups.trans h.groups, h'.chosen.trans h.chosen⟩

theorem Renumbered.extends (h : c.Renumbered c') : c.Extends c' :=
  ⟨h.sensor, h.groups, fun key targets found => by rw [h.chosen, found]⟩

theorem Renumbered.keeps (h : c.Renumbered c') (chosen : c.Chosen) : c'.Chosen := by
  intro key targets found
  rw [h.chosen] at found
  have suits := chosen key targets found
  unfold CollectPacker.members at suits ⊢
  rwa [h.sensor, h.groups]

theorem bind_extends (suits : Suits c.sensor (c.members key) targets)
    (agrees : ∀ targets', c.chosen.get? key = some targets' → targets = targets') (chosen : c.Chosen) :
    c.Extends (c.bind key targets) ∧ (c.bind key targets).Chosen ∧
      (c.bind key targets).chosen.get? key = some targets := by
  unfold CollectPacker.bind
  split_ifs with bound
  · obtain ⟨targets', found⟩ := Dict.mem_keys.1 bound
    exact ⟨.refl c, chosen, agrees targets' found ▸ found⟩
  · have other {key' : Bool × String} {targets' : List Placement} (found : c.chosen.get? key' = some targets') :
        key' ≠ key := by
      rintro rfl
      exact bound (Dict.mem_keys.2 ⟨targets', found⟩)
    refine ⟨⟨rfl, rfl, fun key' targets' found => ?_⟩, fun key' targets' found => ?_, Dict.get?_insert_self⟩
    · exact (Dict.get?_insert_of_ne (other found)).trans found
    · simp only [Dict.get?_insert] at found
      split_ifs at found with same
      · cases found
        subst same
        exact suits
      · exact chosen key' targets' found

/-- What is offered suits the group, and is what has been chosen if anything has. -/
theorem offered_eq_ok {options : List (List Placement)} (chosen : c.Chosen)
    (h : c.offered key «where» = .ok options) : options ≠ [] ∧ ∀ option ∈ options,
      Suits c.sensor (c.members key) option ∧ ∀ targets, c.chosen.get? key = some targets → option = targets := by
  unfold offered at h
  split at h
  · rename_i targets found
    cases h
    refine ⟨by simp, fun option mem => ?_⟩
    obtain rfl := List.mem_singleton.1 mem
    exact ⟨chosen key option found, fun targets' found' => Option.some.inj (found.symm.trans found')⟩
  · rename_i free
    obtain ⟨some_, suits⟩ := suits_of_options h
    exact ⟨some_, fun option mem => ⟨suits option mem, fun targets found => by simp [free] at found⟩⟩

/-- **A turn of the loop** assigns the request the instruments of its group, behind all others. -/
theorem place_eq_ok {closed closed' : List Assigned} {current current' : Assigned} (chosen : c.Chosen)
    (h : place epoch index (c, closed, current) (request, position) = .ok (c', closed', current')) :
    c.Extends c' ∧ c'.Chosen ∧ ∃ targets, c'.chosen.get? (request.assignmentKey index position) = some targets ∧
      (closed' ++ [current']).flatten = (closed ++ [current]).flatten ++ [(request, targets)] := by
  simp only [place, bind_eq_ok] at h
  obtain ⟨options, offered, found, search, h⟩ := h
  obtain ⟨some_, offers⟩ := offered_eq_ok chosen offered
  cases found with
  | some targets =>
    obtain ⟨suits, agrees⟩ := offers targets (mem_of_findM? search)
    cases pure_eq_ok.1 h
    obtain ⟨more, chosen, here⟩ := bind_extends suits agrees chosen
    exact ⟨more, chosen, targets, here, by simp⟩
  | none =>
    obtain ⟨_, -, h⟩ := bind_eq_ok.1 h
    cases pure_eq_ok.1 h
    obtain ⟨first, rest, rfl⟩ := List.exists_cons_of_ne_nil some_
    obtain ⟨suits, agrees⟩ := offers first (by simp)
    obtain ⟨more, chosen, here⟩ := bind_extends suits agrees chosen
    exact ⟨more, chosen, first, here, by simp⟩

/-! ### Children -/

theorem expand_renumbers (request : InstrumentRequest) (target : Placement) :
    c.Renumbered (c.expand request target).1 := by
  unfold expand
  split
  · exact ⟨rfl, rfl, rfl⟩
  · exact ⟨rfl, rfl, rfl⟩

theorem expand_captures (request : InstrumentRequest) (target : Placement) :
    (c.expand request target).2.map PlannedAcquisition.capture =
      List.replicate request.count.toNat (request.id, target, .cameraCapture request.acquisition.integrationTimeS) := by
  have all (frame first : ℤ) : (request.expand target frame first).map PlannedAcquisition.capture =
      List.replicate request.count.toNat
        (request.id, target, .cameraCapture request.acquisition.integrationTimeS) := by
    unfold InstrumentRequest.expand
    rw [List.map_map]
    exact List.eq_replicate_iff.2 ⟨by simp, by simp [PlannedAcquisition.capture]⟩
  unfold expand
  split
  · exact all _ _
  · exact all _ _

theorem expandTargets_captures (state : CollectPacker × List PlannedAcquisition)
    (a : InstrumentRequest × List Placement) : state.1.Renumbered (expandTargets state a).1 ∧
      (expandTargets state a).2.map PlannedAcquisition.capture =
        state.2.map PlannedAcquisition.capture ++ captures [a] := by
  obtain ⟨request, targets⟩ := a
  unfold expandTargets
  induction targets generalizing state with
  | nil => exact ⟨⟨rfl, rfl, rfl⟩, by simp [captures]⟩
  | cons target targets ih =>
    rw [List.foldl_cons]
    obtain ⟨same, units⟩ := ih (expandTarget request state target)
    refine ⟨(expand_renumbers request target).trans same, ?_⟩
    rw [units]
    unfold expandTarget
    rw [List.map_append, expand_captures]
    simp [captures]

theorem foldl_captures (state : CollectPacker × List PlannedAcquisition) (assigned : Assigned) :
    state.1.Renumbered (assigned.foldl expandTargets state).1 ∧
      (assigned.foldl expandTargets state).2.map PlannedAcquisition.capture =
        state.2.map PlannedAcquisition.capture ++ captures assigned := by
  induction assigned generalizing state with
  | nil => exact ⟨⟨rfl, rfl, rfl⟩, by simp [captures]⟩
  | cons a assigned ih =>
    rw [List.foldl_cons]
    obtain ⟨same, units⟩ := ih (expandTargets state a)
    obtain ⟨first, units'⟩ := expandTargets_captures state a
    refine ⟨first.trans same, ?_⟩
    rw [units, units']
    simp [captures]

theorem resolved_congr (same : c'.sensor = c.sensor) :
    c'.resolved assigned epoch «where» = c.resolved assigned epoch «where» := by
  unfold resolved
  rw [same]

/-- The bound epoch is that of requests which have been assigned what was chosen for them. -/
structure ChildOf (c : CollectPacker) (epoch : RequestEpoch) (index : ℕ) (assigned : Assigned) (bound : BoundEpoch) :
    Prop where
  nonempty : assigned ≠ []
  align : bound.align = epoch.align
  captures : bound.units.map PlannedAcquisition.capture = captures assigned
  resolved : c.resolved assigned epoch ("epoch " ++ toString index) = .ok bound.settings
  chosen : ∀ a ∈ assigned, ∃ position, (a.1, position) ∈ epoch.units.zipIdx ∧
    c.chosen.get? (a.1.assignmentKey index position) = some a.2

theorem ChildOf.extend (h : ChildOf c epoch index assigned bound) (more : c.Extends c') :
    ChildOf c' epoch index assigned bound := by
  refine ⟨h.nonempty, h.align, h.captures, (resolved_congr more.sensor).trans h.resolved, fun a mem => ?_⟩
  obtain ⟨position, here, found⟩ := h.chosen a mem
  exact ⟨position, here, more.chosen _ _ found⟩

/-- **Packing an authored epoch** splits its requests into groups, and binds an epoch for each. -/
theorem packEpoch_eq_ok {packed : List BoundEpoch} (chosen : c.Chosen)
    (h : c.packEpoch epoch index = .ok (c', packed)) : c.Extends c' ∧ c'.Chosen ∧
      ∃ split : List Assigned, split.flatten.map Prod.fst = epoch.units ∧
        List.Forall₂ (ChildOf c' epoch index) split packed := by
  simp only [packEpoch, bind_eq_ok] at h
  obtain ⟨⟨c₁, closed, current⟩, placed, h⟩ := h
  have inv := foldlM_invariant_prefix
    (fun pre (state : CollectPacker × List Assigned × Assigned) => c.Extends state.1 ∧ state.1.Chosen ∧
      (state.2.1 ++ [state.2.2]).flatten.map Prod.fst = pre.map Prod.fst ∧
      ∀ a ∈ (state.2.1 ++ [state.2.2]).flatten, ∃ position, (a.1, position) ∈ pre ∧
        state.1.chosen.get? (a.1.assignmentKey index position) = some a.2)
    placed ⟨.refl c, chosen, by simp, by simp⟩ ?_
  · obtain ⟨more, chosen, units, found⟩ := inv
    have groups : ((closed ++ [current]).filter (!·.isEmpty)).flatten = (closed ++ [current]).flatten :=
      List.flatten_filter_not_isEmpty
    have children := foldlM_invariant_prefix
      (fun pre (state : CollectPacker × List BoundEpoch) => c₁.Renumbered state.1 ∧
        List.Forall₂ (ChildOf c₁ epoch index) pre state.2) h ⟨⟨rfl, rfl, rfl⟩, .nil⟩ ?_
    · obtain ⟨same, children⟩ := children
      refine ⟨more.trans same.extends, same.keeps chosen, _, ?_, children.imp fun _ _ child => child.extend same.extends⟩
      rw [groups, units, List.zipIdx_map_fst]
    · rintro pre assigned post ⟨c₂, packed₂⟩ ⟨c₃, packed₃⟩ split ⟨same, children⟩ turn
      obtain ⟨⟨c₄, bound⟩, child, turn⟩ := bind_eq_ok.1 turn
      cases pure_eq_ok.1 turn
      simp only [CollectPacker.child, bind_eq_ok, pure_eq_ok] at child
      obtain ⟨settings, resolved, child⟩ := child
      obtain ⟨numbered, units⟩ := foldl_captures (c₂, []) assigned
      cases child
      have here : assigned ∈ (closed ++ [current]).filter (!·.isEmpty) := by simp [split]
      refine ⟨same.trans numbered, List.rel_append children (.cons ⟨?_, rfl, units, ?_, ?_⟩ .nil)⟩
      · rintro rfl
        simp at here
      · exact (resolved_congr (same.trans numbered).sensor).symm.trans resolved
      · exact fun a mem => found a (List.mem_flatten.2 ⟨assigned, List.mem_of_mem_filter here, mem⟩)
  · rintro pre ⟨request, position⟩ post ⟨c₁, closed₁, current₁⟩ ⟨c₂, closed₂, current₂⟩ - ⟨more, chosen, units, found⟩ turn
    obtain ⟨more', chosen, targets, here, groups⟩ := place_eq_ok chosen turn
    refine ⟨more.trans more', chosen, ?_, fun a mem => ?_⟩
    · rw [groups, List.map_append, units, List.map_append]
      rfl
    rw [groups] at mem
    rcases mem_snoc.1 mem with mem | rfl
    · obtain ⟨position', there, found⟩ := found a mem
      exact ⟨position', List.mem_append_left _ there, more'.chosen _ _ found⟩
    · exact ⟨position, by simp, here⟩

end CollectPacker

/-! ## Packing -/

theorem mem_of_captures {id : String} {command : DeviceCommand} (mem : (id, target, command) ∈ captures assigned) :
    ∃ a ∈ assigned, target ∈ a.2 := by
  obtain ⟨a, here, mem⟩ := List.mem_flatMap.1 mem
  obtain ⟨target', there, mem⟩ := List.mem_flatMap.1 mem
  obtain ⟨-, same⟩ := List.mem_replicate.1 mem
  cases same
  exact ⟨a, here, there⟩

/-- A bound epoch is what its group asks for. -/
theorem boundFor_of_childOf {c : CollectPacker} (built : Topology.build components = .ok c.sensor.topology)
    (chosen : c.Chosen) (groups : grouped intent = .ok c.groups) (he : (epoch, index) ∈ intent.epochs.zipIdx)
    (h : c.ChildOf epoch index assigned bound) :
    BoundFor c.sensor (fun name => (c.chosen.get? (true, name)).getD []) epoch assigned bound := by
  obtain ⟨compatible, established⟩ := CollectPacker.compatible_of_resolved built h.resolved
  have member (a : InstrumentRequest × List Placement) (mem : a ∈ assigned) : 1 ≤ a.1.count ∧
      ∃ members, (a.1, epoch) ∈ members ∧ Suits c.sensor members a.2 := by
    obtain ⟨position, here, found⟩ := h.chosen a mem
    obtain ⟨count, listed⟩ := mem_of_grouped groups he here
    exact ⟨count, _, listed, chosen _ _ found⟩
  refine ⟨h.nonempty, h.align, h.captures, fun a mem => (member a mem).1, fun a mem => ?_, fun a mem target on => ?_,
    fun a mem name assignment => ?_, compatible.mono fun target mem => ?_, fun a mem target on setting asked => ?_⟩
  · obtain ⟨-, members, -, suits⟩ := member a mem
    exact ⟨suits.nonempty, suits.nodup⟩
  · obtain ⟨-, members, listed, suits⟩ := member a mem
    exact ⟨suits.instruments target on, suits.meets target on _ listed⟩
  · obtain ⟨position, -, found⟩ := h.chosen a mem
    have key : a.1.assignmentKey index position = (true, name) := by simp [InstrumentRequest.assignmentKey, assignment]
    rw [key] at found
    simp [found]
  · obtain ⟨u, here, rfl⟩ := List.mem_map.1 mem
    have capture : u.capture ∈ captures assigned := h.captures ▸ List.mem_map_of_mem here
    exact mem_participants.2 (mem_of_captures capture)
  · obtain ⟨-, members, listed, suits⟩ := member a mem
    exact established a mem target on setting asked (suits.routes target on _ listed setting asked)

/-- **Packing soundness.** Whenever `pack` succeeds, the bound epochs split the requests of each authored epoch into
consecutive groups, each request is captured `count` times on each of its instruments, which suit it, and each bound
epoch has compatible settings that are those each of its captures needs. -/
theorem packingSound {collect : BoundCollect} {keywords : Option (Dict String (Dict String Keyword))}
    (built : Topology.build components = .ok sensor.topology) (packs : pack intent sensor keywords = .ok collect) :
    PackingSound intent { sensor with keywords := some (keywords.getD .empty) } collect := by
  simp only [pack, bind_eq_ok, pure_eq_ok] at packs
  obtain ⟨-, -, groups, grouped, ⟨c, packed⟩, loop, prepare, -, cleanup, -, rfl⟩ := packs
  have inv := foldlM_invariant_prefix (fun pre (state : CollectPacker × List BoundEpoch) =>
    CollectPacker.Extends { sensor := { sensor with keywords := some (keywords.getD .empty) }, groups } state.1 ∧
      state.1.Chosen ∧ ∃ split, state.2 = split.flatten ∧ List.Forall₂ (fun (e : RequestEpoch × ℕ) children =>
        ∃ groups : List Assigned, groups.flatten.map Prod.fst = e.1.units ∧
          List.Forall₂ (state.1.ChildOf e.1 e.2) groups children) pre split)
    loop ⟨.refl _, fun key targets found => by simp at found, [], rfl, .nil⟩ ?_
  · obtain ⟨more, chosen, split, rfl, children⟩ := inv
    refine ⟨fun name => (c.chosen.get? (true, name)).getD [], split, rfl, ?_⟩
    have same : c.sensor = { sensor with keywords := some (keywords.getD .empty) } := more.sensor
    have topology : c.sensor.topology = sensor.topology := by rw [same]
    have all : List.Forall₂ (fun (e : RequestEpoch × ℕ) => SplitsInto c.sensor
        (fun name => (c.chosen.get? (true, name)).getD []) e.1) intent.epochs.zipIdx split := by
      have listed := (List.forall₂_and_left (p := fun e => e ∈ intent.epochs.zipIdx) _ _).2 ⟨fun _ => id, children⟩
      refine listed.imp ?_
      rintro ⟨epoch, index⟩ children ⟨here, groups, units, bound⟩
      exact ⟨groups, units, bound.imp fun assigned bound child => boundFor_of_childOf (topology ▸ built) chosen
        (more.groups.symm ▸ grouped) here child⟩
    have epochs : intent.epochs.zipIdx.map Prod.fst = intent.epochs := List.zipIdx_map_fst _ _
    rw [← epochs, List.forall₂_map_left_iff]
    rw [same] at all
    exact all
  · rintro pre ⟨epoch, index⟩ post ⟨c₁, packed₁⟩ ⟨c₂, packed₂⟩ - ⟨more, chosen, split, rfl, children⟩ turn
    obtain ⟨⟨c₃, bound⟩, packs, turn⟩ := bind_eq_ok.1 turn
    cases pure_eq_ok.1 turn
    obtain ⟨more', chosen, groups, units, here⟩ := CollectPacker.packEpoch_eq_ok chosen packs
    refine ⟨more.trans more', chosen, split ++ [bound], by simp, List.rel_append (children.imp ?_)
      (.cons ⟨groups, units, here⟩ .nil)⟩
    rintro e children ⟨groups, units, there⟩
    exact ⟨groups, units, there.imp fun _ _ child => child.extend more'⟩

/-- Two cameras on the ports of a turret, behind a filter wheel. -/
def twoCameras : List Component :=
  [.device { device := "wheel" },
    .selector "turret" [.mk "left" [.device { device := "blue", «instrument» := true }],
      .mk "right" [.device { device := "red", «instrument» := true }]] []]

/-- A frame of each camera under one filter. -/
def bothCameras : CollectIntent where
  name := "survey"
  epochs := [{
    units := [{ id := "first", acquisition := ⟨1, none⟩, select := some (.device "blue") },
      { id := "second", acquisition := ⟨2, none⟩, select := some (.device "red") }]
    settings := [{ command := ⟨⟨"SelectFilter", none⟩, [("position", .text "red")]⟩, subject := .sensor }] }]

/-- The cameras need the turret in two positions, so that their frames are packed apart. -/
theorem packingSound_example : ∃ sensor collect, Topology.build twoCameras = .ok sensor.topology ∧
    pack bothCameras sensor none = .ok collect ∧ collect.epochs.length = 2 ∧
    PackingSound bothCameras { sensor with keywords := some .empty } collect := by
  let wheel : Dict String DeviceDetails := .ofList [("wheel", { supportedCommands := ["SelectFilter"] })]
  have packed : ((Topology.build twoCameras).toOption.bind fun t =>
      (pack bothCameras ⟨t, wheel, none⟩ none).toOption.map fun collect => collect.epochs.length) = some 2 := by
    decide +kernel
  obtain ⟨t, built, packed⟩ := Option.bind_eq_some_iff.1 packed
  obtain ⟨collect, packs, two⟩ := Option.map_eq_some_iff.1 packed
  have built : Topology.build twoCameras = .ok (⟨t, wheel, none⟩ : BoundSensor).topology := toOption_eq_some.1 built
  have packs := toOption_eq_some.1 packs
  exact ⟨⟨t, wheel, none⟩, collect, built, packs, two, packingSound built packs⟩

end SensorKit.Sensor
