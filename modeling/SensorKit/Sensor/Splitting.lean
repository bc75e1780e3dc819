import SensorKit.Lib.Numeral
import SensorKit.Sensor.PackingSound
import SensorKit.Sensor.RoutingShared

/-!
# When splitting an epoch suffices

Requests that pack alone may still fail to pack together. What decides is the option that a request takes: the
first that agrees with the open child, or the top-ranked one in a child of its own. Neither may command a selector
whose position follows from a participant, and the top-ranked one must agree with the epoch's own settings.
-/

namespace SensorKit.Sensor

open Lib

variable {sensor : BoundSensor} {components : List Component} {participants : List Placement} {held held' : Held}
  {origin «where» : String} {assigned current : Assigned} {epoch : RequestEpoch} {request : InstrumentRequest}
  {r : RoutedCommand} {option : List Placement} {options : List (List Placement)}

/-! ## Settings without deadlines -/

/-- None of the settings has an authored deadline. -/
def Untimed (settings : List CommandRequest) : Prop :=
  ∀ setting ∈ settings, setting.timeoutS = none

/-- What is held has no deadline. -/
def HeldUntimed (held : Held) : Prop :=
  ∀ k v, held.get? k = some v → v.1.timeoutS = none

theorem untimed_of_resolve {setting : CommandRequest} {routed : List RoutedCommand} (untimed : setting.timeoutS = none)
    (h : setting.resolve participants sensor = .ok routed) : ∀ r ∈ routed, r.timeoutS = none := by
  obtain ⟨sent, -, rfl⟩ := resolve_eq_ok h
  intro r mem
  obtain ⟨r', -, rfl⟩ := List.mem_map.1 mem
  exact untimed

/-- Settings without deadlines only conflict. -/
theorem put_raisesOnly (h : HeldUntimed held) (untimed : r.timeoutS = none) :
    RaisesOnly PlanningError.IsConflict (put held r origin «where») ∧
      ∀ held', put held r origin «where» = .ok held' → HeldUntimed held' := by
  constructor
  · unfold put
    split
    · exact raisesOnly_ok _
    · rename_i seen by_ found
      split_ifs with differs timed
      · exact raisesOnly_error trivial
      · exact absurd ((h _ _ found).trans untimed.symm) timed
      · exact raisesOnly_ok _
  · intro held' merged k v found
    rcases put_eq_ok merged with ⟨-, rfl⟩ | ⟨_, _, _, _, _, rfl⟩
    · rw [Dict.get?_insert] at found
      split_ifs at found
      · rw [← Option.some.inj found]
        exact untimed
      · exact h k v found
    · exact h k v found

theorem putAll_raisesOnly {rs : List RoutedCommand} (h : HeldUntimed held) (untimed : ∀ r ∈ rs, r.timeoutS = none) :
    RaisesOnly PlanningError.IsConflict (rs.foldlM (fun held r => put held r origin «where») held) ∧
      ∀ held', rs.foldlM (fun held r => put held r origin «where») held = .ok held' → HeldUntimed held' := by
  constructor
  · exact raisesOnly_foldlM HeldUntimed h fun held r mem kept => put_raisesOnly kept (untimed r mem)
  · intro held' merged
    exact foldlM_invariant HeldUntimed merged h fun _ _ r mem kept turn => (put_raisesOnly kept (untimed r mem)).2 _ turn

/-- Merging settings that route, or conflict where they do not. -/
theorem merge_raisesOnly {route : CommandRequest → Except PlanningError (List RoutedCommand)}
    {settings : List CommandRequest} (h : HeldUntimed held)
    (routes : ∀ setting ∈ settings, RaisesOnly PlanningError.IsConflict (route setting))
    (untimed : ∀ setting ∈ settings, ∀ routed, route setting = .ok routed → ∀ r ∈ routed, r.timeoutS = none) :
    RaisesOnly PlanningError.IsConflict (settings.foldlM (fun held setting => do
        (← route setting).foldlM (fun held r => put held r origin «where») held) held) ∧
      ∀ held', settings.foldlM (fun held setting => do
        (← route setting).foldlM (fun held r => put held r origin «where») held) held = .ok held' →
          HeldUntimed held' := by
  constructor
  · refine raisesOnly_foldlM HeldUntimed h ?_
    intro held setting mem kept
    constructor
    · refine (routes setting mem).bind ?_
      intro routed resolved
      exact (putAll_raisesOnly kept (untimed setting mem routed resolved)).1
    · intro held' turn
      obtain ⟨routed, resolved, merged⟩ := bind_eq_ok.1 turn
      exact (putAll_raisesOnly kept (untimed setting mem routed resolved)).2 held' merged
  · intro held' merged
    refine foldlM_invariant HeldUntimed merged h ?_
    intro held held' setting mem kept turn
    obtain ⟨routed, resolved, merged⟩ := bind_eq_ok.1 turn
    exact (putAll_raisesOnly kept (untimed setting mem routed resolved)).2 held' merged

/-! ## Sharing a child epoch -/

/-- An option that has passed the checks of its request: instruments on which all settings route. -/
structure Sits (sensor : BoundSensor) (epoch : RequestEpoch) (a : InstrumentRequest × List Placement) : Prop where
  nonempty : a.2 ≠ []
  instruments : ∀ p ∈ a.2, p ∈ sensor.topology.instruments
  shared : ∀ setting ∈ epoch.settings, setting.Alone sensor a.2
  own : ∀ setting ∈ a.1.settings, ∃ routed, setting.resolve a.2 sensor = .ok routed
  untimed : Untimed a.1.settings

/-- The requests can be held together: their instruments' ports agree, and so do the settings. -/
def shares (sensor : BoundSensor) (assigned : Assigned) (epoch : RequestEpoch) («where» : String) : Bool :=
  (exclusive sensor «where» (assigned.flatMap Prod.snd).eraseDups).isOk &&
    (settled sensor assigned epoch «where»).isOk

/-- No setting of the requests is for a selector whose position follows from one of their instruments. -/
def Underived (sensor : BoundSensor) (assigned : Assigned) (epoch : RequestEpoch) («where» : String) : Prop :=
  ∀ held, settled sensor assigned epoch «where» = .ok held → ∀ k ∈ held.keys,
    ∀ i ∈ (assigned.flatMap Prod.snd).eraseDups, ∀ port, ¬ sensor.topology.Selects i k.1 port

/-- The requests of a child that have passed their checks. -/
structure Seated (sensor : BoundSensor) (epoch : RequestEpoch) (assigned : Assigned) : Prop where
  some_ : assigned ≠ []
  sits : ∀ a ∈ assigned, Sits sensor epoch a

theorem Seated.placed (h : Seated sensor epoch assigned) :
    (assigned.flatMap Prod.snd).eraseDups ≠ [] ∧
      ∀ i ∈ (assigned.flatMap Prod.snd).eraseDups, i ∈ sensor.topology.instruments := by
  constructor
  · obtain ⟨a, rest, rfl⟩ := List.exists_cons_of_ne_nil h.some_
    obtain ⟨p, ps, eq⟩ := List.exists_cons_of_ne_nil (h.sits a (by simp)).nonempty
    have mem : p ∈ (((a :: rest).flatMap Prod.snd).eraseDups) := mem_participants.2 ⟨a, by simp, by simp [eq]⟩
    exact List.ne_nil_of_mem mem
  · intro i mem
    obtain ⟨a, here, on⟩ := mem_participants.1 mem
    exact (h.sits a here).instruments i on

section

variable (built : Topology.build components = .ok sensor.topology)
include built

theorem exclusive_raisesOnly (instruments : ∀ i ∈ participants, i ∈ sensor.topology.instruments) :
    RaisesOnly PlanningError.IsConflict (exclusive sensor «where» participants) := by
  induction participants with
  | nil => exact raisesOnly_ok ()
  | cons i participants ih =>
    unfold exclusive
    refine RaisesOnly.bind (raisesOnly_forM fun j mem => ?_) fun _ _ => ih fun j mem => instruments j (by simp [mem])
    obtain ⟨states, found⟩ := Topology.exists_selectorStates built (instruments i (by simp))
    obtain ⟨others, found'⟩ := Topology.exists_selectorStates built (instruments j (by simp [mem]))
    unfold Topology.mutuallyExclusive
    rw [found, found']
    refine RaisesOnly.bind (raisesOnly_pure _) ?_
    intro selector _
    cases selector with
    | none => exact raisesOnly_pure _
    | some selector => exact raisesOnly_error trivial

theorem settled_raisesOnly (h : Seated sensor epoch assigned) (untimed : Untimed epoch.settings) :
    RaisesOnly PlanningError.IsConflict (settled sensor assigned epoch «where») := by
  obtain ⟨some_, instruments⟩ := h.placed
  have alone (setting : CommandRequest) (mem : setting ∈ epoch.settings) :
      setting.Alone sensor (assigned.flatMap Prod.snd).eraseDups := by
    intro i participates
    obtain ⟨a, here, on⟩ := mem_participants.1 participates
    exact (h.sits a here).shared setting mem i on
  have empty : HeldUntimed (.empty : Held) := by
    intro k v found
    simp at found
  have routes (setting : CommandRequest) (mem : setting ∈ epoch.settings) :=
    resolveShared_raisesOnly built some_ instruments (alone setting mem)
  have timed (setting : CommandRequest) (mem : setting ∈ epoch.settings) (routed : List RoutedCommand)
      (resolved : setting.resolveShared (assigned.flatMap Prod.snd).eraseDups sensor = .ok routed) :=
    untimed_of_resolve (untimed setting mem) (resolve_of_resolveShared resolved)
  unfold settled
  refine (merge_raisesOnly empty routes timed).1.bind ?_
  intro held merged
  refine raisesOnly_foldlM HeldUntimed ((merge_raisesOnly empty routes timed).2 held merged) ?_
  rintro held ⟨request, targets⟩ mem kept
  have sits := h.sits _ mem
  refine merge_raisesOnly kept (fun setting asked => ?_) fun setting asked routed resolved =>
    untimed_of_resolve (sits.untimed setting asked) resolved
  obtain ⟨routed, resolved⟩ := sits.own setting asked
  rw [resolved]
  exact raisesOnly_ok routed

/-- The check of selector positions, in terms of the topology. -/
theorem positioned_iff (instruments : ∀ i ∈ participants, i ∈ sensor.topology.instruments) :
    (positioned held participants sensor «where» = .ok () ↔
        ∀ k ∈ held.keys, ∀ i ∈ participants, ∀ port, ¬ sensor.topology.Selects i k.1 port) ∧
      RaisesOnly PlanningError.IsValue (positioned held participants sensor «where») := by
  obtain ⟨states, found⟩ : ∃ states, participants.mapM sensor.topology.selectorStates = .ok states :=
    returns_iff.1 (raisesOnly_mapM fun i mem => returns_iff.2 (Topology.exists_selectorStates built (instruments i mem)))
  refine ⟨⟨fun h k key i mem port => not_selects_of_positioned h mem key, fun underived => ?_⟩, ?_⟩
  · have none_ : held.keys.filter (·.1 ∈ states.flatten.map Prod.fst) = [] := by
      refine List.filter_eq_nil_iff.2 fun k key commanded => ?_
      obtain ⟨⟨s, port⟩, mem, same⟩ := List.mem_map.1 (of_decide_eq_true commanded)
      obtain ⟨state, listed, mem⟩ := List.mem_flatten.1 mem
      obtain ⟨i, participates, found⟩ := exists_of_mem_mapM found listed
      refine underived k key i participates port ⟨state, Topology.lookup_eq_ok.1 found, ?_⟩
      rwa [← same]
    unfold positioned
    rw [found]
    simp only [bind_eq_ok]
    refine ⟨states, rfl, ?_⟩
    rw [none_]
    rfl
  · unfold positioned
    rw [found]
    refine RaisesOnly.bind (raisesOnly_ok states) ?_
    intro states' _
    dsimp only
    split_ifs
    · exact raisesOnly_pure ()
    · exact raisesOnly_error trivial

end

namespace CollectPacker

variable {c c' : CollectPacker}

section

variable (built : Topology.build components = .ok c.sensor.topology) (h : Seated c.sensor epoch assigned)
include built h

/-- **What a child can hold**: requests that agree and command no derived position. -/
theorem resolved_iff : (∃ settings, c.resolved assigned epoch «where» = .ok settings) ↔
      shares c.sensor assigned epoch «where» = true ∧ Underived c.sensor assigned epoch «where» := by
  unfold resolved shares Underived
  simp only [bind_eq_ok, pure_eq_ok, Bool.and_eq_true, isOk_iff]
  constructor
  · rintro ⟨_, _, apart, held, merged, _, underived, -⟩
    refine ⟨⟨⟨_, apart⟩, held, merged⟩, ?_⟩
    intro held' merged'
    cases merged.symm.trans merged'
    exact (positioned_iff built h.placed.2).1.1 underived
  · rintro ⟨⟨⟨_, apart⟩, held, merged⟩, underived⟩
    exact ⟨_, _, apart, held, merged, (), (positioned_iff built h.placed.2).1.2 (underived held merged), rfl⟩

/-- A conflict keeps requests apart, and is all that keeps them apart but for derived positions. -/
theorem fits_of_not_shares (untimed : Untimed epoch.settings) (apart : shares c.sensor assigned epoch «where» = false) :
    c.fits assigned epoch «where» = .ok false := by
  have conflicts : ∃ e, c.resolved assigned epoch «where» = .error e ∧ e.IsConflict := by
    unfold shares at apart
    unfold resolved
    have ports : RaisesOnly PlanningError.IsConflict
        (exclusive c.sensor «where» (assigned.flatMap Prod.snd).eraseDups) := exclusive_raisesOnly built h.placed.2
    have settings : RaisesOnly PlanningError.IsConflict (settled c.sensor assigned epoch «where») :=
      settled_raisesOnly built h untimed
    rcases ports.cases with ⟨_, agree⟩ | ⟨e, raised, kind⟩
    · rcases settings.cases with ⟨held, merged⟩ | ⟨e, raised, kind⟩
      · rw [agree, merged] at apart
        cases apart
      · refine ⟨e, ?_, kind⟩
        dsimp only
        rw [agree, raised]
        rfl
    · refine ⟨e, ?_, kind⟩
      dsimp only
      rw [raised]
      rfl
  obtain ⟨e, raised, kind⟩ := conflicts
  unfold fits
  rw [raised]
  cases e with
  | packingConflict message => rfl
  | _ => exact kind.elim

end

theorem fits_of_resolved {settings : List RoutedCommand} (h : c.resolved assigned epoch «where» = .ok settings) :
    c.fits assigned epoch «where» = .ok true := by
  unfold fits
  rw [h]

/-- Requests that agree but command a derived position are a plain error. -/
theorem fits_of_derived (built : Topology.build components = .ok c.sensor.topology)
    (h : Seated c.sensor epoch assigned) (agree : shares c.sensor assigned epoch «where» = true)
    (derived : ¬ Underived c.sensor assigned epoch «where») : ∃ e, c.fits assigned epoch «where» = .error e := by
  unfold shares at agree
  rw [Bool.and_eq_true, isOk_iff, isOk_iff] at agree
  obtain ⟨⟨_, apart⟩, held, merged⟩ := agree
  have checks : (positioned held (assigned.flatMap Prod.snd).eraseDups c.sensor «where» = .ok () ↔ _) ∧ _ :=
    positioned_iff built h.placed.2
  obtain ⟨iff_, raises⟩ := checks
  have refused : ∃ e, c.resolved assigned epoch «where» = .error e ∧ e.IsValue := by
    rcases raises.cases with ⟨_, passed⟩ | ⟨e, raised, kind⟩
    · refine absurd ?_ derived
      intro held' merged'
      cases merged.symm.trans merged'
      exact iff_.1 passed
    · refine ⟨e, ?_, kind⟩
      unfold resolved
      dsimp only
      rw [apart, merged]
      show (positioned held _ c.sensor «where» >>= fun _ => pure (held.values.map Prod.fst)) = .error e
      rw [raised]
      rfl
  obtain ⟨e, raised, kind⟩ := refused
  unfold fits
  rw [raised]
  cases e with
  | value message => exact ⟨_, rfl⟩
  | _ => exact kind.elim

end CollectPacker

/-! ## Turns -/

/-- The open child takes the request: the first option that agrees with it commands no derived position, and if none
agrees, then so does the top-ranked one, in a child of its own. -/
def Takes (sensor : BoundSensor) (epoch : RequestEpoch) («where» : String) (current : Assigned)
    (request : InstrumentRequest) (options : List (List Placement)) : Prop :=
  match options.find? fun option => shares sensor (current ++ [(request, option)]) epoch «where» with
  | some option => Underived sensor (current ++ [(request, option)]) epoch «where»
  | none => shares sensor [(request, options.headD [])] epoch «where» = true ∧
      Underived sensor [(request, options.headD [])] epoch «where»

namespace CollectPacker

variable {c c' : CollectPacker} {index position : ℕ} {closed closed' : List Assigned} {current' : Assigned}

/-- The requests of a child, with one more option that has passed its checks. -/
theorem seated_snoc (seated : ∀ a ∈ current, Sits sensor epoch a) (sits : Sits sensor epoch (request, option)) :
    Seated sensor epoch (current ++ [(request, option)]) := by
  refine ⟨by simp, ?_⟩
  intro a mem
  rcases mem_snoc.1 mem with mem | rfl
  · exact seated a mem
  · exact sits

/-- **A turn returns** if and only if the open child takes the request. -/
theorem place_returns_iff (built : Topology.build components = .ok c.sensor.topology)
    (untimed : Untimed epoch.settings)
    (offers : c.offered (request.assignmentKey index position) ("epoch " ++ toString index) = .ok options)
    (some_ : options ≠ []) (seated : ∀ a ∈ current, Sits c.sensor epoch a)
    (sits : ∀ option ∈ options, Sits c.sensor epoch (request, option)) :
    (∃ state, place epoch index (c, closed, current) (request, position) = .ok state) ↔
      Takes c.sensor epoch ("epoch " ++ toString index) current request options := by
  have seats (option : List Placement) (mem : option ∈ options) := seated_snoc seated (sits option mem)
  unfold Takes
  simp only [place, bind_eq_ok]
  split
  next option found =>
    obtain ⟨agrees, before, after, split, refused⟩ := List.find?_eq_some_iff_append.1 found
    have listed : option ∈ options := by simp [split]
    have skips (other : List Placement) (mem : other ∈ before) :
        c.fits (current ++ [(request, other)]) epoch ("epoch " ++ toString index) = .ok false :=
      fits_of_not_shares built (seats other (by simp [split, mem])) untimed (by simpa using refused other mem)
    constructor
    · rintro ⟨state, options', offers', found', search, -⟩
      cases offers.symm.trans offers'
      by_contra derived
      obtain ⟨e, raised⟩ := fits_of_derived built (seats option listed) agrees derived
      rw [split, findM?_append skips raised] at search
      cases search
    · intro underived
      obtain ⟨settings, resolved⟩ := (resolved_iff built (seats option listed)).2 ⟨agrees, underived⟩
      refine ⟨_, options, offers, some option, ?_, rfl⟩
      rw [split, findM?_append skips (fits_of_resolved resolved)]
      rfl
  next none_ =>
    have first : options.headD [] ∈ options := by
      obtain ⟨option, rest, rfl⟩ := List.exists_cons_of_ne_nil some_
      simp
    have alone : Seated c.sensor epoch [(request, options.headD [])] := by
      refine ⟨by simp, ?_⟩
      intro a mem
      obtain rfl := List.mem_singleton.1 mem
      exact sits _ first
    have search : options.findM? (fun option => c.fits (current ++ [(request, option)]) epoch
        ("epoch " ++ toString index)) = .ok none := by
      rw [findM?_eq_ok (f := fun _ => false) fun option mem => fits_of_not_shares built (seats option mem) untimed
        (by simpa using List.find?_eq_none.1 none_ option mem)]
      simp
    rw [← resolved_iff built alone]
    constructor
    · rintro ⟨state, options', offers', found', search', turn⟩
      cases offers.symm.trans offers'
      cases search.symm.trans search'
      obtain ⟨settings, resolved, -⟩ := bind_eq_ok.1 turn
      exact ⟨settings, resolved⟩
    · rintro ⟨settings, resolved⟩
      refine ⟨(c.bind (request.assignmentKey index position) (options.headD []), closed ++ [current],
        [(request, options.headD [])]), options, offers, none, search, ?_⟩
      exact bind_eq_ok.2 ⟨settings, resolved, rfl⟩

/-- What a turn has done: an option of the request joined the open child or has opened one, which resolves. -/
theorem place_resolves (offers : c.offered (request.assignmentKey index position) ("epoch " ++ toString index) = .ok options)
    (some_ : options ≠ [])
    (h : place epoch index (c, closed, current) (request, position) = .ok (c', closed', current')) :
    ∃ option ∈ options, c' = c.bind (request.assignmentKey index position) option ∧
      (closed' = closed ∧ current' = current ++ [(request, option)] ∨
        closed' = closed ++ [current] ∧ current' = [(request, option)]) ∧
      ∃ settings, c.resolved current' epoch ("epoch " ++ toString index) = .ok settings := by
  simp only [place, bind_eq_ok] at h
  obtain ⟨options', offers', found, search, h⟩ := h
  cases offers.symm.trans offers'
  cases found with
  | some option =>
    cases pure_eq_ok.1 h
    refine ⟨option, mem_of_findM? search, rfl, .inl ⟨rfl, rfl⟩, ?_⟩
    have holds := holds_of_findM? search
    unfold fits at holds
    split at holds
    · exact ⟨_, ‹_›⟩
    · cases holds
    · cases holds
  | none =>
    obtain ⟨settings, resolved, h⟩ := bind_eq_ok.1 h
    cases pure_eq_ok.1 h
    obtain ⟨option, rest, rfl⟩ := List.exists_cons_of_ne_nil some_
    exact ⟨option, by simp, rfl, .inr ⟨rfl, rfl⟩, settings, resolved⟩

end CollectPacker

/-! ## An epoch on its own -/

/-- The collect of one authored epoch. -/
def solely (name : String) (epoch : RequestEpoch) : CollectIntent where
  name
  epochs := [epoch]

/-- The epoch with the request as its only one. -/
def justOf (epoch : RequestEpoch) (request : InstrumentRequest) : RequestEpoch :=
  { epoch with units := [request] }

variable {name : String} {groups : Groups} {index position : ℕ} {before after : List (InstrumentRequest × ℕ)}
  {u v : InstrumentRequest × ℕ}

theorem position_ne (split : epoch.units.zipIdx = before ++ u :: after) (mem : v ∈ before) : v.2 ≠ u.2 := by
  have nodup : (epoch.units.zipIdx.map Prod.snd).Nodup := by
    rw [List.zipIdx_map_snd]
    exact List.nodup_range'
  rw [split, List.map_append, List.map_cons] at nodup
  intro same
  have apart := (List.nodup_append.1 nodup).2.2 v.2 (List.mem_map_of_mem mem) u.2 (by simp)
  exact apart same

/-- Unnamed requests have groups of their own. -/
theorem assignmentKey_ne (unnamed : u.1.assignment = none) (unnamed' : v.1.assignment = none)
    (split : epoch.units.zipIdx = before ++ u :: after) (mem : v ∈ before) :
    v.1.assignmentKey index v.2 ≠ u.1.assignmentKey index u.2 := by
  unfold InstrumentRequest.assignmentKey
  rw [unnamed, unnamed']
  intro same
  exact position_ne split mem (numeral_inj (Prod.ext_iff.1 same).2)

/-- The groups of the requests so far: one for each, of itself. -/
structure OwnGroups (epoch : RequestEpoch) (before : List (InstrumentRequest × ℕ)) (groups : Groups) : Prop where
  own : ∀ u ∈ before, groups.get? (u.1.assignmentKey 0 u.2) = some [(u.1, epoch)]
  keys : ∀ key ∈ groups.keys, key.1 = false ∧ ∃ u ∈ before, key = u.1.assignmentKey 0 u.2

theorem ownGroups_empty : OwnGroups epoch [] .empty := by
  refine ⟨by simp, ?_⟩
  intro key mem
  simp [Dict.keys, Dict.empty] at mem

theorem OwnGroups.snoc (h : OwnGroups epoch before groups) (unnamed : ∀ r ∈ epoch.units, r.assignment = none)
    (split : epoch.units.zipIdx = before ++ u :: after) :
    OwnGroups epoch (before ++ [u]) (groups.insert (u.1.assignmentKey 0 u.2)
      ((groups.get? (u.1.assignmentKey 0 u.2)).getD [] ++ [(u.1, epoch)])) := by
  have authored (w : InstrumentRequest × ℕ) (mem : w ∈ epoch.units.zipIdx) : w.1.assignment = none :=
    unnamed w.1 (List.fst_mem_of_mem_zipIdx mem)
  have fresh (w : InstrumentRequest × ℕ) (mem : w ∈ before) :
      w.1.assignmentKey 0 w.2 ≠ u.1.assignmentKey 0 u.2 :=
    assignmentKey_ne (authored u (by simp [split])) (authored w (by simp [split, mem])) split mem
  have free : groups.get? (u.1.assignmentKey 0 u.2) = none := by
    rw [Dict.get?_eq_none]
    intro mem
    obtain ⟨-, w, there, same⟩ := h.keys _ mem
    exact fresh w there same.symm
  constructor
  · intro w mem
    rcases mem_snoc.1 mem with mem | rfl
    · rw [Dict.get?_insert_of_ne (fresh w mem)]
      exact h.own w mem
    · rw [Dict.get?_insert_self, free]
      rfl
  · intro key mem
    rcases Dict.mem_keys_insert.1 mem with rfl | mem
    · refine ⟨?_, u, by simp, rfl⟩
      unfold InstrumentRequest.assignmentKey
      rw [authored u (by simp [split])]
    · obtain ⟨unnamed, w, there, same⟩ := h.keys key mem
      exact ⟨unnamed, w, by simp [there], same⟩

/-- **Grouping an epoch of unnamed requests** checks each request and groups it by itself. -/
theorem grouped_solely (unnamed : ∀ r ∈ epoch.units, r.assignment = none)
    (h : grouped (solely name epoch) = .ok groups) : OwnGroups epoch epoch.units.zipIdx groups ∧
      ∀ r ∈ epoch.units, r.check ("epoch " ++ toString 0) = .ok () := by
  simp only [grouped, solely, List.zipIdx_cons, List.zipIdx_nil, List.foldlM_cons, List.foldlM_nil, bind_eq_ok,
    pure_eq_ok] at h
  obtain ⟨groups', ⟨groups'', loop, rfl⟩, _, -, rfl⟩ := h
  have inv := foldlM_invariant_prefix (fun before groups => OwnGroups epoch before groups ∧
    ∀ u ∈ before, u.1.check ("epoch " ++ toString 0) = .ok ()) loop ⟨ownGroups_empty, by simp⟩ ?_
  · refine ⟨inv.1, ?_⟩
    intro r mem
    obtain ⟨i, lt, rfl⟩ := List.mem_iff_getElem.1 mem
    exact inv.2 (epoch.units[i], i) (List.mk_mem_zipIdx_iff_getElem?.2 (List.getElem?_eq_getElem lt))
  · rintro before ⟨request, position⟩ after groups₁ groups₂ split ⟨own, checked⟩ turn
    obtain ⟨_, check, turn⟩ := bind_eq_ok.1 turn
    cases pure_eq_ok.1 turn
    refine ⟨own.snoc unnamed split, ?_⟩
    intro u mem
    rcases mem_snoc.1 mem with mem | rfl
    · exact checked u mem
    · exact check

theorem exists_grouped (unnamed : ∀ r ∈ epoch.units, r.assignment = none)
    (checked : ∀ r ∈ epoch.units, r.check ("epoch " ++ toString 0) = .ok ()) :
    ∃ groups, grouped (solely name epoch) = .ok groups := by
  simp only [grouped, solely, List.zipIdx_cons, List.zipIdx_nil, List.foldlM_cons, List.foldlM_nil, bind_eq_ok,
    pure_eq_ok]
  have loops : ∃ groups, epoch.units.zipIdx.foldlM (fun (groups : Groups) u => do
      u.1.check ("epoch " ++ toString 0)
      let key := u.1.assignmentKey 0 u.2
      return groups.insert key ((groups.get? key).getD [] ++ [(u.1, epoch)])) .empty = .ok groups ∧
        OwnGroups epoch epoch.units.zipIdx groups := by
    refine exists_foldlM (OwnGroups epoch) ownGroups_empty ?_
    rintro before ⟨request, position⟩ after groups split own
    have listed : (request, position) ∈ epoch.units.zipIdx := by
      rw [split]
      exact List.mem_append_right _ (List.mem_cons_self ..)
    have mem : request ∈ epoch.units := List.fst_mem_of_mem_zipIdx listed
    exact ⟨_, bind_eq_ok.2 ⟨(), checked request mem, rfl⟩, own.snoc unnamed split⟩
  obtain ⟨groups, loop, own⟩ := loops
  refine ⟨groups, groups, ⟨groups, loop, rfl⟩, (), ?_, rfl⟩
  refine forM_eq_ok.2 ?_
  rintro ⟨⟨named, key⟩, members⟩ mem
  obtain ⟨false_, -⟩ := own.keys (named, key) (Dict.mem_keys.2 ⟨members, Dict.get?_eq_some.2 mem⟩)
  obtain rfl : named = false := false_
  rfl

/-- What packing the request alone has shown. -/
structure Ready (sensor : BoundSensor) (epoch : RequestEpoch) (request : InstrumentRequest) : Prop where
  checked : request.check ("epoch " ++ toString 0) = .ok ()
  eligible : ∃ placements, eligible [(request, epoch)] sensor ("epoch " ++ toString 0) = .ok placements ∧
    (request.distribute ≠ .each → ∀ p ∈ placements, ∃ n, preferred [(request, epoch)] p sensor = .ok n) ∧
    (request.distribute = .each → ∀ setting ∈ request.settings, ∃ routed, setting.resolve placements sensor = .ok routed)

namespace CollectPacker

variable {c c' : CollectPacker} {key : Bool × String}

/-- The options of a request that has packed alone suit it, whatever the load is. -/
theorem exists_offered (ready : Ready c.sensor epoch request) (members : c.members key = [(request, epoch)])
    (free : c.chosen.get? key = none) (untimed : Untimed request.settings) :
    ∃ options, c.offered key ("epoch " ++ toString 0) = .ok options ∧ options ≠ [] ∧
      ∀ option ∈ options, Sits c.sensor epoch (request, option) := by
  obtain ⟨placements, eligible, ranked, fanned⟩ := ready.eligible
  have offers : ∃ options, c.options key ("epoch " ++ toString 0) = .ok options ∧
      ∀ option ∈ options, option = placements ∧ request.distribute = .each ∨ ∃ p, option = [p] := by
    unfold options
    rw [members]
    simp only [bind_eq_ok]
    by_cases each : request.distribute = .each
    · refine ⟨[placements], ⟨placements, eligible, by simp [each, pure, Except.pure]⟩, ?_⟩
      intro option mem
      exact .inl ⟨List.mem_singleton.1 mem, each⟩
    · obtain ⟨keyed, ranks⟩ : ∃ keyed, (placements.mapM fun p => do
          return (p, ← preferred [(request, epoch)] p c.sensor, (c.load.get? p).getD 0) : Except PlanningError _) =
            .ok keyed := by
        refine returns_iff.1 (raisesOnly_mapM fun p mem => ?_)
        refine RaisesOnly.bind (returns_iff.2 (ranked each p mem)) ?_
        intro n _
        exact raisesOnly_pure _
      let ranking := keyed.insertionSort fun a b => a.2.1 > b.2.1 ∨ a.2.1 = b.2.1 ∧ a.2.2 ≤ b.2.2
      refine ⟨ranking.map fun ranked => [ranked.1], ⟨placements, eligible, ?_⟩, ?_⟩
      · simp only [List.head?_cons, Option.any_some, each, decide_false, Bool.false_eq_true, if_false]
        exact bind_eq_ok.2 ⟨keyed, ranks, rfl⟩
      · intro option mem
        obtain ⟨ranked, -, rfl⟩ := List.mem_map.1 mem
        exact .inr ⟨_, rfl⟩
  obtain ⟨options, offers, shape⟩ := offers
  obtain ⟨some_, suits⟩ := suits_of_options offers
  refine ⟨options, ?_, some_, ?_⟩
  · unfold offered
    rw [free]
    exact offers
  intro option mem
  have suits := suits option mem
  rw [members] at suits
  have routes (p : Placement) (on : p ∈ option) := suits.routes p on (request, epoch) (List.mem_singleton.2 rfl)
  refine ⟨suits.nonempty, suits.instruments, ?_, ?_, untimed⟩
  · intro setting asked p on
    exact routes p on setting (List.mem_append_left _ asked)
  · intro setting asked
    rcases shape option mem with ⟨rfl, each⟩ | ⟨p, rfl⟩
    · exact fanned each setting asked
    · exact routes p (List.mem_singleton.2 rfl) setting (List.mem_append_right _ asked)

end CollectPacker

/-- The packer as it starts on an intent. -/
def packerOf (sensor : BoundSensor) (groups : Groups) : CollectPacker where
  sensor
  groups

/-- The sensor with the keywords that planning reads. -/
def forPlanning (sensor : BoundSensor) (keywords : Option (Dict String (Dict String Keyword))) : BoundSensor :=
  { sensor with keywords := some (keywords.getD .empty) }

/-- Target preferences are for instrument settings only. -/
theorem unranked_solely : unranked (solely name epoch) = .ok () ↔ ∀ setting ∈ epoch.settings, setting.prefers = [] := by
  unfold unranked solely
  by_cases prefers : epoch.settings.any (!·.prefers.isEmpty) = true
  · have some_ : ¬ ∀ setting ∈ epoch.settings, setting.prefers = [] := by
      obtain ⟨setting, mem, preferred⟩ := List.any_eq_true.1 prefers
      intro all
      simp [all setting mem] at preferred
    exact iff_of_false (by simp [prefers]) some_
  · have all : ∀ setting ∈ epoch.settings, setting.prefers = [] := by
      intro setting mem
      by_contra preferred
      exact prefers (List.any_eq_true.2 ⟨setting, mem, by simp [preferred]⟩)
    exact iff_of_true (by simp [prefers]) all

/-- **Packing an epoch on its own.** -/
theorem pack_solely_iff {keywords : Option (Dict String (Dict String Keyword))} :
    (∃ collect, pack (solely name epoch) sensor keywords = .ok collect) ↔
      (∀ setting ∈ epoch.settings, setting.prefers = []) ∧ ∃ groups, grouped (solely name epoch) = .ok groups ∧
        ∃ packed, (packerOf (forPlanning sensor keywords) groups).packEpoch epoch 0 = .ok packed := by
  have unranked_iff : unranked (solely name epoch) = .ok () ↔ _ := unranked_solely
  rw [← unranked_iff]
  simp only [pack, bind_eq_ok, pure_eq_ok]
  constructor
  · rintro ⟨_, _, checked, groups, grouping, result, loop, -⟩
    simp only [solely, List.zipIdx_cons, List.zipIdx_nil, List.foldlM_cons, bind_eq_ok] at loop
    obtain ⟨-, ⟨packed, packs, -⟩, -⟩ := loop
    exact ⟨checked, groups, grouping, packed, packs⟩
  · rintro ⟨checked, groups, grouping, ⟨c, packed⟩, packs⟩
    refine ⟨_, (), checked, groups, grouping, (c, packed), ?_, [], rfl, [], rfl, rfl⟩
    simp only [solely, List.zipIdx_cons, List.zipIdx_nil, List.foldlM_cons, List.foldlM_nil, bind_eq_ok]
    exact ⟨(c, [] ++ packed), ⟨(c, packed), packs, rfl⟩, rfl⟩

/-- **What packing a request alone shows.** -/
theorem ready_of_pack {keywords : Option (Dict String (Dict String Keyword))} (unnamed : request.assignment = none)
    (h : ∃ collect, pack (solely name (justOf epoch request)) sensor keywords = .ok collect) :
    (∀ setting ∈ epoch.settings, setting.prefers = []) ∧ Ready (forPlanning sensor keywords) epoch request := by
  obtain ⟨unranked, groups, grouping, packed, packs⟩ := pack_solely_iff.1 h
  have single : ∀ r ∈ (justOf epoch request).units, r.assignment = none := by
    intro r mem
    obtain rfl := List.mem_singleton.1 mem
    exact unnamed
  obtain ⟨own, checked⟩ := grouped_solely single grouping
  refine ⟨unranked, checked request (List.mem_singleton.2 rfl), ?_⟩
  simp only [CollectPacker.packEpoch, bind_eq_ok] at packs
  obtain ⟨placed, loop, -⟩ := packs
  simp only [justOf, List.zipIdx_cons, List.zipIdx_nil, List.foldlM_cons, bind_eq_ok] at loop
  obtain ⟨⟨c, closed, current⟩, turn, -⟩ := loop
  have members : (packerOf (forPlanning sensor keywords) groups).members (request.assignmentKey 0 0) =
      [(request, justOf epoch request)] := by
    unfold CollectPacker.members packerOf
    dsimp only
    rw [own.own (request, 0) (by simp [justOf])]
    rfl
  simp only [CollectPacker.place, bind_eq_ok] at turn
  obtain ⟨options, offers, found, search, turn⟩ := turn
  -- Whichever way the request was placed, one of its options resolves by itself.
  have resolves : ∃ option ∈ options, ∃ settings, (packerOf (forPlanning sensor keywords) groups).resolved
      [(request, option)] (justOf epoch request) ("epoch " ++ toString 0) = .ok settings := by
    obtain ⟨some_, -⟩ := CollectPacker.offered_eq_ok (fun key targets found => by simp [packerOf] at found) offers
    cases found with
    | some option =>
      have holds := holds_of_findM? search
      unfold CollectPacker.fits at holds
      split at holds
      · exact ⟨option, mem_of_findM? search, _, ‹_›⟩
      · cases holds
      · cases holds
    | none =>
      obtain ⟨settings, resolved, -⟩ := bind_eq_ok.1 turn
      obtain ⟨option, rest, rfl⟩ := List.exists_cons_of_ne_nil some_
      exact ⟨option, by simp, settings, resolved⟩
  have offers : (packerOf (forPlanning sensor keywords) groups).options (request.assignmentKey 0 0)
      ("epoch " ++ toString 0) = .ok options := offers
  unfold CollectPacker.options at offers
  rw [members] at offers
  simp only [bind_eq_ok] at offers
  obtain ⟨placements, eligible, offers⟩ := offers
  refine ⟨placements, eligible, ?_, ?_⟩
  · intro single p mem
    have notEach : ¬ (List.head? [(request, justOf epoch request)]).any
        (fun first => decide (first.1.distribute = .each)) = true := by simpa using single
    rw [if_neg notEach] at offers
    obtain ⟨keyed, ranks, -⟩ := bind_eq_ok.1 offers
    obtain ⟨key, -, ranked⟩ := exists_right_of_forall₂ (mapM_eq_ok.1 ranks) mem
    obtain ⟨n, preferred, -⟩ := bind_eq_ok.1 ranked
    exact ⟨n, preferred⟩
  · intro each setting asked
    have isEach : (List.head? [(request, justOf epoch request)]).any
        (fun first => decide (first.1.distribute = .each)) = true := by simpa using each
    rw [if_pos isEach] at offers
    obtain rfl := pure_eq_ok.1 offers
    obtain ⟨option, mem, settings, resolved⟩ := resolves
    obtain rfl := List.mem_singleton.1 mem
    simp only [CollectPacker.resolved, bind_eq_ok] at resolved
    obtain ⟨_, -, held, settled, -⟩ := resolved
    obtain ⟨routed, routes, -⟩ := (heldTo_of_settled settled).own (request, option) (by simp) setting asked
    exact ⟨routed, routes⟩

/-! ## Splitting -/

/-- At each turn of packing the epoch, whatever child is open then, it takes the request. -/
def SplitsApart (name : String) (sensor : BoundSensor) (epoch : RequestEpoch) : Prop :=
  (∀ setting ∈ epoch.settings, setting.prefers = []) ∧
    ∀ groups, grouped (solely name epoch) = .ok groups → ∀ before request position after c closed current options,
      epoch.units.zipIdx = before ++ (request, position) :: after →
      before.foldlM (CollectPacker.place epoch 0) (packerOf sensor groups, [], []) = .ok (c, closed, current) →
      c.offered (request.assignmentKey 0 position) ("epoch " ++ toString 0) = .ok options →
      Takes sensor epoch ("epoch " ++ toString 0) current request options

/-- What holds of the packer before each turn. -/
structure Placing (sensor : BoundSensor) (groups : Groups) (epoch : RequestEpoch) (before : List (InstrumentRequest × ℕ))
    (state : CollectPacker × List Assigned × Assigned) : Prop where
  sensor_eq : state.1.sensor = sensor
  groups_eq : state.1.groups = groups
  chosen : ∀ key ∈ state.1.chosen.keys, ∃ u ∈ before, key = u.1.assignmentKey 0 u.2
  seated : ∀ a ∈ state.2.2, Sits sensor epoch a
  resolves : ∀ child ∈ state.2.1 ++ [state.2.2], child ≠ [] →
    ∃ settings, state.1.resolved child epoch ("epoch " ++ toString 0) = .ok settings

section Splitting

variable {state state' : CollectPacker × List Assigned × Assigned} (unnamed : ∀ r ∈ epoch.units, r.assignment = none)
  (untimed : ∀ r ∈ epoch.units, Untimed r.settings) (ready : ∀ r ∈ epoch.units, Ready sensor epoch r)
  (own : OwnGroups epoch epoch.units.zipIdx groups)
include unnamed untimed ready own

section

variable (h : Placing sensor groups epoch before state) (split : epoch.units.zipIdx = before ++ u :: after)
include h split

/-- Before a turn, options are offered that suit the request. -/
theorem Placing.offered :
    ∃ options, state.1.offered (u.1.assignmentKey 0 u.2) ("epoch " ++ toString 0) = .ok options ∧ options ≠ [] ∧
      ∀ option ∈ options, Sits sensor epoch (u.1, option) := by
  have listed (w : InstrumentRequest × ℕ) (mem : w ∈ before ++ u :: after) : w.1 ∈ epoch.units :=
    List.fst_mem_of_mem_zipIdx (split ▸ mem)
  have here : u.1 ∈ epoch.units := listed u (by simp)
  have members : state.1.members (u.1.assignmentKey 0 u.2) = [(u.1, epoch)] := by
    unfold CollectPacker.members
    rw [h.groups_eq, own.own u (by rw [split]; simp)]
    rfl
  have free : state.1.chosen.get? (u.1.assignmentKey 0 u.2) = none := by
    rw [Dict.get?_eq_none]
    intro mem
    obtain ⟨w, there, same⟩ := h.chosen _ mem
    exact assignmentKey_ne (unnamed _ here) (unnamed _ (listed w (by simp [there]))) split there same.symm
  obtain ⟨options, offers, some_, sits⟩ := CollectPacker.exists_offered (h.sensor_eq ▸ ready u.1 here) members free
    (untimed u.1 here)
  exact ⟨options, offers, some_, h.sensor_eq ▸ sits⟩

/-- A turn keeps it. -/
theorem Placing.place (turn : CollectPacker.place epoch 0 state u = .ok state') :
    Placing sensor groups epoch (before ++ [u]) state' := by
  obtain ⟨c, closed, current⟩ := state
  obtain ⟨c', closed', current'⟩ := state'
  obtain ⟨request, position⟩ := u
  obtain ⟨options, offers, some_, sits⟩ := h.offered unnamed untimed ready own split
  obtain ⟨option, mem, rfl, grows, resolved⟩ := CollectPacker.place_resolves offers some_ turn
  have same : (c.bind (request.assignmentKey 0 position) option).sensor = c.sensor ∧
      (c.bind (request.assignmentKey 0 position) option).groups = c.groups ∧
      ∀ key ∈ (c.bind (request.assignmentKey 0 position) option).chosen.keys,
        key = request.assignmentKey 0 position ∨ key ∈ c.chosen.keys := by
    unfold CollectPacker.bind
    split_ifs
    · exact ⟨rfl, rfl, fun key => .inr⟩
    · exact ⟨rfl, rfl, fun key => Dict.mem_keys_insert.1⟩
  obtain ⟨sensor_eq, groups_eq, keys⟩ := same
  have resolved' (child : Assigned) :
      (c.bind (request.assignmentKey 0 position) option).resolved child epoch ("epoch " ++ toString 0) =
        c.resolved child epoch ("epoch " ++ toString 0) := CollectPacker.resolved_congr sensor_eq
  refine ⟨sensor_eq.trans h.sensor_eq, groups_eq.trans h.groups_eq, ?_, ?_, ?_⟩
  · intro key there
    rcases keys key there with rfl | there
    · exact ⟨(request, position), by simp, rfl⟩
    · obtain ⟨w, listed, eq⟩ := h.chosen key there
      exact ⟨w, by simp [listed], eq⟩
  · rcases grows with ⟨-, rfl⟩ | ⟨-, rfl⟩
    · exact (CollectPacker.seated_snoc h.seated (sits option mem)).sits
    · intro a there
      obtain rfl := List.mem_singleton.1 there
      exact sits option mem
  · intro child there some_
    dsimp only
    rw [resolved' child]
    rcases mem_snoc.1 there with there | rfl
    · rcases grows with ⟨rfl, -⟩ | ⟨rfl, -⟩
      · exact h.resolves child (List.mem_append_left _ there) some_
      · exact h.resolves child there some_
    · exact resolved

end

/-- It holds before every turn that the loop comes to. -/
theorem placing_of_loop (split : epoch.units.zipIdx = before ++ after)
    (loop : before.foldlM (CollectPacker.place epoch 0) (packerOf sensor groups, [], []) = .ok state) :
    Placing sensor groups epoch before state := by
  have start : Placing sensor groups epoch [] (packerOf sensor groups, [], []) := by
    refine ⟨rfl, rfl, ?_, by simp, ?_⟩
    · intro key mem
      simp [packerOf, Dict.keys, Dict.empty] at mem
    · intro child mem some_
      exact absurd (List.mem_singleton.1 mem) some_
  refine foldlM_invariant_prefix (Placing sensor groups epoch) loop start ?_
  intro pre u post s s' eq placing turn
  exact placing.place unnamed untimed ready own (by rw [split, eq, List.append_assoc]; rfl) turn

end Splitting

/-- The children of an epoch whose requests have been placed are bound. -/
theorem exists_children {state : CollectPacker × List Assigned × Assigned}
    (h : Placing sensor groups epoch before state) :
    ∃ packed, ((state.2.1 ++ [state.2.2]).filter (!·.isEmpty)).foldlM (fun (c, packed) assigned => do
      let (c, child) ← CollectPacker.child c assigned epoch ("epoch " ++ toString 0)
      return (c, packed ++ [child])) (state.1, ([] : List BoundEpoch)) = .ok packed := by
  have children : ∃ packed : CollectPacker × List BoundEpoch,
      ((state.2.1 ++ [state.2.2]).filter (!·.isEmpty)).foldlM (fun (c, packed) assigned => do
        let (c, child) ← CollectPacker.child c assigned epoch ("epoch " ++ toString 0)
        return (c, packed ++ [child])) (state.1, []) = .ok packed ∧ state.1.Renumbered packed.1 := by
    refine exists_foldlM (fun _ (packed : CollectPacker × List BoundEpoch) => state.1.Renumbered packed.1)
      ⟨rfl, rfl, rfl⟩ ?_
    rintro pre child post ⟨c, packed⟩ eq same
    have mem : child ∈ (state.2.1 ++ [state.2.2]).filter (!·.isEmpty) := by simp [eq]
    have some_ : child ≠ [] := by
      rintro rfl
      simp at mem
    obtain ⟨settings, resolved⟩ := h.resolves child (List.mem_of_mem_filter mem) some_
    obtain ⟨numbered, -⟩ := CollectPacker.foldl_captures (c, []) child
    have again : (child.foldl CollectPacker.expandTargets (c, [])).1.resolved child epoch ("epoch " ++ toString 0) =
        .ok settings := (CollectPacker.resolved_congr (same.trans numbered).sensor).trans resolved
    let expanded := child.foldl CollectPacker.expandTargets (c, [])
    let bound : BoundEpoch := { units := expanded.2, settings, align := epoch.align }
    refine ⟨(expanded.1, packed ++ [bound]), ?_, same.trans numbered⟩
    refine bind_eq_ok.2 ⟨(expanded.1, bound), ?_, rfl⟩
    unfold CollectPacker.child
    exact bind_eq_ok.2 ⟨settings, again, rfl⟩
  obtain ⟨packed, bound, -⟩ := children
  exact ⟨packed, bound⟩

/-- **Splitting is complete** exactly where, at each turn, whatever child is open then takes the request: the first
option that agrees with it commands no derived selector position, or none agrees and the top-ranked one resolves in a
child of its own. -/
theorem pack_iff_splitsApart {keywords : Option (Dict String (Dict String Keyword))}
    (built : Topology.build components = .ok sensor.topology) (unnamed : ∀ r ∈ epoch.units, r.assignment = none)
    (untimed : Untimed epoch.settings ∧ ∀ r ∈ epoch.units, Untimed r.settings)
    (alone : ∀ r ∈ epoch.units, ∃ collect, pack (solely name (justOf epoch r)) sensor keywords = .ok collect) :
    (∃ collect, pack (solely name epoch) sensor keywords = .ok collect) ↔
      SplitsApart name (forPlanning sensor keywords) epoch := by
  have ready (r : InstrumentRequest) (mem : r ∈ epoch.units) : Ready (forPlanning sensor keywords) epoch r :=
    (ready_of_pack (unnamed r mem) (alone r mem)).2
  have built : Topology.build components = .ok (forPlanning sensor keywords).topology := built
  rw [pack_solely_iff]
  unfold SplitsApart
  refine and_congr_right fun unranked => ?_
  constructor
  · rintro ⟨groups, grouping, packed, packs⟩ groups' grouping' before request position after c closed current options
      split loop offers
    cases grouping.symm.trans grouping'
    obtain ⟨own, -⟩ := grouped_solely unnamed grouping
    have placing := placing_of_loop unnamed untimed.2 ready own split loop
    obtain ⟨options', offers', some_, sits⟩ := placing.offered unnamed untimed.2 ready own split
    cases offers.symm.trans offers'
    simp only [CollectPacker.packEpoch, bind_eq_ok] at packs
    obtain ⟨placed, whole, -⟩ := packs
    have returns := exists_foldlM_iff.1 ⟨placed, whole⟩ before (request, position) after _ split loop
    have takes := (CollectPacker.place_returns_iff (placing.sensor_eq ▸ built) untimed.1 offers some_
      (placing.sensor_eq ▸ placing.seated) (placing.sensor_eq ▸ sits)).1 returns
    rwa [show c.sensor = _ from placing.sensor_eq] at takes
  · intro takes
    obtain ⟨groups, grouping⟩ : ∃ groups, grouped (solely name epoch) = .ok groups :=
      exists_grouped unnamed fun r mem => (ready r mem).checked
    obtain ⟨own, -⟩ := grouped_solely unnamed grouping
    refine ⟨groups, grouping, ?_⟩
    have places : ∃ state, epoch.units.zipIdx.foldlM (CollectPacker.place epoch 0)
        (packerOf (forPlanning sensor keywords) groups, [], []) = .ok state := by
      refine exists_foldlM_iff.2 ?_
      rintro before ⟨request, position⟩ after ⟨c, closed, current⟩ split loop
      have placing := placing_of_loop unnamed untimed.2 ready own split loop
      obtain ⟨options, offers, some_, sits⟩ := placing.offered unnamed untimed.2 ready own split
      have takes := takes groups grouping before request position after c closed current options split loop offers
      refine (CollectPacker.place_returns_iff (placing.sensor_eq ▸ built) untimed.1 offers some_
        (placing.sensor_eq ▸ placing.seated) (placing.sensor_eq ▸ sits)).2 ?_
      rwa [show c.sensor = _ from placing.sensor_eq]
    obtain ⟨⟨c, closed, current⟩, loop⟩ := places
    obtain ⟨packed, bound⟩ := exists_children
      (placing_of_loop unnamed untimed.2 ready own (List.append_nil _).symm loop)
    refine ⟨packed, ?_⟩
    unfold CollectPacker.packEpoch
    exact bind_eq_ok.2 ⟨_, loop, bound⟩

/-- Two frames under one filter: the cameras behind the turret need a child each. -/
theorem pack_iff_splitsApart_example : ∃ sensor, Topology.build twoCameras = .ok sensor.topology ∧
    ∀ epoch ∈ bothCameras.epochs, SplitsApart "survey" (forPlanning sensor none) epoch := by
  let wheel : Dict String DeviceDetails := .ofList [("wheel", { supportedCommands := ["SelectFilter"] })]
  have packed : ((Topology.build twoCameras).toOption.map fun t => bothCameras.epochs.all fun epoch =>
      (pack (solely "survey" epoch) ⟨t, wheel, none⟩ none).isOk && epoch.units.all fun r =>
        (pack (solely "survey" (justOf epoch r)) ⟨t, wheel, none⟩ none).isOk) = some true := by
    decide +kernel
  obtain ⟨t, built, packed⟩ := Option.map_eq_some_iff.1 packed
  have built : Topology.build twoCameras = .ok (⟨t, wheel, none⟩ : BoundSensor).topology := toOption_eq_some.1 built
  refine ⟨⟨t, wheel, none⟩, built, ?_⟩
  intro epoch mem
  have packs := List.all_eq_true.1 packed epoch mem
  rw [Bool.and_eq_true, isOk_iff, List.all_eq_true] at packs
  obtain rfl := List.mem_singleton.1 mem
  exact (pack_iff_splitsApart built (by decide) (by unfold Untimed; decide) fun r asked => isOk_iff.1 (packs.2 r asked)).1 packs.1

/-- A guider beside a camera behind a turret. -/
def besideTurret : List Component :=
  [.device { device := "guider", «instrument» := true },
    .selector "turret" [.mk "left" [.device { device := "blue", «instrument» := true }]] []]

/-- A frame of the guider that asks for a turret position, and a frame of the camera there. -/
def guidedFrames : RequestEpoch where
  units := [
    { id := "guide", acquisition := ⟨1, none⟩, select := some (.device "guider"),
      settings := [{ command := .selectPort "left" }] },
    { id := "science", acquisition := ⟨2, none⟩, select := some (.device "blue") }]

/-- Each frame packs alone and no order of the two packs, since the position that one asks for follows from the other:
a derived position is no packing conflict, so that no second child is opened. -/
theorem splitting_incomplete : ∃ sensor, Topology.build besideTurret = .ok sensor.topology ∧
    (∀ r ∈ guidedFrames.units, r.assignment = none) ∧
    (Untimed guidedFrames.settings ∧ ∀ r ∈ guidedFrames.units, Untimed r.settings) ∧
    (∀ r ∈ guidedFrames.units, ∃ collect, pack (solely "survey" (justOf guidedFrames r)) sensor none = .ok collect) ∧
    ∀ units ∈ [guidedFrames.units, guidedFrames.units.reverse],
      ¬ ∃ collect, pack (solely "survey" { guidedFrames with units }) sensor none = .ok collect := by
  let turret : Dict String DeviceDetails := .ofList [("turret", { supportedCommands := ["SelectPort"] })]
  have packed : ((Topology.build besideTurret).toOption.map fun t =>
      (guidedFrames.units.all fun r => (pack (solely "survey" (justOf guidedFrames r)) ⟨t, turret, none⟩ none).isOk) &&
        [guidedFrames.units, guidedFrames.units.reverse].all fun units =>
          !(pack (solely "survey" { guidedFrames with units }) ⟨t, turret, none⟩ none).isOk) = some true := by
    decide +kernel
  obtain ⟨t, built, packed⟩ := Option.map_eq_some_iff.1 packed
  rw [Bool.and_eq_true, List.all_eq_true, List.all_eq_true] at packed
  refine ⟨⟨t, turret, none⟩, toOption_eq_some.1 built, by decide, by unfold Untimed; decide, ?_, ?_⟩
  · intro r asked
    exact isOk_iff.1 (packed.1 r asked)
  · intro units order packs
    have refused := packed.2 units order
    rw [isOk_iff.2 packs] at refused
    cases refused

end SensorKit.Sensor
