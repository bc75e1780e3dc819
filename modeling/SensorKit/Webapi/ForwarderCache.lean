import SensorKit.Lib.Replay
import SensorKit.Webapi.Forwarder

/-!
# What the caches hold

Together the caches are a store with a record per forwarder, entity and property, which each update writes or deletes. The
snapshot that a subscriber selects lists what its selection of the store holds.
-/

namespace SensorKit.Webapi

open Lib

variable {J : Type}

/-- What an update does to the store: a deletion writes nothing. -/
def write (update : Forwarder × SKRecord J) : (Forwarder × String × String) × Option (SKRecord J) :=
  ((update.1, update.2.entity, update.2.prop), update.2.payload.map fun _ => update.2)

/-- What the caches hold per forwarder, entity and property. -/
def stored (caches : Forwarder → Cache J) (key : Forwarder × String × String) : Option (SKRecord J) :=
  ((caches key.1).get? key.2.1).bind fun attrs => attrs.get? key.2.2

/-- What a subscriber selects: the matching records of its sources. -/
def Subscription.selects (config : WebAPIConfig) (subscription : Subscription) (key : Forwarder × String × String) : Bool :=
  decide (key.1 ∈ subscription.sources config ∧ subscription.Matches (key.1.record key.2.1 key.2.2 (none : Option Unit)))

/-- The update of an event. -/
def StreamEvent.update? : StreamEvent J → Option (Forwarder × SKRecord J)
  | .update source entity prop payload => some (source, source.record entity prop payload)
  | _ => none

/-- The updates of a run, in the order in which they are broadcast. -/
def updates (events : List (StreamEvent J)) : List (Forwarder × SKRecord J) :=
  events.filterMap StreamEvent.update?

variable {config : WebAPIConfig} {caches : Forwarder → Cache J} {cache : Cache J} {update record : SKRecord J}
  {forwarder : Forwarder} {entity prop : String} {payload : Option J} {subscription : Subscription}
  {service service' : WebAPI J} {event : StreamEvent J} {events : List (StreamEvent J)}

/-! ## Updates -/

theorem get?_updateAttrs {attrs : Dict String (SKRecord J)} : (Cache.updateAttrs attrs update).get? prop =
    if prop = update.prop then update.payload.map fun _ => update else attrs.get? prop := by
  unfold Cache.updateAttrs
  cases update.payload with
  | none => exact Dict.get?_erase
  | some payload => exact Dict.get?_insert

/-- A cache after an update. -/
theorem get?_update : ((cache.update update).get? entity).bind (fun attrs => attrs.get? prop) =
    if entity = update.entity ∧ prop = update.prop then update.payload.map fun _ => update
    else (cache.get? entity).bind fun attrs => attrs.get? prop := by
  unfold Cache.update
  rw [Dict.get?_insert]
  by_cases same : entity = update.entity
  · rw [if_pos same, Option.bind_some, get?_updateAttrs]
    by_cases here : prop = update.prop
    · rw [if_pos here, if_pos ⟨same, here⟩]
    · rw [if_neg here, if_neg (fun both => here both.2), ← same]
      cases cache.get? entity <;> rfl
  · rw [if_neg same, if_neg (fun both => same both.1)]

theorem stored_forward {update : Forwarder × SKRecord J} : stored (service.forward config update).caches =
    Function.update (stored service.caches) (write update).1 (write update).2 := by
  funext ⟨forwarder, entity, prop⟩
  unfold WebAPI.forward stored write
  dsimp only
  rw [Function.update_apply, Function.update_apply]
  by_cases same : forwarder = update.1
  · rw [if_pos same, get?_update, same]
    exact if_congr (by simp) rfl rfl
  · rw [if_neg same, if_neg (by simp [same])]

/-- What a step does to the store. -/
theorem stored_step (step : service.step config event = some service') :
    stored service'.caches = replay (stored service.caches) ((updates [event]).map write) := by
  cases event with
  | update source entity prop payload =>
    simp only [WebAPI.step] at step
    split at step
    · cases step
      exact stored_forward
    · cases step
  | join subscription =>
    cases step
    rfl
  | next i =>
    obtain ⟨sub, -, step⟩ := Option.bind_eq_some_iff.1 step
    obtain ⟨sub', -, step⟩ := Option.bind_eq_some_iff.1 step
    cases step
    rfl
  | disconnect i =>
    obtain ⟨sub, -, step⟩ := Option.bind_eq_some_iff.1 step
    obtain ⟨sub', -, step⟩ := Option.bind_eq_some_iff.1 step
    cases step
    rfl
  | shutdown =>
    cases step
    rfl

theorem stored_exec (run : exec (WebAPI.step config) service events = some service') :
    stored service'.caches = replay (stored service.caches) ((updates events).map write) := by
  induction events generalizing service with
  | nil =>
    cases run
    rfl
  | cons event events ih =>
    obtain ⟨mid, step, rest⟩ := exec_cons_eq_some.1 run
    have split : updates (event :: events) = updates [event] ++ updates events := List.filterMap_append (l := [event])
    rw [split, List.map_append, replay_append, ← stored_step step, ih rest]

/-- The updates of a run are well formed: each comes from a forwarder of the service, with the kind of its records. -/
theorem exists_of_mem_updates (run : exec (WebAPI.step config) service events = some service')
    {update : Forwarder × SKRecord J} (mem : update ∈ updates events) :
    update.1 ∈ config.forwarders ∧ ∃ entity prop payload, update.2 = update.1.record entity prop payload := by
  induction events generalizing service with
  | nil => cases mem
  | cons event events ih =>
    obtain ⟨mid, step, rest⟩ := exec_cons_eq_some.1 run
    obtain ⟨event', there, same⟩ := List.mem_filterMap.1 mem
    rcases List.mem_cons.1 there with rfl | later
    · cases event' with
      | update source entity prop payload =>
        cases same
        simp only [WebAPI.step] at step
        split at step
        · exact ⟨‹_›, entity, prop, payload, rfl⟩
        · cases step
      | _ => cases same
    · exact ih rest (List.mem_filterMap.2 ⟨event', later, same⟩)

/-! ## Selections -/

theorem matches_record_iff {J' : Type} {payload' : Option J'} : subscription.Matches (forwarder.record entity prop payload) ↔
    subscription.Matches (forwarder.record entity prop payload') := by
  cases subscription <;> exact Iff.rfl

/-- Of the updates of the service's forwarders, a stream matches those of its sources that it selects. -/
theorem selects_iff (source : forwarder ∈ config.forwarders) : subscription.selects config (forwarder, entity, prop) = true ↔
    subscription.Matches (forwarder.record entity prop payload) := by
  unfold Subscription.selects
  rw [decide_eq_true_iff, matches_record_iff]
  refine and_iff_right_of_imp fun matching => ?_
  cases subscription with
  | firehose => exact source
  | controllerProducts controllerId =>
    cases forwarder with
    | keyValue => cases matching.1
    | stream =>
      have kind : (if prop = "$EVENT$" then RecordKind.event else .stream) = .product := matching.1
      split at kind
      · cases kind
      · cases kind
    | product handler =>
      show .product handler ∈ config.productForwarders
      simpa [WebAPIConfig.forwarders] using source

/-- What the caches hold was broadcast by an update. -/
theorem exists_of_stored (run : exec (WebAPI.step config) {} events = some service)
    (held : stored service.caches (forwarder, entity, prop) = some record) :
    forwarder ∈ config.forwarders ∧ ∃ payload, record = forwarder.record entity prop (some payload) := by
  have empty : stored (J := J) (fun _ => .empty) = fun _ => none := rfl
  have replayed : replay (fun _ => none) ((updates events).map write) (forwarder, entity, prop) = some record := by
    rw [← empty]
    exact (congrFun (stored_exec run) _).symm.trans held
  obtain ⟨update, mem, same⟩ := List.mem_map.1 (mem_of_replay replayed)
  obtain ⟨source, entity', prop', payload, made⟩ := exists_of_mem_updates run mem
  unfold write at same
  rw [Prod.mk.injEq, Prod.mk.injEq, Prod.mk.injEq] at same
  obtain ⟨⟨rfl, entity_, prop_⟩, value⟩ := same
  obtain ⟨payload', some_, rfl⟩ := Option.map_eq_some_iff.1 value
  rw [made] at entity_ prop_ some_
  obtain rfl : entity' = entity := entity_
  obtain rfl : prop' = prop := prop_
  obtain rfl : payload = some payload' := some_
  exact ⟨source, payload', made⟩

theorem mem_snapshot : record ∈ cache.snapshot none ↔ ∃ entity prop, (cache.get? entity).bind (fun attrs => attrs.get? prop) = some record := by
  unfold Cache.snapshot
  rw [List.mem_flatMap]
  constructor
  · rintro ⟨attrs, mem, here⟩
    obtain ⟨entity, found⟩ := Dict.mem_values.1 mem
    obtain ⟨prop, found'⟩ := Dict.mem_values.1 here
    exact ⟨entity, prop, Option.bind_eq_some_iff.2 ⟨attrs, found, found'⟩⟩
  · rintro ⟨entity, prop, held⟩
    obtain ⟨attrs, found, found'⟩ := Option.bind_eq_some_iff.1 held
    exact ⟨attrs, Dict.mem_values.2 ⟨entity, found⟩, Dict.mem_values.2 ⟨prop, found'⟩⟩

theorem mem_subscription_snapshot : (forwarder, record) ∈ subscription.snapshot config caches ↔
    (forwarder ∈ subscription.sources config ∧ ∃ entity prop, stored caches (forwarder, entity, prop) = some record) ∧
      subscription.Matches record := by
  unfold Subscription.snapshot
  rw [List.mem_filter, List.mem_flatMap, decide_eq_true_iff]
  refine and_congr ?_ Iff.rfl
  constructor
  · rintro ⟨source, mem, here⟩
    obtain ⟨record', there, same⟩ := List.mem_map.1 here
    cases same
    exact ⟨mem, mem_snapshot.1 there⟩
  · rintro ⟨mem, held⟩
    exact ⟨forwarder, mem, List.mem_map.2 ⟨record, mem_snapshot.2 held, rfl⟩⟩

/-- The snapshot of a subscriber replays to its selection of the caches. -/
theorem replay_snapshot (run : exec (WebAPI.step config) {} events = some service) :
    replay (fun _ => none) ((subscription.snapshot config service.caches).map write) =
      restrict (subscription.selects config) (stored service.caches) := by
  have writes : (subscription.snapshot config service.caches).map write =
      ((subscription.snapshot config service.caches).map fun entry => ((write entry).1, entry.2)).map
        fun entry => (entry.1, some entry.2) := by
    rw [List.map_map]
    refine List.map_congr_left fun ⟨forwarder, record⟩ mem => ?_
    obtain ⟨⟨-, entity, prop, held⟩, -⟩ := mem_subscription_snapshot.1 mem
    obtain ⟨-, payload, rfl⟩ := exists_of_stored run held
    rfl
  rw [writes]
  refine replay_listing fun ⟨forwarder, entity, prop⟩ record => ?_
  rw [restrict_eq_some, List.mem_map]
  constructor
  · rintro ⟨⟨forwarder', record'⟩, mem, same⟩
    obtain ⟨⟨source, entity', prop', held⟩, matching⟩ := mem_subscription_snapshot.1 mem
    obtain ⟨known, payload, rfl⟩ := exists_of_stored run held
    obtain ⟨key, rfl⟩ := Prod.mk.inj same
    obtain ⟨rfl, rfl, rfl⟩ : forwarder' = forwarder ∧ entity' = entity ∧ prop' = prop := by
      simpa [write, Forwarder.record] using key
    exact ⟨(selects_iff known).2 matching, held⟩
  · rintro ⟨selected, held⟩
    obtain ⟨known, payload, rfl⟩ := exists_of_stored run held
    have source := (decide_eq_true_iff.1 selected).1
    refine ⟨_, mem_subscription_snapshot.2 ⟨⟨source, entity, prop, held⟩, (selects_iff known).1 selected⟩, rfl⟩

end SensorKit.Webapi
