import SensorKit.Webapi.ForwarderCache

/-!
# What the bus sends to the forwarders

The monitors of the key-value forwarder and of the stream forwarder parse what any publisher puts on the bus. A payload that
does not parse raises in the monitor, and ends the forwarder's task and with it the task group of the service. The parser is
given.
-/

namespace SensorKit.Webapi

open Lib

variable {J : Type}

/-- What `from_json` returns, as far as the monitors tell values apart. -/
inductive JsonValue (J : Type) where
  | object (fields : J)
  | null
  | other
deriving DecidableEq, Repr

/-- What a monitor receives: an entry of the key-value store, which may be deleted, or a stream message. -/
inductive Delivery where
  | entry (entity prop : String) (value : List UInt8) (deleted : Bool)
  | message (entity prop : String) (data : List UInt8)
deriving DecidableEq, Repr

/-- The update that the key-value monitor yields for a payload, if any. The payload of a deleted entry is none, as `null`
is. -/
def keyValueUpdate (entity prop : String) : JsonValue J → Option (Forwarder × SKRecord J)
  | .object fields => some (.keyValue, Forwarder.keyValue.record entity prop (some fields))
  | .null => some (.keyValue, Forwarder.keyValue.record entity prop none)
  | .other => none

/-- The update that the stream monitor yields for a payload, if any. -/
def streamUpdate (entity prop : String) : JsonValue J → Option (Forwarder × SKRecord J)
  | .object fields => some (.stream, Forwarder.stream.record entity prop (some fields))
  | .null => none
  | .other => none

section
variable (fromJson : List UInt8 → Except String (JsonValue J))

/-- A turn of the loop of `_monitor`: the update that it yields, none if it goes on to the next turn, or what it raises. -/
def monitor : Delivery → Except String (Option (Forwarder × SKRecord J))
  | .entry entity prop value deleted => do
    let payload ← if deleted then pure .null else fromJson value
    pure (keyValueUpdate entity prop payload)
  | .message entity prop data => do
    let payload ← fromJson data
    pure (streamUpdate entity prop payload)

/-- The tasks of the two forwarders in the task group of the service, and the updates that they have broadcast. An exception
in one of them ends the group. -/
structure ForwarderTasks (J : Type) where
  service : WebAPI J := {}
  broadcasts : List (Forwarder × SKRecord J) := []
  running : Bool := true

/-- A delivery to the tasks. -/
def ForwarderTasks.receive (config : WebAPIConfig) (tasks : ForwarderTasks J) (delivery : Delivery) : ForwarderTasks J :=
  if tasks.running = true then
    match monitor fromJson delivery with
    | .error _ => { tasks with running := false }
    | .ok none => tasks
    | .ok (some update) =>
      { tasks with service := tasks.service.forward config update, broadcasts := tasks.broadcasts ++ [update] }
  else tasks

/-- The deliveries that come in from the start of the tasks, with the subscribers that there are. -/
def ForwarderTasks.run (config : WebAPIConfig) (subscribers : List (Subscriber J)) (deliveries : List Delivery) :
    ForwarderTasks J :=
  deliveries.foldl (receive fromJson config) { service := { subscribers } }

end

/-! ## What the forwarders are for -/

section
variable (fromJson : List UInt8 → Except String (JsonValue J))

def JsonValue.fields? : JsonValue J → Option J
  | .object fields => some fields
  | .null => none
  | .other => none

/-- The object that a payload is, if it is one. -/
def object? (payload : List UInt8) : Option J :=
  (fromJson payload).toOption.bind JsonValue.fields?

/-- The update that a delivery is: a deletion, or a payload that is an object. Any other payload is none. -/
def Delivery.update? : Delivery → Option (Forwarder × SKRecord J)
  | .entry entity prop _ true => some (.keyValue, Forwarder.keyValue.record entity prop none)
  | .entry entity prop value false =>
    (object? fromJson value).map fun fields => (.keyValue, Forwarder.keyValue.record entity prop (some fields))
  | .message entity prop data =>
    (object? fromJson data).map fun fields => (.stream, Forwarder.stream.record entity prop (some fields))

/-- The caches that a list of updates leads to. -/
def cachesOf (updates : List (Forwarder × SKRecord J)) : Forwarder → Cache J :=
  updates.foldl (fun caches update => Function.update caches update.1 ((caches update.1).update update.2)) fun _ => .empty

/-- The tasks have survived, they have broadcast the updates and nothing else, and their caches are what the updates lead
to. -/
structure ForwarderTasks.Survived (deliveries : List Delivery) (tasks : ForwarderTasks J) : Prop where
  running : tasks.running = true
  broadcasts : tasks.broadcasts = deliveries.filterMap (Delivery.update? fromJson)
  caches : tasks.service.caches = cachesOf (deliveries.filterMap (Delivery.update? fromJson))

/-- A delivery that the monitors can take: its payload parses, and the value of an entry that is not deleted is not
`null`. -/
def Delivery.WellFormed : Delivery → Prop
  | .entry _ _ value deleted => deleted = true ∨ ∃ payload, fromJson value = .ok payload ∧ payload ≠ .null
  | .message _ _ data => ∃ payload, fromJson data = .ok payload

end

variable {fromJson : List UInt8 → Except String (JsonValue J)} {config : WebAPIConfig} {tasks : ForwarderTasks J}
  {delivery : Delivery} {deliveries : List Delivery}

/-- Of two partial functions one of which extends the other, the one that is defined more often gives more. -/
theorem filterMap_eq_iff {α β : Type} {f g : α → Option β} {l : List α} (extends_ : ∀ a b, f a = some b → g a = some b) :
    l.filterMap g = l.filterMap f ↔ ∀ a ∈ l, g a = f a := by
  have fewer (l : List α) : (l.filterMap f).length ≤ (l.filterMap g).length := by
    induction l with
    | nil => exact Nat.le_refl 0
    | cons a l ih =>
      cases here : f a with
      | none =>
        rw [List.filterMap_cons_none here, List.filterMap_cons]
        split
        · exact ih
        · exact Nat.le_succ_of_le ih
      | some b =>
        rw [List.filterMap_cons_some here, List.filterMap_cons_some (extends_ a b here)]
        exact Nat.succ_le_succ ih
  constructor
  · intro same
    induction l with
    | nil =>
      intro a mem
      cases mem
    | cons first l ih =>
      have both : g first = f first ∧ l.filterMap g = l.filterMap f := by
        cases here : f first with
        | some b =>
          have there := extends_ first b here
          rw [List.filterMap_cons_some here, List.filterMap_cons_some there] at same
          exact ⟨there, (List.cons.inj same).2⟩
        | none =>
          cases there : g first with
          | none =>
            rw [List.filterMap_cons_none here, List.filterMap_cons_none there] at same
            exact ⟨rfl, same⟩
          | some b =>
            rw [List.filterMap_cons_none here, List.filterMap_cons_some there] at same
            have more := congrArg List.length same
            have bound := fewer l
            rw [List.length_cons] at more
            omega
      exact List.forall_mem_cons.2 ⟨both.1, ih both.2⟩
  · exact List.filterMap_congr

/-! ## Monitors -/

theorem monitor_entry (entity prop : String) (value : List UInt8) :
    monitor fromJson (.entry entity prop value false) = (fromJson value).map (keyValueUpdate entity prop) := by
  unfold monitor
  dsimp only
  rw [if_neg Bool.false_ne_true]
  cases fromJson value <;> rfl

theorem monitor_message (entity prop : String) (data : List UInt8) :
    monitor fromJson (.message entity prop data) = (fromJson data).map (streamUpdate entity prop) := by
  unfold monitor
  dsimp only
  cases fromJson data <;> rfl

/-- On a delivery that is well formed, a monitor does what it is for. -/
theorem monitor_wellFormed (wellFormed : delivery.WellFormed fromJson) :
    monitor fromJson delivery = .ok (delivery.update? fromJson) := by
  cases delivery with
  | entry entity prop value deleted =>
    cases deleted with
    | true => rfl
    | false =>
      obtain ⟨payload, parsed, some_⟩ := wellFormed.resolve_left Bool.false_ne_true
      unfold Delivery.update? object?
      dsimp only
      rw [monitor_entry, parsed]
      cases payload with
      | object fields => rfl
      | null => exact absurd rfl some_
      | other => rfl
  | message entity prop data =>
    obtain ⟨payload, parsed⟩ := wellFormed
    unfold Delivery.update? object?
    dsimp only
    rw [monitor_message, parsed]
    cases payload <;> rfl

/-- On any other delivery a monitor is to do nothing, and raises or yields an update. -/
theorem monitor_not_wellFormed (malformed : ¬delivery.WellFormed fromJson) : delivery.update? fromJson = none ∧
    ((∃ error, monitor fromJson delivery = .error error) ∨ ∃ update, monitor fromJson delivery = .ok (some update)) := by
  cases delivery with
  | entry entity prop value deleted =>
    cases deleted with
    | true => exact absurd (.inl rfl) malformed
    | false =>
      unfold Delivery.update? object?
      dsimp only
      rw [monitor_entry]
      cases parsed : fromJson value with
      | error error => exact ⟨rfl, .inl ⟨error, rfl⟩⟩
      | ok payload =>
        cases payload with
        | object fields => exact absurd (.inr ⟨_, parsed, by simp⟩) malformed
        | null => exact ⟨rfl, .inr ⟨_, rfl⟩⟩
        | other => exact absurd (.inr ⟨_, parsed, by simp⟩) malformed
  | message entity prop data =>
    unfold Delivery.update? object?
    dsimp only
    rw [monitor_message]
    cases parsed : fromJson data with
    | error error => exact ⟨rfl, .inl ⟨error, rfl⟩⟩
    | ok payload => exact absurd ⟨payload, parsed⟩ malformed

/-! ## Runs -/

namespace ForwarderTasks

theorem receive_skip (skips : monitor fromJson delivery = .ok none) : tasks.receive fromJson config delivery = tasks := by
  unfold receive
  rw [skips]
  split <;> rfl

theorem receive_update {update : Forwarder × SKRecord J} (running : tasks.running = true)
    (yields : monitor fromJson delivery = .ok (some update)) : tasks.receive fromJson config delivery =
      { tasks with service := tasks.service.forward config update, broadcasts := tasks.broadcasts ++ [update] } := by
  unfold receive
  rw [if_pos running, yields]

/-- What the tasks leave when no monitor raises. -/
theorem foldl_receive (config : WebAPIConfig) (tasks : ForwarderTasks J)
    {yielded : Delivery → Option (Forwarder × SKRecord J)} (running : tasks.running = true)
    (yields : ∀ delivery ∈ deliveries, monitor fromJson delivery = .ok (yielded delivery)) :
    (deliveries.foldl (receive fromJson config) tasks).running = true ∧
      (deliveries.foldl (receive fromJson config) tasks).broadcasts = tasks.broadcasts ++ deliveries.filterMap yielded ∧
      (deliveries.foldl (receive fromJson config) tasks).service.caches = (deliveries.filterMap yielded).foldl
        (fun caches update => Function.update caches update.1 ((caches update.1).update update.2)) tasks.service.caches := by
  induction deliveries generalizing tasks with
  | nil => exact ⟨running, (List.append_nil _).symm, rfl⟩
  | cons delivery deliveries ih =>
    have first := yields delivery List.mem_cons_self
    have rest : ∀ delivery ∈ deliveries, monitor fromJson delivery = .ok (yielded delivery) :=
      fun delivery mem => yields delivery (List.mem_cons_of_mem _ mem)
    rw [List.foldl_cons]
    cases here : yielded delivery with
    | none =>
      rw [here] at first
      rw [receive_skip first, List.filterMap_cons_none here]
      exact ih _ running rest
    | some update =>
      rw [here] at first
      rw [receive_update running first, List.filterMap_cons_some here,
        List.append_cons tasks.broadcasts update (deliveries.filterMap yielded)]
      exact ih _ running rest

theorem not_running_foldl (ended : tasks.running = false) :
    (deliveries.foldl (receive fromJson config) tasks).running = false := by
  induction deliveries with
  | nil => exact ended
  | cons delivery deliveries ih =>
    have same : tasks.receive fromJson config delivery = tasks := by
      unfold receive
      rw [if_neg (Bool.eq_false_iff.1 ended)]
    rw [List.foldl_cons, same]
    exact ih

/-- A monitor that raises ends the tasks. -/
theorem not_running_of_error (config : WebAPIConfig) (tasks : ForwarderTasks J)
    (raises : ∃ delivery ∈ deliveries, ∃ error, monitor fromJson delivery = .error error) :
    (deliveries.foldl (receive fromJson config) tasks).running = false := by
  obtain ⟨delivery, mem, error, raises⟩ := raises
  obtain ⟨before, later, rfl⟩ := List.append_of_mem mem
  rw [List.foldl_append, List.foldl_cons]
  apply not_running_foldl
  unfold receive
  rw [raises]
  split
  · rfl
  · exact Bool.eq_false_iff.2 ‹_›

/-- Whatever is delivered, the tasks survive it, broadcast the updates and nothing else, and hold the caches that the updates
lead to, just if every delivery is well formed. -/
theorem survived_iff (fromJson : List UInt8 → Except String (JsonValue J)) (config : WebAPIConfig)
    (subscribers : List (Subscriber J)) (deliveries : List Delivery) :
    (run fromJson config subscribers deliveries).Survived fromJson deliveries ↔
      ∀ delivery ∈ deliveries, delivery.WellFormed fromJson := by
  constructor
  · intro survived
    let yielded := fun delivery => (monitor fromJson delivery).toOption.join
    have answered : ∀ delivery ∈ deliveries, monitor fromJson delivery = .ok (yielded delivery) := by
      intro delivery mem
      cases answer : monitor fromJson delivery with
      | ok update =>
        show Except.ok update = Except.ok (monitor fromJson delivery).toOption.join
        rw [answer]
        rfl
      | error error =>
        have ended := not_running_of_error config { service := { subscribers } } ⟨delivery, mem, error, answer⟩
        exact absurd (ended.symm.trans survived.running) Bool.false_ne_true
    have extends_ : ∀ delivery update, delivery.update? fromJson = some update → yielded delivery = some update := by
      intro delivery update given
      have wellFormed : delivery.WellFormed fromJson := by
        by_contra malformed
        rw [(monitor_not_wellFormed malformed).1] at given
        cases given
      show (monitor fromJson delivery).toOption.join = some update
      rw [monitor_wellFormed wellFormed, given]
      rfl
    have broadcasts := (foldl_receive config { service := { subscribers } } rfl answered).2.1
    have same := (filterMap_eq_iff extends_).1 (broadcasts.symm.trans survived.broadcasts)
    intro delivery mem
    by_contra malformed
    obtain ⟨nothing, ⟨error, raised⟩ | ⟨update, yields⟩⟩ := monitor_not_wellFormed malformed
    · rw [answered delivery mem] at raised
      cases raised
    · rw [answered delivery mem, same delivery mem, nothing] at yields
      cases yields
  · intro wellFormed
    obtain ⟨running, broadcasts, caches⟩ := foldl_receive config { service := { subscribers } } rfl
      fun delivery mem => monitor_wellFormed (wellFormed delivery mem)
    exact ⟨running, broadcasts, caches⟩

/-- Parse the empty object and `null`. -/
def parseSample (payload : List UInt8) : Except String (JsonValue Unit) :=
  if payload = [0x7b, 0x7d] then .ok (.object ())
  else if payload = [0x6e, 0x75, 0x6c, 0x6c] then .ok .null
  else .error "EOF while parsing an object"

/-- A message that one publisher has cut short ends the tasks, and a value of `null` is broadcast as a deletion. -/
theorem bad_payload_ends_tasks :
    ¬(run parseSample { } [] [.message "camera" "state" [0x7b]]).Survived parseSample [.message "camera" "state" [0x7b]] ∧
    ¬(run parseSample { } [] [.entry "camera" "info" [0x6e, 0x75, 0x6c, 0x6c] false]).Survived parseSample
      [.entry "camera" "info" [0x6e, 0x75, 0x6c, 0x6c] false] := by
  constructor
  · intro survived
    have running := survived.running
    revert running
    decide
  · intro survived
    have broadcasts := congrArg List.length survived.broadcasts
    revert broadcasts
    decide

/-! ## Clients -/

/-- What a monitor yields comes from a forwarder of the service, with the kind of its records. -/
theorem exists_of_monitor (config : WebAPIConfig) {update : Forwarder × SKRecord J}
    (yields : monitor fromJson delivery = .ok (some update)) : ∃ source entity prop payload,
      source ∈ config.forwarders ∧ update = (source, source.record entity prop payload) := by
  have known : .keyValue ∈ config.forwarders ∧ .stream ∈ config.forwarders := by simp [WebAPIConfig.forwarders]
  cases delivery with
  | entry entity prop value deleted =>
    cases deleted with
    | true =>
      cases yields
      exact ⟨.keyValue, entity, prop, none, known.1, rfl⟩
    | false =>
      rw [monitor_entry] at yields
      cases parsed : fromJson value with
      | error => simp [parsed, Except.map] at yields
      | ok json =>
        rw [parsed] at yields
        cases json <;> cases yields <;> exact ⟨.keyValue, entity, prop, _, known.1, rfl⟩
  | message entity prop data =>
    rw [monitor_message] at yields
    cases parsed : fromJson data with
    | error => simp [parsed, Except.map] at yields
    | ok json =>
      rw [parsed] at yields
      cases json <;> cases yields
      exact ⟨.stream, entity, prop, _, known.2, rfl⟩

/-- The service has come here by the updates that were broadcast. -/
def Traced (config : WebAPIConfig) (tasks : ForwarderTasks J) : Prop :=
  ∃ events, exec (WebAPI.step config) {} events = some tasks.service ∧ updates events = tasks.broadcasts

theorem Traced.receive (traced : tasks.Traced config) : (tasks.receive fromJson config delivery).Traced config := by
  obtain ⟨events, run, same⟩ := traced
  unfold ForwarderTasks.receive
  split_ifs
  · split
    · exact ⟨events, run, same⟩
    · exact ⟨events, run, same⟩
    · next update yields =>
      obtain ⟨source, entity, prop, payload, known, rfl⟩ := exists_of_monitor config yields
      refine ⟨events ++ [.update source entity prop payload], ?_, ?_⟩
      · rw [exec_append, run]
        simp [exec, WebAPI.step, known]
      · rw [updates, List.filterMap_append, ← same]
        rfl
  · exact ⟨events, run, same⟩

end ForwarderTasks

end SensorKit.Webapi
