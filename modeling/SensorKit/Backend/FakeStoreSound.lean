import SensorKit.Backend.FakeStore
import SensorKit.Lib.Fallible

/-!
# What the in-memory store keeps

The entries of a key have increasing revisions as long as each write to a defined key requires one. A write then requires
the latest entry exactly where no other has followed it, and a monitor starts with the latest entries.
-/

namespace SensorKit.Backend

open Lib

variable {S P : Type} {lib : PrefixMaps S} {store store' : FakeStore lib P} {key other path : List S}
  {entry : KVEntry S P} {payload : Option P} {revision : ℤ} {ttl : Option (Option ℚ)} {queueSet : QueueSet}

structure FakeStore.Sound (store : FakeStore lib P) : Prop where
  kv : store.kv.Sound
  named : ∀ key, ∀ entry ∈ store.kv.history key, entry.key = key
  positive : ∀ key, ∀ entry ∈ store.kv.history key, 0 < entry.revision
  increasing : ∀ key, (store.kv.history key).Pairwise fun earlier later => earlier.revision < later.revision

theorem FakeStore.Sound.le_latest (sound : store.Sound) (latest : store.latest key = some entry) {earlier : KVEntry S P}
    (mem : earlier ∈ store.kv.history key) : earlier.revision ≤ entry.revision := by
  obtain ⟨init, split⟩ := List.getLast?_eq_some_iff.1 latest
  have increasing := sound.increasing key
  rw [split] at mem increasing
  rcases mem_snoc.1 mem with mem | mem
  · exact ((List.pairwise_append.1 increasing).2.2 earlier mem entry List.mem_cons_self).le
  · rw [mem]

theorem mem_of_latest (latest : store.latest key = some entry) : entry ∈ store.kv.history key :=
  List.mem_of_getLast? latest

theorem latest_eq_none : store.latest key = none ↔ store.kv.history key = [] :=
  List.getLast?_eq_none_iff

/-! ## Writes -/

section Writes

variable [DecidableEq S] (lawful : lib.Lawful)

include lawful

/-- A write appends its entry to the history of its key. -/
theorem exists_write (sound : store.kv.Sound) : ∃ store', store.write key payload revision ttl =
    .ok (store', ⟨key, payload, revision⟩) ∧ store'.kv.Sound ∧
    ∀ other, store'.kv.history other = if other = key then store.kv.history key ++ [⟨key, payload, revision⟩]
      else store.kv.history other := by
  obtain ⟨kv, published, -⟩ := @publish_eq S _ lib store.kv lawful key ⟨key, payload, revision⟩ _ sound
  simp only [FakeStore.write, published]
  exact ⟨_, rfl, sound.publish lawful published, fun other => history_publish lawful sound published⟩

theorem FakeStore.Sound.write (sound : store.Sound) (positive : 0 < revision)
    (bigger : ∀ earlier ∈ store.kv.history key, earlier.revision < revision)
    (written : store.write key payload revision ttl = .ok (store', entry)) : store'.Sound := by
  obtain ⟨store'', written', kv, history⟩ := @exists_write S P lib store key payload revision ttl _ lawful sound.kv
  rw [written] at written'
  cases written'
  refine ⟨kv, fun other entry mem => ?_, fun other entry mem => ?_, fun other => ?_⟩
  · rw [history] at mem
    split_ifs at mem with here
    · rcases List.mem_append.1 mem with mem | mem
      · rw [here]
        exact sound.named key entry mem
      · rw [List.mem_singleton.1 mem, here]
    · exact sound.named other entry mem
  · rw [history] at mem
    split_ifs at mem with here
    · rcases mem_snoc.1 mem with mem | mem
      · exact sound.positive key entry mem
      · rw [mem]
        exact positive
    · exact sound.positive other entry mem
  · rw [history]
    split_ifs
    · refine List.pairwise_append.2 ⟨sound.increasing key, List.pairwise_singleton _ _, fun earlier mem last last_mem => ?_⟩
      rw [List.mem_singleton.1 last_mem]
      exact bigger earlier mem
    · exact sound.increasing other

omit lawful in
/-- What an update may require: the revision of the latest entry, if there is one. -/
theorem doUpdate_eq {required : Option ℤ}
    (allowed : ∀ r latest, required = some r → store.latest key = some latest → r = latest.revision) :
    store.doUpdate key payload required ttl = store.write key payload (required.getD 0 + 1) ttl := by
  unfold FakeStore.doUpdate
  cases required with
  | none => rfl
  | some r =>
    cases latest : store.latest key with
    | none => rfl
    | some entry => exact if_neg (not_not.2 (allowed r entry rfl latest))

omit lawful in
theorem doUpdate_refused {r : ℤ} (latest : store.latest key = some entry) (ne : r ≠ entry.revision) :
    store.doUpdate key payload (some r) ttl = .error .revision := by
  unfold FakeStore.doUpdate
  rw [latest]
  exact if_pos ne

omit lawful in
theorem allowed_of_ok {required : Option ℤ} {written : FakeStore lib P × KVEntry S P}
    (updated : store.doUpdate key payload required ttl = .ok written) :
    ∀ r latest, required = some r → store.latest key = some latest → r = latest.revision := by
  rintro r entry rfl latest
  by_contra ne
  rw [doUpdate_refused latest ne] at updated
  cases updated

end Writes

/-! ## The contract of the calls -/

section Contract

variable [DecidableEq S]

/-- Nothing was written to the key since the entry with the revision; before the first one, the revision is 0. -/
def NoWriteSince (history : List (KVEntry S P)) (revision : ℤ) : Prop :=
  history = [] ∧ revision = 0 ∨ ∃ entry, history.getLast? = some entry ∧ entry.revision = revision

/-- A write that succeeds appends an entry with a revision greater than all before. -/
def Rises (store : FakeStore lib P) (key : List S) (result : Except StoreError (FakeStore lib P × KVEntry S P)) : Prop :=
  ∀ store' entry, result = .ok (store', entry) → store'.kv.history key = store.kv.history key ++ [entry] ∧
    ∀ earlier ∈ store.kv.history key, earlier.revision < entry.revision

/-- A write that requires a revision succeeds exactly if nothing was written since. -/
def Guards (store : FakeStore lib P) (key : List S) (required : Option ℤ)
    (result : Except StoreError (FakeStore lib P × KVEntry S P)) : Prop :=
  ∀ r, required = some r → ((∃ written, result = .ok written) ↔ NoWriteSince (store.kv.history key) r)

/-- A monitor starts with the latest entries of the defined keys that it covers. -/
def Covers (store : FakeStore lib P) (queueSet : QueueSet) (path : List S)
    (result : Except StoreError (List (KVEntry S P))) : Prop :=
  ∃ batch, result = .ok batch ∧ batch.Nodup ∧
    ∀ entry, entry ∈ batch ↔ ∃ key, IsFor queueSet path key ∧ store.latest key = some entry

/-- What the calls promise. Deleting a key that is not defined, or deleted, writes nothing. -/
def Keeps (store : FakeStore lib P) : StoreCall S P → Prop
  | .create key payload ttl => Rises store key (store.create key payload ttl)
  | .update key payload required =>
    Rises store key (store.update key payload required) ∧ Guards store key required (store.update key payload required)
  | .delete key required => store.definedNotDeleted key = true →
    Rises store key (store.doUpdate key none required none) ∧
      Guards store key required (store.doUpdate key none required none)
  | .monitor queueSet path => Covers store queueSet path (store.monitor queueSet path).2
  | .close _ => True
  | .expire key => ∀ required, store.expirers.get? key = some required → store.definedNotDeleted key = true →
    Rises store key (store.doUpdate key none (some required) none) ∧
      Guards store key (some required) (store.doUpdate key none (some required) none)

/-- Which calls keep their promise: those that write to a defined key require a revision, those that write to an undefined
one require none but 0, and those that monitor below a path find entries at all keys there that have been touched. -/
def Fits (store : FakeStore lib P) : StoreCall S P → Prop
  | .update key _ none => store.kv.history key = []
  | .update key _ (some required) => store.kv.history key = [] → required = 0
  | .delete key none => store.definedNotDeleted key = false
  | .monitor queueSet path => queueSet ≠ .direct → ∀ key, IsFor queueSet path key → store.kv.Exists key →
    store.kv.history key ≠ []
  | _ => True

variable (lawful : lib.Lawful) {required : Option ℤ}

omit [DecidableEq S] in
theorem noWriteSince_iff {r : ℤ} (fits : store.kv.history key = [] → r = 0) : NoWriteSince (store.kv.history key) r ↔
    ∀ latest, store.latest key = some latest → r = latest.revision := by
  unfold NoWriteSince FakeStore.latest
  constructor
  · rintro (⟨none, -⟩ | ⟨entry, last, same⟩) latest here
    · rw [none] at here
      cases here
    · rw [last] at here
      cases here
      exact same.symm
  · intro allowed
    cases latest : (store.kv.history key).getLast? with
    | none =>
      have none := List.getLast?_eq_none_iff.1 latest
      exact .inl ⟨none, fits none⟩
    | some entry => exact .inr ⟨entry, rfl, (allowed entry latest).symm⟩

omit [DecidableEq S] in
/-- The next revision is greater than all before. -/
theorem FakeStore.Sound.next_revision (sound : store.Sound) (unconditional : required = none → store.kv.history key = [])
    (first : ∀ r, required = some r → store.kv.history key = [] → r = 0)
    (allowed : ∀ r latest, required = some r → store.latest key = some latest → r = latest.revision) :
    0 < required.getD 0 + 1 ∧ ∀ earlier ∈ store.kv.history key, earlier.revision < required.getD 0 + 1 := by
  cases latest : store.latest key with
  | none =>
    have none := latest_eq_none.1 latest
    rw [none]
    cases required with
    | none => simp
    | some r => simp [first r rfl none]
  | some entry =>
    have mem := mem_of_latest latest
    cases required with
    | none =>
      rw [unconditional rfl] at mem
      cases mem
    | some r =>
      rw [Option.getD_some, allowed r entry rfl latest]
      have positive := sound.positive key entry mem
      refine ⟨by omega, fun earlier here => ?_⟩
      have := sound.le_latest latest here
      omega

include lawful

/-- An update that fits keeps its promise, and the store sound. -/
theorem FakeStore.Sound.doUpdate (sound : store.Sound) (unconditional : required = none → store.kv.history key = [])
    (first : ∀ r, required = some r → store.kv.history key = [] → r = 0) :
    Rises store key (store.doUpdate key payload required ttl) ∧
      Guards store key required (store.doUpdate key payload required ttl) ∧
      ∀ store' entry, store.doUpdate key payload required ttl = .ok (store', entry) → store'.Sound := by
  have succeeds (allowed : ∀ r latest, required = some r → store.latest key = some latest → r = latest.revision) :=
    @doUpdate_eq S P lib store key payload ttl _ required allowed
  refine ⟨fun store' entry updated => ?_, fun r requires => ?_, fun store' entry updated => ?_⟩
  · have allowed := allowed_of_ok updated
    rw [succeeds allowed] at updated
    obtain ⟨store'', written, -, history⟩ := @exists_write S P lib store key payload _ ttl _ lawful sound.kv
    rw [written] at updated
    cases updated
    exact ⟨by rw [history, if_pos rfl], (sound.next_revision unconditional first allowed).2⟩
  · rw [noWriteSince_iff (first r requires)]
    constructor
    · rintro ⟨written, updated⟩ latest here
      exact allowed_of_ok updated r latest requires here
    · intro allowed
      have allowed' : ∀ r latest, required = some r → store.latest key = some latest → r = latest.revision := by
        intro r' latest requires' here
        rw [requires] at requires'
        cases requires'
        exact allowed latest here
      obtain ⟨store', written, -⟩ := @exists_write S P lib store key payload _ ttl _ lawful sound.kv
      exact ⟨_, (succeeds allowed').trans written⟩
  · have allowed := allowed_of_ok updated
    rw [succeeds allowed] at updated
    obtain ⟨positive, bigger⟩ := sound.next_revision unconditional first allowed
    exact sound.write lawful positive bigger updated

omit lawful in
/-- A creation that succeeds is an update that requires what a key without a value has. -/
theorem exists_of_create {payload : P} {ttl : Option ℚ} {written : FakeStore lib P × KVEntry S P}
    (created : store.create key payload ttl = .ok written) : ∃ r, (store.kv.history key = [] → r = 0) ∧
      store.doUpdate key (some payload) (some r) (some ttl) = .ok written := by
  unfold FakeStore.create at created
  split at created
  next =>
    split at created
    next entry latest =>
      split_ifs at created
      refine ⟨entry.revision, fun none => ?_, created⟩
      rw [latest_eq_none.2 none] at latest
      cases latest
    next => cases created
  next => exact ⟨0, fun _ => rfl, created⟩

omit lawful [DecidableEq S] in
theorem FakeStore.Sound.transfer (sound : store.Sound) (kv : store'.kv.Sound)
    (same : ∀ key, store'.kv.history key = store.kv.history key) : store'.Sound := by
  refine ⟨kv, fun key => ?_, fun key => ?_, fun key => ?_⟩
  · rw [same]
    exact sound.named key
  · rw [same]
    exact sound.positive key
  · rw [same]
    exact sound.increasing key

omit lawful [DecidableEq S] in
theorem ne_nil_of_definedNotDeleted (live : store.definedNotDeleted key = true) : store.kv.history key ≠ [] := by
  intro none
  unfold FakeStore.definedNotDeleted at live
  rw [latest_eq_none.2 none] at live
  cases live

/-- Deleting a key that is not live does nothing. -/
theorem FakeStore.Sound.deleteLive (sound : store.Sound) (live : store.definedNotDeleted key = true)
    (conditional : required ≠ none) : Rises store key (store.doUpdate key none required none) ∧
      Guards store key required (store.doUpdate key none required none) ∧
      ∀ store' entry, store.doUpdate key none required none = .ok (store', entry) → store'.Sound :=
  sound.doUpdate lawful (fun none => absurd none conditional)
    (fun _ _ none => absurd none (ne_nil_of_definedNotDeleted live))

theorem FakeStore.Sound.delete (sound : store.Sound)
    (conditional : store.definedNotDeleted key = true → required ≠ none)
    (deleted : store.delete key required = .ok store') : store'.Sound := by
  unfold FakeStore.delete at deleted
  split_ifs at deleted with live
  · obtain ⟨-, -, kept⟩ := sound.deleteLive lawful live (conditional live)
    cases updated : store.doUpdate key none required none with
    | error =>
      rw [updated] at deleted
      cases deleted
    | ok written =>
      rw [updated] at deleted
      cases deleted
      exact kept written.1 written.2 updated
  · cases deleted
    exact sound

/-! ## Monitors -/

omit [DecidableEq S] in
theorem mem_childrenOf : other ∈ store.kv.childrenOf path ↔
    store.kv.Exists other ∧ IsFor .shallowWildcard path other := by
  unfold FakeBroker.childrenOf FakeBroker.Exists IsFor
  rw [List.mem_filterMap]
  constructor
  · rintro ⟨⟨node, value⟩, mem, here⟩
    obtain ⟨⟨x, rfl⟩, rfl, -⟩ := (lawful.mem_nodes _ _ _ _).1 mem
    split_ifs at here with exists_
    cases here
    exact ⟨exists_, by simp, by simp⟩
  · rintro ⟨exists_, nonempty, rfl⟩
    refine ⟨(other, lib.get? store.kv.trie other), (lawful.mem_nodes _ _ _ _).2 ?_, if_pos exists_⟩
    exact ⟨⟨_, (List.dropLast_concat_getLast nonempty).symm⟩, rfl, other, List.prefix_rfl, exists_⟩

omit [DecidableEq S] in
theorem nodup_childrenOf : (store.kv.childrenOf path).Nodup := by
  have kept : store.kv.childrenOf path =
      ((lib.nodes store.kv.trie path).filter fun node => node.2.isSome).map Prod.fst := by
    unfold FakeBroker.childrenOf
    rw [← List.filterMap_eq_filter, List.map_filterMap]
    refine List.filterMap_congr fun node _ => ?_
    by_cases here : node.2.isSome = true <;> simp [Option.guard, here]
  rw [kept]
  exact (List.filter_sublist.map Prod.fst).nodup (lawful.nodup_nodes _ _)

theorem mem_descendantsOf : other ∈ store.kv.descendantsOf path ↔
    store.kv.Exists other ∧ IsFor .deepWildcard path other := by
  unfold FakeBroker.descendantsOf FakeBroker.Exists IsFor
  rw [List.mem_filter, lawful.mem_keysFrom, decide_eq_true_eq]
  constructor
  · rintro ⟨⟨isPrefix, exists_⟩, ne⟩
    exact ⟨exists_, isPrefix, Ne.symm ne⟩
  · rintro ⟨exists_, isPrefix, ne⟩
    exact ⟨⟨isPrefix, exists_⟩, Ne.symm ne⟩

theorem nodup_descendantsOf : (store.kv.descendantsOf path).Nodup :=
  (lawful.nodup_keysFrom _ _).filter _

omit lawful [DecidableEq S] in
/-- A path is not below itself. -/
theorem ne_of_isFor (wildcard : queueSet ≠ .direct) (here : IsFor queueSet path key) : key ≠ path := by
  cases queueSet with
  | direct => exact absurd rfl wildcard
  | shallowWildcard =>
    rintro rfl
    have lengths := congrArg List.length here.2
    have := List.length_pos_of_ne_nil here.1
    rw [List.length_dropLast] at lengths
    omega
  | deepWildcard => exact here.2.symm

omit lawful [DecidableEq S] in
theorem newest_eq_ok : store.newest key = .ok entry ↔ store.latest key = some entry := by
  unfold FakeStore.newest
  cases store.latest key <;> simp

omit lawful [DecidableEq S] in
/-- A monitor of the keys below a path covers them exactly if all have entries. -/
theorem FakeStore.Sound.covers_mapM (sound : store.Sound) {keys : List (List S)} (nodup : keys.Nodup)
    (below : ∀ key, key ∈ keys ↔ store.kv.Exists key ∧ IsFor queueSet path key) :
    Covers store queueSet path (keys.mapM store.newest) ↔
      ∀ key, IsFor queueSet path key → store.kv.Exists key → store.kv.history key ≠ [] := by
  constructor
  · rintro ⟨batch, listed, -⟩ key here exists_ none
    obtain ⟨entry, -, newest⟩ := exists_right_of_forall₂ (mapM_eq_ok.1 listed) ((below key).2 ⟨exists_, here⟩)
    rw [newest_eq_ok, latest_eq_none.2 none] at newest
    cases newest
  · intro defined
    have all (key : List S) (mem : key ∈ keys) : ∃ entry, store.newest key = .ok entry := by
      obtain ⟨exists_, here⟩ := (below key).1 mem
      obtain ⟨entry, latest⟩ := Option.ne_none_iff_exists'.1 (latest_eq_none.not.2 (defined key here exists_))
      exact ⟨entry, newest_eq_ok.2 latest⟩
    obtain ⟨batch, listed⟩ := exists_mapM all
    have pairs := mapM_eq_ok.1 listed
    have named : batch.map (·.key) = keys := by
      clear listed all below nodup
      induction pairs with
      | nil => rfl
      | cons newest _ ih =>
        rw [List.map_cons, ih, sound.named _ _ (mem_of_latest (newest_eq_ok.1 newest))]
    refine ⟨batch, listed, List.Nodup.of_map (·.key) (named ▸ nodup), fun entry => ?_⟩
    constructor
    · intro mem
      obtain ⟨key, here, newest⟩ := exists_left_of_forall₂ pairs mem
      exact ⟨key, ((below key).1 here).2, newest_eq_ok.1 newest⟩
    · rintro ⟨key, here, latest⟩
      have exists_ : store.kv.Exists key := exists_of_history (latest_eq_none.not.1 (by rw [latest]; simp))
      obtain ⟨entry', mem, newest⟩ := exists_right_of_forall₂ pairs ((below key).2 ⟨exists_, here⟩)
      rw [newest_eq_ok, latest] at newest
      cases newest
      exact mem

omit lawful in
theorem monitor_snd : (store.monitor queueSet path).2 =
    FakeStore.firstBatch { store with kv := (store.kv.element path).1 } queueSet path := by
  unfold FakeStore.monitor
  dsimp only
  split
  next batch listed => rw [listed]
  next error listed => rw [listed]

theorem FakeStore.Sound.touch (sound : store.Sound) :
    FakeStore.Sound { store with kv := (store.kv.element path).1 } :=
  sound.transfer (sound.kv.element lawful) fun _ => history_element lawful

/-- A monitor keeps its promise exactly if all touched keys that it covers have entries. -/
theorem FakeStore.Sound.covers_monitor (sound : store.Sound) :
    Covers store queueSet path (store.monitor queueSet path).2 ↔ (queueSet ≠ .direct → ∀ key,
      IsFor queueSet path key → store.kv.Exists key → store.kv.history key ≠ []) := by
  have touched := @FakeStore.Sound.touch S P lib store path _ lawful sound
  set after : FakeStore lib P := { store with kv := (store.kv.element path).1 } with after_eq
  have latest (key : List S) : after.latest key = store.latest key :=
    congrArg List.getLast? (history_element lawful)
  have covers (result : Except StoreError (List (KVEntry S P))) :
      Covers store queueSet path result ↔ Covers after queueSet path result := by
    simp only [Covers, latest]
  have exists_ (key : List S) (ne : key ≠ path) : after.kv.Exists key ↔ store.kv.Exists key := by
    unfold FakeBroker.Exists
    rw [after_eq, get?_element lawful, if_neg ne]
  have same (wildcard : queueSet ≠ .direct) : (∀ key, IsFor queueSet path key → after.kv.Exists key →
      after.kv.history key ≠ []) ↔ ∀ key, IsFor queueSet path key → store.kv.Exists key → store.kv.history key ≠ [] := by
    refine forall₂_congr fun key here => ?_
    rw [exists_ key (ne_of_isFor wildcard here), after_eq, history_element lawful]
  rw [monitor_snd, covers]
  cases queueSet with
  | direct =>
    refine ⟨fun _ isDirect => absurd rfl isDirect, fun _ => ?_⟩
    refine ⟨(after.latest path).toList, rfl, Option.toList_nodup _, fun entry => ?_⟩
    simp [IsFor]
  | shallowWildcard =>
    refine (touched.covers_mapM (nodup_childrenOf lawful) fun key => mem_childrenOf lawful).trans ?_
    rw [same (by simp)]
    simp
  | deepWildcard =>
    refine (touched.covers_mapM (nodup_descendantsOf lawful) fun key => mem_descendantsOf lawful).trans ?_
    rw [same (by simp)]
    simp

/-! ## Runs -/

omit [DecidableEq S] in
theorem sound_fakeStore : ({} : FakeStore lib P).Sound := by
  have none (key : List S) : ({} : FakeBroker lib (KVEntry S P)).history key = [] := by
    rw [FakeBroker.history, lawful.get?_empty]
  refine ⟨sound_empty lawful, fun key => ?_, fun key => ?_, fun key => ?_⟩
  · rw [none]
    simp
  · rw [none]
    simp
  · rw [none]
    exact .nil

/-- What a call that fits leaves. -/
theorem FakeStore.Sound.step (sound : store.Sound) {call : StoreCall S P} (fits : Fits store call)
    (taken : store.step call = some store') : store'.Sound := by
  cases call with
  | create key payload ttl =>
    cases taken
    cases created : store.create key payload ttl with
    | error => exact sound
    | ok written =>
      obtain ⟨r, first, updated⟩ := exists_of_create created
      have update := @FakeStore.Sound.doUpdate S P lib store key (some payload) (some ttl) _ lawful (some r) sound
        (by simp) (fun r' same => Option.some.inj same ▸ first)
      exact update.2.2 written.1 written.2 updated
  | update key payload required =>
    cases taken
    cases updated : store.update key payload required with
    | error => exact sound
    | ok written =>
      have update := @FakeStore.Sound.doUpdate S P lib store key (some payload) none _ lawful required sound
        (by rintro rfl; exact fits) (by rintro r rfl; exact fits)
      exact update.2.2 written.1 written.2 updated
  | delete key required =>
    cases taken
    cases deleted : store.delete key required with
    | error => exact sound
    | ok after =>
      refine sound.delete lawful (fun live none => ?_) deleted
      subst none
      rw [show store.definedNotDeleted key = false from fits] at live
      cases live
  | monitor queueSet path =>
    cases taken
    unfold FakeStore.monitor
    dsimp only
    split
    next =>
      exact (sound.touch lawful).transfer ((sound.kv.element lawful).subscribe lawful)
        fun key => history_subscribe lawful
    next => exact sound.touch lawful
  | close i =>
    cases taken
    exact sound.transfer (sound.kv.discard lawful) fun key => history_discard lawful
  | expire key =>
    obtain ⟨result, expired, rfl⟩ := Option.map_eq_some_iff.1 taken
    obtain ⟨revision, -, rfl⟩ := Option.map_eq_some_iff.1 expired
    have same : FakeStore.Sound { store with expirers := store.expirers.erase key } :=
      sound.transfer sound.kv fun _ => rfl
    cases deleted : FakeStore.delete { store with expirers := store.expirers.erase key } key (some revision) with
    | error => exact same
    | ok after => exact same.delete lawful (fun _ => by simp) deleted

theorem sound_of_fitting (run : Reaches FakeStore.step Fits {} store) : store.Sound :=
  run.invariant (sound_fakeStore lawful) fun _ _ _ sound fits taken => sound.step lawful fits taken

/-- Writing to a defined key without a revision starts again at 1. -/
theorem FakeStore.Sound.unconditional_rises (sound : store.Sound)
    (rises : Rises store key (store.doUpdate key payload none ttl)) : store.kv.history key = [] := by
  obtain ⟨store', written, -⟩ := @exists_write S P lib store key payload (0 + 1) ttl _ lawful sound.kv
  have bigger := (rises store' _ written).2
  refine List.eq_nil_iff_forall_not_mem.2 fun earlier mem => ?_
  have less := bigger earlier mem
  have positive := sound.positive key earlier mem
  dsimp only at less
  omega

/-- **The contract of the store.** In every run whose calls so far have all fitted, the next call keeps its promise exactly if
it fits. -/
theorem keeps_iff_fits (run : Reaches FakeStore.step Fits {} store) (call : StoreCall S P) :
    Keeps store call ↔ Fits store call := by
  have sound := sound_of_fitting lawful run
  cases call with
  | create key payload ttl =>
    refine iff_of_true (fun store' entry created => ?_) trivial
    obtain ⟨r, first, updated⟩ := exists_of_create created
    have update := @FakeStore.Sound.doUpdate S P lib store key (some payload) (some ttl) _ lawful (some r) sound
      (by simp) (fun r' same => Option.some.inj same ▸ first)
    exact update.1 store' entry updated
  | update key payload required =>
    constructor
    · rintro ⟨rises, guards⟩
      cases required with
      | none => exact sound.unconditional_rises lawful rises
      | some r =>
        intro none
        obtain ⟨store', written, -⟩ := @exists_write S P lib store key (some payload) (r + 1) Option.none _ lawful sound.kv
        have unguarded := @doUpdate_eq S P lib store key (some payload) Option.none _ (some r) (by
          intro _ latest _ here
          rw [latest_eq_none.2 none] at here
          cases here)
        rcases (guards r rfl).1 ⟨_, unguarded.trans written⟩ with ⟨-, zero⟩ | ⟨entry, last, -⟩
        · exact zero
        · rw [none] at last
          cases last
    · intro fits
      have update := @FakeStore.Sound.doUpdate S P lib store key (some payload) none _ lawful required sound
        (by rintro rfl; exact fits) (by rintro r rfl; exact fits)
      exact ⟨update.1, update.2.1⟩
  | delete key required =>
    constructor
    · intro keeps
      cases required with
      | none =>
        refine Bool.eq_false_iff.2 fun live => ?_
        exact ne_nil_of_definedNotDeleted live (sound.unconditional_rises lawful (keeps live).1)
      | some r => trivial
    · intro fits live
      have update := @FakeStore.Sound.deleteLive S P lib store key _ lawful required sound live (by
        rintro rfl
        rw [show store.definedNotDeleted key = false from fits] at live
        cases live)
      exact ⟨update.1, update.2.1⟩
  | monitor queueSet path => exact sound.covers_monitor lawful
  | close i => exact iff_of_true trivial trivial
  | expire key =>
    refine iff_of_true (fun required _ live => ?_) trivial
    have update := @FakeStore.Sound.deleteLive S P lib store key _ lawful (some required) sound live (by simp)
    exact ⟨update.1, update.2.1⟩

end Contract

/-- An update without a revision gives the entry the revision of the one before. -/
theorem revision_repeats : ¬ ∀ (store : FakeStore (PrefixMaps.dictionary : PrefixMaps String) ℕ) (call : StoreCall String ℕ),
    Reaches FakeStore.step always {} store → Keeps store call := by
  intro law
  have created : ((({} : FakeStore (PrefixMaps.dictionary : PrefixMaps String) ℕ).step (.create ["key"] 0 none)).map
      fun store => (store.kv.history ["key"], (store.update ["key"] 1 none).toOption.map (·.2.revision))) =
      some ([⟨["key"], some 0, 1⟩], some 1) := by decide +kernel
  obtain ⟨store, taken, results⟩ := Option.map_eq_some_iff.1 created
  obtain ⟨history, updated⟩ := Prod.mk.inj results
  obtain ⟨⟨store', entry⟩, done, repeated⟩ := Option.map_eq_some_iff.1 updated
  have rises := (law store (.update ["key"] 1 none) (.tail (.refl _) trivial taken)).1
  have bigger := (rises store' entry (toOption_eq_some.1 done)).2
  rw [history] at bigger
  have less := bigger _ List.mem_cons_self
  dsimp only at repeated less
  omega

theorem keeps_iff_fits_example : ∃ store : FakeStore (PrefixMaps.dictionary : PrefixMaps String) ℕ,
    store.kv.history ["key"] = [⟨["key"], some 0, 1⟩] ∧ Keeps store (.update ["key"] 1 (some 1)) := by
  have created : ((({} : FakeStore (PrefixMaps.dictionary : PrefixMaps String) ℕ).step (.create ["key"] 0 none)).map
      fun store => store.kv.history ["key"]) = some [⟨["key"], some 0, 1⟩] := by decide +kernel
  obtain ⟨store, taken, history⟩ := Option.map_eq_some_iff.1 created
  have fits : Fits ({} : FakeStore (PrefixMaps.dictionary : PrefixMaps String) ℕ) (.create ["key"] 0 none) := trivial
  refine ⟨store, history, (keeps_iff_fits lawful_dictionary (.tail (.refl _) fits taken) _).2 fun empty => ?_⟩
  rw [history] at empty
  cases empty

end SensorKit.Backend
