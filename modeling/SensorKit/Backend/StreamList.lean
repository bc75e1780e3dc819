import SensorKit.Backend.FakeStoreSound
import SensorKit.Backend.Subjects

/-!
# Listing streams

Over NATS, an entity's streams are listed as the subjects that the server reports under its filter; in memory, as the keys
below its path. The server's report is an assumption: it names the subjects that match the filter, or may leave the mapping
out where there are none.
-/

namespace SensorKit.Backend

open Lib

/-! ## Over NATS -/

/-- The tokens match those of a filter: `*` stands for one token, and `>` at the end for one or more. -/
def tokensMatch : List String → List String → Bool
  | [], [] => true
  | [">"], _ :: _ => true
  | "*" :: filter, _ :: tokens => tokensMatch filter tokens
  | name :: filter, token :: tokens => name = token && tokensMatch filter tokens
  | _, _ => false

/-- What the server reports of the subjects that messages are stored under, for a filter. -/
structure NatsServer where
  subjects : List String → String → Option (List String)

structure NatsServer.Lawful (server : NatsServer) : Prop where
  mem_subjects : ∀ stored filter keys key, server.subjects stored filter = some keys →
    (key ∈ keys ↔ key ∈ stored ∧ tokensMatch (splitDots filter) (splitDots key) = true)
  reported : ∀ stored filter, (∃ key ∈ stored, tokensMatch (splitDots filter) (splitDots key) = true) →
    server.subjects stored filter ≠ none

/-- The filter under which an entity's properties are looked up. -/
def Entity.filter (entity : Entity) : String :=
  subjectToNats .str (entity.subject SpecialProperty.allProperties)

/-- `NATSBackendImpl.stream_list`. -/
def streamListNats (server : NatsServer) (published : List Subject) (entity : Entity) : Option (List Subject) :=
  (server.subjects (published.map (subjectToNats .str)) entity.filter).map fun keys => keys.map entity.subject

/-! ## In memory -/

/-- The streams that have been published, and the in-memory backend after the same calls. -/
structure Streams (lib : PrefixMaps String) (V : Type) where
  published : List Subject := []
  /-- The keys at which consumers have subscribed. -/
  consumed : List (List String) := []
  broker : FakeBroker lib V := {}

inductive StreamCall (V : Type)
  | publish (target : Subject) (payload : V)
  | consume (target : Subject)
deriving DecidableEq, Repr

/-- Where `stream_consume` subscribes. -/
def Subject.subscription (target : Subject) : QueueSet × List String :=
  if target.prop = SpecialProperty.allProperties then (.shallowWildcard, target.path)
  else if target.prop = SpecialProperty.allDescendants then (.deepWildcard, target.path)
  else (.direct, target.fullPath)

namespace Streams

variable {lib : PrefixMaps String} {V : Type}

def step (streams : Streams lib V) : StreamCall V → Option (Streams lib V)
  | .publish target payload => (streams.broker.publish target.fullPath payload).map fun broker =>
    { streams with broker, published := streams.published ++ [target] }
  | .consume target =>
    let (queueSet, key) := target.subscription
    some { streams with broker := streams.broker.subscribe queueSet key, consumed := streams.consumed ++ [key] }

/-- `FakeBackendImpl.stream_list`. -/
def streamListFake (streams : Streams lib V) (entity : Entity) : List Subject :=
  (streams.broker.descendantsOf entity.path).map fun path => ⟨path.dropLast, path.getLastD ""⟩

/-- The streams' NATS subjects differ and are read back, and both backends list exactly the entity's own properties. -/
structure Lossless (server : NatsServer) (streams : Streams lib V) (entity : Entity) : Prop where
  differ : ∀ s ∈ streams.published, ∀ t ∈ streams.published, s ≠ t → ∀ method,
    subjectToNats method s ≠ subjectToNats method t ∧ subjectFromNats method (subjectToNats method s) = .ok s ∧
      subjectFromNats method (subjectToNats method t) = .ok t
  listed : ∃ subjects, streamListNats server streams.published entity = some subjects ∧
    ∀ s, s ∈ subjects ↔ s ∈ streams.published ∧ s.path = entity.path
  inMemory : ∀ s, s ∈ streams.streamListFake entity ↔ s ∈ streams.published ∧ s.path = entity.path

/-- The key is below the entity. -/
def Below (entity : Entity) (key : List String) : Prop :=
  entity.path <+: key ∧ entity.path ≠ key

/-- Nothing has been published that matches the entity's filter, nothing published or consumed below the entity, and the
server reports that there is nothing. -/
structure NothingListed (server : NatsServer) (streams : Streams lib V) (entity : Entity) : Prop where
  unmatched : ∀ s ∈ streams.published, tokensMatch (splitDots entity.filter) (splitDots (subjectToNats .str s)) = false
  unpublished : ∀ s ∈ streams.published, ¬ Below entity s.fullPath
  unconsumed : ∀ key ∈ streams.consumed, ¬ Below entity key
  reported : server.subjects (streams.published.map (subjectToNats .str)) entity.filter ≠ none

/-! ## The keys of the in-memory backend -/

section Keys

variable (lawful : lib.Lawful) {streams streams' : Streams lib V} {broker broker' : FakeBroker lib V} {entity : Entity}
  {key other : List String} {value : V} {queueSet : QueueSet}

include lawful

theorem exists_publish (sound : broker.Sound) (published : broker.publish key value = some broker') :
    broker'.Exists other ↔ other = key ∨ broker.Exists other := by
  obtain ⟨_, again, -, trie⟩ := @publish_eq String V lib broker lawful key value _ sound
  cases published.symm.trans again
  unfold FakeBroker.Exists
  rw [trie other]
  by_cases same : other = key <;> simp [same]

theorem exists_subscribe : (broker.subscribe queueSet key).Exists other ↔ other = key ∨ broker.Exists other := by
  unfold FakeBroker.Exists FakeBroker.subscribe
  dsimp only
  rw [get?_setElement lawful, get?_element lawful]
  by_cases same : other = key <;> simp [same]

/-- The backend has the keys that have been published or consumed, and no other. -/
structure Kept (streams : Streams lib V) : Prop where
  sound : streams.broker.Sound
  exists_iff : ∀ key, streams.broker.Exists key ↔
    (∃ s ∈ streams.published, s.fullPath = key) ∨ key ∈ streams.consumed

theorem kept_of_reaches (run : Reaches step always ({} : Streams lib V) streams) : Kept streams := by
  refine run.invariant ⟨sound_empty lawful, fun key => ?_⟩ fun streams call streams' kept _ taken => ?_
  · unfold FakeBroker.Exists
    rw [lawful.get?_empty]
    simp
  cases call with
  | publish target payload =>
    obtain ⟨broker, published, rfl⟩ := Option.map_eq_some_iff.1 taken
    refine ⟨kept.sound.publish lawful published, fun key => ?_⟩
    rw [exists_publish lawful kept.sound published, kept.exists_iff key]
    simp only [List.mem_append, List.mem_singleton, or_and_right, exists_or, exists_eq_left]
    rw [eq_comm, or_assoc, or_left_comm]
  | consume target =>
    cases taken
    refine ⟨kept.sound.subscribe lawful, fun key => ?_⟩
    rw [exists_subscribe lawful, kept.exists_iff key, List.mem_append, List.mem_singleton, or_comm, or_assoc]

theorem mem_streamListFake (kept : Kept streams) {s : Subject} : s ∈ streams.streamListFake entity ↔
    ∃ key, ((∃ s ∈ streams.published, s.fullPath = key) ∨ key ∈ streams.consumed) ∧ Below entity key ∧
      (⟨key.dropLast, key.getLastD ""⟩ : Subject) = s := by
  unfold streamListFake FakeBroker.descendantsOf
  simp only [List.mem_map, List.mem_filter, lawful.mem_keysFrom, decide_eq_true_eq]
  refine exists_congr fun key => ?_
  rw [← kept.exists_iff key]
  unfold Below FakeBroker.Exists
  constructor
  · rintro ⟨⟨⟨isPrefix, here⟩, ne⟩, rfl⟩
    exact ⟨here, ⟨isPrefix, Ne.symm ne⟩, rfl⟩
  · rintro ⟨here, ⟨isPrefix, ne⟩, rfl⟩
    exact ⟨⟨⟨isPrefix, here⟩, Ne.symm ne⟩, rfl⟩

/-- The in-memory backend lists nothing just where nothing has been published or consumed below the entity. -/
theorem streamListFake_empty (kept : Kept streams) (entity : Entity) : (∀ s, s ∉ streams.streamListFake entity) ↔
    (∀ s ∈ streams.published, ¬ Below entity s.fullPath) ∧ ∀ key ∈ streams.consumed, ¬ Below entity key := by
  simp only [mem_streamListFake lawful kept]
  constructor
  · intro empty
    constructor
    · exact fun s mem below => empty _ ⟨s.fullPath, .inl ⟨s, mem, rfl⟩, below, rfl⟩
    · exact fun key mem below => empty _ ⟨key, .inr mem, below, rfl⟩
  · rintro ⟨unpublished, unconsumed⟩ s ⟨key, ⟨t, mem, rfl⟩ | mem, below, -⟩
    · exact unpublished t mem below
    · exact unconsumed key mem below

end Keys

/-! ## What the listings come to -/

variable {server : NatsServer} {streams : Streams lib V} {entity : Entity}

/-- A property is never the NATS subject of a stream, unless names hold dots. -/
theorem prop_ne_subject {s t : Subject} (dotless : s ≠ t → s.Plain) : s.prop ≠ subjectToNats .str t := by
  intro same
  have tokens := congrArg splitDots same
  rw [splitDots_subjectToNats] at tokens
  have lengths := congrArg List.length tokens
  rw [List.length_cons, List.length_cons] at lengths
  by_cases again : s = t
  · subst again
    by_cases special : propertyTokens s.prop = [s.prop]
    · rw [special, List.flatMap_append, List.flatMap_singleton, List.length_append] at lengths
      omega
    · -- a special property has one token itself
      have one : (splitDots s.prop).length = 1 := by
        unfold propertyTokens at special
        split at special
        · rename_i spelled
          rw [spelled]
          decide +kernel
        split at special
        · rename_i spelled
          rw [spelled]
          decide +kernel
        split at special
        · rename_i spelled
          rw [spelled]
          decide +kernel
        split at special
        · rename_i spelled
          rw [spelled]
          decide +kernel
        · exact absurd rfl special
      omega
  · rw [splitDots_eq_singleton (dotless again).prop, List.length_singleton] at lengths
    omega

theorem below_fullPath {s : Subject} (own : s.path = entity.path) : Below entity s.fullPath := by
  unfold Below Subject.fullPath
  rw [own]
  exact ⟨List.prefix_append _ _, by simp⟩

/-- Where the listing over NATS is exact, the entity has no published property. -/
theorem Lossless.own (serverLawful : server.Lawful) (lossless : streams.Lossless server entity) :
    ∀ s ∈ streams.published, s.path ≠ entity.path := by
  intro s mem own
  obtain ⟨subjects, listed, exact_⟩ := lossless.listed
  obtain ⟨keys, reports, rfl⟩ := Option.map_eq_some_iff.1 listed
  obtain ⟨key, there, named⟩ := List.mem_map.1 ((exact_ s).2 ⟨mem, own⟩)
  obtain ⟨stored, -⟩ := (serverLawful.mem_subjects _ _ keys key reports).1 there
  obtain ⟨t, there', rfl⟩ := List.mem_map.1 stored
  have dotless : s ≠ t → s.Plain := fun ne => plain_of_reads (lossless.differ s mem t there' ne .str).2.1
  exact prop_ne_subject dotless (congrArg Subject.prop named).symm

section

variable (lawful : lib.Lawful) (serverLawful : server.Lawful) (run : Reaches step always ({} : Streams lib V) streams)
include lawful serverLawful run

theorem Lossless.nothingListed (lossless : streams.Lossless server entity) : streams.NothingListed server entity := by
  have own := lossless.own serverLawful
  have kept := kept_of_reaches lawful run
  obtain ⟨unpublished, unconsumed⟩ := (streamListFake_empty lawful kept entity).1 fun s listed =>
    have both := (lossless.inMemory s).1 listed
    own s both.1 both.2
  obtain ⟨subjects, listed, exact_⟩ := lossless.listed
  obtain ⟨keys, reports, rfl⟩ := Option.map_eq_some_iff.1 listed
  refine ⟨fun s mem => ?_, unpublished, unconsumed, by simp [reports]⟩
  by_contra matched
  rw [Bool.not_eq_false] at matched
  have key := (serverLawful.mem_subjects _ _ keys _ reports).2 ⟨List.mem_map_of_mem mem, matched⟩
  obtain ⟨there, same⟩ := (exact_ _).1 (List.mem_map_of_mem key)
  exact own _ there same

theorem lossless_of_nothingListed
    (plain : ∀ s ∈ streams.published, ∀ t ∈ streams.published, s ≠ t → s.Plain ∧ t.Plain)
    (nothing : streams.NothingListed server entity) : streams.Lossless server entity where
  differ s mem t there ne method := by
    obtain ⟨plain, plain'⟩ := plain s mem t there ne
    refine ⟨fun same => ne ?_, plain.reads method, plain'.reads method⟩
    have reads := plain.reads method
    rw [same, plain'.reads method] at reads
    exact (Except.ok.inj reads).symm
  listed := by
    obtain ⟨keys, reports⟩ := Option.ne_none_iff_exists'.1 nothing.reported
    refine ⟨keys.map entity.subject, by rw [streamListNats, reports, Option.map_some], fun s => ⟨fun listed => ?_, fun own => ?_⟩⟩
    · obtain ⟨key, there, -⟩ := List.mem_map.1 listed
      obtain ⟨stored, matched⟩ := (serverLawful.mem_subjects _ _ keys key reports).1 there
      obtain ⟨t, published, rfl⟩ := List.mem_map.1 stored
      rw [nothing.unmatched t published] at matched
      cases matched
    · exact absurd (below_fullPath own.2) (nothing.unpublished s own.1)
  inMemory s := by
    have empty := (streamListFake_empty lawful (kept_of_reaches lawful run) entity).2
      ⟨nothing.unpublished, nothing.unconsumed⟩
    exact ⟨fun listed => absurd listed (empty s), fun own => absurd (below_fullPath own.2) (nothing.unpublished s own.1)⟩

end

/-- **Addressing.** It loses nothing just where any two of the streams are named without dots and without the spelling of
another property's token, and there is nothing to list. -/
theorem lossless_iff (lawful : lib.Lawful) (serverLawful : server.Lawful)
    (run : Reaches step always ({} : Streams lib V) streams) : streams.Lossless server entity ↔
      (∀ s ∈ streams.published, ∀ t ∈ streams.published, s ≠ t → s.Plain ∧ t.Plain) ∧
        streams.NothingListed server entity := by
  constructor
  · intro lossless
    refine ⟨fun s mem t there ne => ?_, lossless.nothingListed lawful serverLawful run⟩
    obtain ⟨-, reads, reads'⟩ := lossless.differ s mem t there ne .str
    exact ⟨plain_of_reads reads, plain_of_reads reads'⟩
  · rintro ⟨plain, nothing⟩
    exact lossless_of_nothingListed lawful serverLawful run plain nothing

/-- The server that reports the stored subjects that match. -/
def matchingServer : NatsServer where
  subjects stored filter := some (stored.filter fun key => tokensMatch (splitDots filter) (splitDots key))

theorem lawful_matchingServer : matchingServer.Lawful where
  mem_subjects stored filter keys key reports := by
    cases reports
    exact List.mem_filter
  reported stored filter _ := Option.some_ne_none _

/-- A camera's frames are published. -/
def framesPublished : Streams (PrefixMaps.dictionary : PrefixMaps String) ℕ where
  published := [⟨["camera"], "frames"⟩]
  broker := (({} : FakeBroker (PrefixMaps.dictionary : PrefixMaps String) ℕ).publish ["camera", "frames"] 0).getD {}

theorem reaches_framesPublished : Reaches step always
    ({} : Streams (PrefixMaps.dictionary : PrefixMaps String) ℕ) framesPublished :=
  .tail (.refl _) trivial (show step {} (.publish ⟨["camera"], "frames"⟩ 0) = some framesPublished from rfl)

theorem lossless_iff_example : framesPublished.Lossless matchingServer ⟨["mount"]⟩ :=
  (lossless_iff lawful_dictionary lawful_matchingServer reaches_framesPublished).2
    ⟨by decide +kernel, by decide +kernel, by simp [framesPublished, Below, Subject.fullPath],
      by simp [framesPublished], Option.some_ne_none _⟩

/-- The camera's own listing names the full NATS subject, and entities whose names hold dots share their subjects. -/
theorem frames_listed_by_wire :
    streamListNats matchingServer framesPublished.published ⟨["camera"]⟩ =
        some [⟨["camera"], "sensorkit.stream.camera.frames"⟩] ∧
      ¬ framesPublished.Lossless matchingServer ⟨["camera"]⟩ ∧
      subjectToNats .str ⟨["site.camera"], "frames"⟩ = subjectToNats .str ⟨["site", "camera"], "frames"⟩ := by
  refine ⟨by decide +kernel, fun lossless => ?_, by decide +kernel⟩
  exact lossless.own lawful_matchingServer ⟨["camera"], "frames"⟩ (List.mem_singleton_self _) rfl

end Streams

end SensorKit.Backend
