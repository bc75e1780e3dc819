import SensorKit.Backend.Broker

/-!
# What the broker delivers

The members of an element's queue sets are the open subscriptions that were made there. Publishing puts the value into each
of the sets it reaches: the direct one of the key, the deep ones of its prefixes, and the shallow one of the longest prefix
that the trie has.
-/

namespace SensorKit.Backend

open Lib

variable {S V : Type} {lib : PrefixMaps S} {broker : FakeBroker lib V}

namespace FakeBroker

/-- The queues in a set of the element of a key. -/
def members (broker : FakeBroker lib V) (queueSet : QueueSet) (key : List S) : List ℕ :=
  match lib.get? broker.trie key with
  | some elem => elem.queues queueSet
  | none => []

/-- An open subscription was made there. -/
def Subscribed (broker : FakeBroker lib V) (i : ℕ) (queueSet : QueueSet) (key : List S) : Prop :=
  ∃ s, broker.subscriptions[i]? = some s ∧ s.queueSet = queueSet ∧ s.key = key ∧ s.closed = false

structure Sound (broker : FakeBroker lib V) : Prop where
  keys : ∀ key elem, lib.get? broker.trie key = some elem → elem.key = key
  members : ∀ i queueSet key, i ∈ broker.members queueSet key ↔ broker.Subscribed i queueSet key
  nodup : ∀ queueSet key, (broker.members queueSet key).Nodup

end FakeBroker

section Elements

variable (lawful : lib.Lawful) {elem : FakeBrokerElement S V} {key other : List S} {queueSet : QueueSet}

include lawful

theorem members_setElement [DecidableEq S] :
    (broker.setElement key elem).members queueSet other =
      if other = key then elem.queues queueSet else broker.members queueSet other := by
  unfold FakeBroker.members FakeBroker.setElement
  split_ifs with same
  · rw [same, lawful.get?_set_self]
  · rw [lawful.get?_set_of_ne _ _ _ _ same]

theorem get?_setElement [DecidableEq S] : lib.get? (broker.setElement key elem).trie other =
    if other = key then some elem else lib.get? broker.trie other := by
  unfold FakeBroker.setElement
  split_ifs with same
  · rw [same, lawful.get?_set_self]
  · rw [lawful.get?_set_of_ne _ _ _ _ same]

theorem element_eq : lib.get? (broker.element key).1.trie key = some (broker.element key).2 := by
  unfold FakeBroker.element
  split
  next here => exact here
  next => exact lawful.get?_set_self _ _ _

theorem get?_element [DecidableEq S] : lib.get? (broker.element key).1.trie other =
    if other = key then some (broker.element key).2 else lib.get? broker.trie other := by
  split_ifs with same
  · rw [same, element_eq lawful]
  · unfold FakeBroker.element
    split
    next => rfl
    next => exact lawful.get?_set_of_ne _ _ _ _ same

/-- A new element has no queues. -/
theorem members_element : (broker.element key).1.members queueSet other = broker.members queueSet other := by
  classical
  unfold FakeBroker.element
  split
  next => rfl
  next absent =>
    rw [members_setElement lawful]
    split_ifs with same
    · rw [same, FakeBroker.members, absent]
      cases queueSet <;> rfl
    · rfl

theorem queues_element : (broker.element key).2.queues queueSet = broker.members queueSet key := by
  have same : (broker.element key).1.members queueSet key = broker.members queueSet key := members_element lawful
  rw [← same, FakeBroker.members, element_eq lawful]

omit lawful in
theorem subscriptions_element : (broker.element key).1.subscriptions = broker.subscriptions := by
  unfold FakeBroker.element
  split <;> rfl

omit lawful in
theorem FakeBroker.Sound.key_element (sound : broker.Sound) : (broker.element key).2.key = key := by
  unfold FakeBroker.element
  split
  next elem here => exact sound.keys key elem here
  next => rfl

omit lawful in
theorem key_update {change : List ℕ → List ℕ} : (elem.update change queueSet).key = elem.key := by
  cases queueSet <;> rfl

omit lawful in
theorem queues_update {change : List ℕ → List ℕ} {queueSet' : QueueSet} : (elem.update change queueSet).queues queueSet' =
    if queueSet' = queueSet then change (elem.queues queueSet') else elem.queues queueSet' := by
  cases queueSet <;> cases queueSet' <;> rfl

/-- The members of a set after its change. -/
theorem members_update [DecidableEq S] {change : List ℕ → List ℕ} {queueSet' : QueueSet} :
    ((broker.element key).1.setElement key ((broker.element key).2.update change queueSet)).members queueSet' other =
      if queueSet' = queueSet ∧ other = key then change (broker.members queueSet' other)
      else broker.members queueSet' other := by
  rw [members_setElement lawful, members_element lawful, queues_update, queues_element lawful]
  by_cases here : other = key
  · subst here
    by_cases same : queueSet' = queueSet <;> simp [same]
  · simp [here]

/-- The keys stay with their elements. -/
theorem FakeBroker.Sound.keys_update [DecidableEq S] (sound : broker.Sound) {elem' : FakeBrokerElement S V}
    (named : elem'.key = (broker.element key).2.key) : ∀ other elem,
      lib.get? ((broker.element key).1.setElement key elem').trie other = some elem → elem.key = other := by
  intro other elem here
  rw [get?_setElement lawful, get?_element lawful] at here
  split_ifs at here with same
  · rw [← Option.some.inj here, named, sound.key_element, same]
  · exact sound.keys other elem here

end Elements

/-! ## Subscribing -/

section Sound

variable (lawful : lib.Lawful) {key : List S} {queueSet : QueueSet} {i : ℕ}

include lawful

theorem sound_empty : ({} : FakeBroker lib V).Sound := by
  constructor
  · intro key elem here
    rw [show lib.get? lib.empty key = none from lawful.get?_empty key] at here
    cases here
  · intro i queueSet key
    rw [FakeBroker.members, lawful.get?_empty]
    constructor
    · intro mem
      cases mem
    · rintro ⟨s, found, -⟩
      cases found
  · intro queueSet key
    rw [FakeBroker.members, lawful.get?_empty]
    exact .nil

variable [DecidableEq S]

theorem FakeBroker.Sound.element (sound : broker.Sound) : (broker.element key).1.Sound := by
  constructor
  · intro other elem here
    rw [get?_element lawful] at here
    split_ifs at here with same
    · rw [← Option.some.inj here, sound.key_element, same]
    · exact sound.keys other elem here
  · intro i queueSet other
    rw [members_element lawful, sound.members]
    unfold FakeBroker.Subscribed
    rw [subscriptions_element]
  · intro queueSet other
    rw [members_element lawful]
    exact sound.nodup queueSet other

theorem FakeBroker.Sound.subscribe (sound : broker.Sound) : (broker.subscribe queueSet key).Sound := by
  have length_fresh (q : QueueSet) (k : List S) : broker.subscriptions.length ∉ broker.members q k := by
    intro mem
    obtain ⟨s, found, -⟩ := (sound.members _ q k).1 mem
    exact absurd (lt_of_found found) (lt_irrefl _)
  have members (q : QueueSet) (k : List S) : (broker.subscribe queueSet key).members q k =
      if q = queueSet ∧ k = key then broker.members q k ++ [broker.subscriptions.length] else broker.members q k := by
    have update := @members_update S V lib broker lawful key k queueSet _
      (· ++ [(broker.element key).1.subscriptions.length]) q
    refine Eq.trans update ?_
    rw [subscriptions_element]
  have subscriptions : (broker.subscribe queueSet key).subscriptions =
      broker.subscriptions ++ [⟨queueSet, key, [], false⟩] := by
    show (broker.element key).1.subscriptions ++ _ = _
    rw [subscriptions_element]
  constructor
  · exact sound.keys_update lawful key_update
  · intro i q k
    rw [members]
    unfold FakeBroker.Subscribed
    rw [subscriptions]
    constructor
    · intro mem
      split_ifs at mem with here
      · rcases mem_snoc.1 mem with mem | mem
        · obtain ⟨s, found, place⟩ := (sound.members i q k).1 mem
          exact ⟨s, found_snoc_of_found found, place⟩
        · rw [mem]
          exact ⟨_, List.getElem?_concat_length, here.1.symm, here.2.symm, rfl⟩
      · obtain ⟨s, found, place⟩ := (sound.members i q k).1 mem
        exact ⟨s, found_snoc_of_found found, place⟩
    · rintro ⟨s, found, rfl, rfl, isOpen⟩
      rcases found_snoc found with found | ⟨rfl, rfl⟩
      · have mem := (sound.members i _ _).2 ⟨s, found, rfl, rfl, isOpen⟩
        split_ifs
        · exact List.mem_append_left _ mem
        · exact mem
      · simp
  · intro q k
    rw [members]
    split_ifs
    · exact (sound.nodup q k).append (List.nodup_singleton _) (by simpa using length_fresh q k)
    · exact sound.nodup q k

theorem FakeBroker.Sound.discard (sound : broker.Sound) : (broker.discard i).Sound := by
  cases found : broker.subscriptions[i]? with
  | none =>
    have same : broker.discard i = broker := by rw [FakeBroker.discard, found]
    rw [same]
    exact sound
  | some s =>
    have members (q : QueueSet) (k : List S) : (broker.discard i).members q k =
        if q = s.queueSet ∧ k = s.key then (broker.members q k).filter (· ≠ i) else broker.members q k := by
      rw [FakeBroker.discard, found]
      exact members_update lawful
    have subscriptions : (broker.discard i).subscriptions = broker.subscriptions.set i { s with closed := true } := by
      rw [FakeBroker.discard, found]
      show (broker.element s.key).1.subscriptions.set i _ = _
      rw [subscriptions_element]
    have subscribed (j : ℕ) (q : QueueSet) (k : List S) :
        (broker.discard i).Subscribed j q k ↔ j ≠ i ∧ broker.Subscribed j q k := by
      unfold FakeBroker.Subscribed
      rw [subscriptions]
      constructor
      · rintro ⟨s', found', place⟩
        rcases found_set found' with ⟨-, rfl⟩ | ⟨ne, found'⟩
        · cases place.2.2
        · exact ⟨ne, s', found', place⟩
      · rintro ⟨ne, s', found', place⟩
        exact ⟨s', found_set_of_ne found' ne, place⟩
    constructor
    · rw [FakeBroker.discard, found]
      exact sound.keys_update lawful key_update
    · intro j q k
      rw [members, subscribed, ← sound.members]
      split_ifs with here
      · rw [List.mem_filter, decide_eq_true_eq, and_comm]
      · refine ⟨fun mem => ⟨?_, mem⟩, And.right⟩
        rintro rfl
        obtain ⟨s', found', rfl, rfl, -⟩ := (sound.members j q k).1 mem
        rw [found] at found'
        cases found'
        exact here ⟨rfl, rfl⟩
    · intro q k
      rw [members]
      split_ifs
      · exact (sound.nodup q k).filter _
      · exact sound.nodup q k

end Sound

/-! ## Putting -/

section Put

variable {data : List S × V} {queues : List ℕ} {i : ℕ}

theorem trie_put : (broker.put data queues).trie = broker.trie := rfl

theorem subscriptions_put (nodup : queues.Nodup) : (broker.put data queues).subscriptions[i]? =
    broker.subscriptions[i]?.map fun s => if i ∈ queues then s.put data else s := by
  unfold FakeBroker.put
  show (queues.foldl _ broker.subscriptions)[i]? = _
  generalize broker.subscriptions = all
  induction queues generalizing all with
  | nil => simp
  | cons first rest ih =>
    obtain ⟨fresh, nodup⟩ := List.nodup_cons.1 nodup
    rw [List.foldl_cons, ih nodup, List.getElem?_modify]
    by_cases here : first = i
    · subst here
      simp [fresh, Function.comp_def]
    · simp [here, Ne.symm here]

/-- Put a value into queue sets, one after the other. -/
def FakeBroker.deliver (base broker : FakeBroker lib V) (value : V) (routes : List (QueueSet × List S)) :
    FakeBroker lib V :=
  routes.foldl (fun broker route => broker.put (route.2, value) (base.members route.1 route.2)) broker

theorem trie_deliver {base : FakeBroker lib V} {value : V} {routes : List (QueueSet × List S)} :
    (base.deliver broker value routes).trie = broker.trie := by
  induction routes generalizing broker with
  | nil => rfl
  | cons route routes ih => exact ih

/-- Each open subscription gets the value once where its set is among those reached. -/
theorem FakeBroker.Sound.deliver [DecidableEq S] {base : FakeBroker lib V} (sound : base.Sound) {value : V}
    {routes : List (QueueSet × List S)} (nodup : routes.Nodup) (same : broker.subscriptions = base.subscriptions) :
    (base.deliver broker value routes).subscriptions[i]? = base.subscriptions[i]?.map fun s =>
      if s.closed = false ∧ (s.queueSet, s.key) ∈ routes then s.put (s.key, value) else s := by
  induction routes using List.reverseRecOn with
  | nil => simp [FakeBroker.deliver, same]
  | append_singleton routes route ih =>
    obtain ⟨nodup, -, apart⟩ := List.nodup_append.1 nodup
    have fresh : route ∉ routes := fun mem => apart route mem route List.mem_cons_self rfl
    have snoc : base.deliver broker value (routes ++ [route]) =
        (base.deliver broker value routes).put (route.2, value) (base.members route.1 route.2) := by
      unfold FakeBroker.deliver
      rw [List.foldl_append, List.foldl_cons, List.foldl_nil]
    rw [snoc, subscriptions_put (sound.nodup _ _), ih nodup, Option.map_map]
    cases found : base.subscriptions[i]? with
    | none => rfl
    | some s =>
      have member : i ∈ base.members route.1 route.2 ↔ s.closed = false ∧ (s.queueSet, s.key) = route := by
        rw [sound.members]
        constructor
        · rintro ⟨s', found', named, placed, isOpen⟩
          rw [found] at found'
          cases found'
          exact ⟨isOpen, Prod.ext named placed⟩
        · rintro ⟨isOpen, here⟩
          exact ⟨s, found, congrArg Prod.fst here, congrArg Prod.snd here, isOpen⟩
      rw [Option.map_some, Option.map_some, Function.comp_apply]
      congr 1
      by_cases here : (s.queueSet, s.key) = route
      · subst here
        by_cases isOpen : s.closed = false <;> simp [member, fresh, isOpen]
      · simp [member, here]

end Put

/-! ## Publishing -/

section Publish

variable (lawful : lib.Lawful) {key k : List S} {value : V} {base : FakeBroker lib V} {i : ℕ}

/-- The elements at the proper prefixes of a key, from the shortest. -/
def FakeBroker.above (broker : FakeBroker lib V) (key : List S) : List (FakeBrokerElement S V) :=
  (properInits key).filterMap (lib.get? broker.trie)

/-- The queue sets that propagating to elements reaches. -/
def wildcardRoutes (ancestors : List (FakeBrokerElement S V)) : List (QueueSet × List S) :=
  (ancestors.getLast?.toList.flatMap fun parent => [(.shallowWildcard, parent.key), (.deepWildcard, parent.key)]) ++
    ancestors.dropLast.reverse.map fun ancestor => (.deepWildcard, ancestor.key)

/-- The queue sets that publishing to a key reaches. -/
def FakeBroker.routes (broker : FakeBroker lib V) (key : List S) : List (QueueSet × List S) :=
  (.direct, key) :: wildcardRoutes (broker.above key)

theorem FakeBroker.Sound.of_mem_above (sound : broker.Sound) {elem : FakeBrokerElement S V}
    (mem : elem ∈ broker.above key) : lib.get? broker.trie elem.key = some elem ∧ elem.key ∈ properInits key := by
  obtain ⟨p, within, here⟩ := List.mem_filterMap.1 mem
  rw [sound.keys p elem here]
  exact ⟨here, within⟩

/-- An element's wildcard queues are those of two sets. -/
theorem descendantSet_eq {elem : FakeBrokerElement S V} (here : lib.get? base.trie elem.key = some elem)
    {immediate : Bool} : broker.descendantSet elem value immediate = base.deliver broker value
      ((if immediate then [(.shallowWildcard, elem.key)] else []) ++ [(.deepWildcard, elem.key)]) := by
  have members (q : QueueSet) : base.members q elem.key = elem.queues q := by rw [FakeBroker.members, here]
  cases immediate with
  | true => simp [FakeBroker.deliver, FakeBroker.descendantSet, members, FakeBrokerElement.queues]
  | false => simp [FakeBroker.deliver, FakeBroker.descendantSet, members, FakeBrokerElement.queues]

theorem deliver_append {routes routes' : List (QueueSet × List S)} :
    base.deliver broker value (routes ++ routes') = base.deliver (base.deliver broker value routes) value routes' :=
  List.foldl_append

theorem foldl_descendantSet {elems : List (FakeBrokerElement S V)}
    (here : ∀ elem ∈ elems, lib.get? base.trie elem.key = some elem) :
    elems.foldl (fun broker ancestor => broker.descendantSet ancestor value false) broker =
      base.deliver broker value (elems.map fun elem => (.deepWildcard, elem.key)) := by
  induction elems generalizing broker with
  | nil => rfl
  | cons elem elems ih =>
    rw [List.foldl_cons, descendantSet_eq (here elem List.mem_cons_self),
      ih fun other mem => here other (List.mem_cons_of_mem _ mem), List.map_cons, ← List.singleton_append, deliver_append]
    rfl

theorem propagate_eq {ancestors : List (FakeBrokerElement S V)}
    (here : ∀ elem ∈ ancestors, lib.get? base.trie elem.key = some elem) :
    broker.propagate ancestors value = base.deliver broker value (wildcardRoutes ancestors) := by
  unfold FakeBroker.propagate wildcardRoutes
  have others (elem : FakeBrokerElement S V) (mem : elem ∈ ancestors.dropLast.reverse) :
      lib.get? base.trie elem.key = some elem :=
    here elem (List.mem_of_mem_dropLast (List.mem_reverse.1 mem))
  rw [foldl_descendantSet others, deliver_append]
  congr 1
  cases last : ancestors.getLast? with
  | none => rfl
  | some parent => exact descendantSet_eq (here parent (List.mem_of_getLast? last))

/-- Delivering depends on the queues only. -/
theorem subscriptions_deliver {broker' : FakeBroker lib V} {routes : List (QueueSet × List S)}
    (same : broker.subscriptions = broker'.subscriptions) :
    (base.deliver broker value routes).subscriptions = (base.deliver broker' value routes).subscriptions := by
  induction routes generalizing broker broker' with
  | nil => exact same
  | cons route routes ih =>
    apply ih
    unfold FakeBroker.put
    dsimp only
    rw [same]

include lawful

/-- What publishing does: the value joins the history of its key and is put into the sets it reaches. -/
theorem publish_eq [DecidableEq S] (sound : broker.Sound) : ∃ broker', broker.publish key value = some broker' ∧
    broker'.subscriptions = (broker.deliver (broker.element key).1 value (broker.routes key)).subscriptions ∧
    ∀ other, lib.get? broker'.trie other = if other = key then
      some { (broker.element key).2 with history := (broker.element key).2.history ++ [value] }
      else lib.get? broker.trie other := by
  set elem := (broker.element key).2 with elem_eq
  have named : elem.key = key := sound.key_element
  have direct : elem.direct = broker.members .direct key := by
    rw [← queues_element lawful]
    rfl
  set updated := (broker.element key).1.directSet elem value with updated_eq
  have trie (other : List S) : lib.get? updated.trie other = if other = key then
      some { elem with history := elem.history ++ [value] } else lib.get? broker.trie other := by
    rw [updated_eq, FakeBroker.directSet, trie_put, named, get?_setElement lawful, get?_element lawful]
    split_ifs <;> rfl
  have prefixes : lib.prefixes updated.trie key =
      broker.above key ++ [{ elem with history := elem.history ++ [value] }] := by
    rw [lawful.prefixes, inits_eq, List.filterMap_append]
    congr 1
    · refine List.filterMap_congr fun p mem => ?_
      rw [trie, if_neg (mem_properInits.1 mem).2]
    · rw [List.filterMap_cons_some (by rw [trie, if_pos rfl]), List.filterMap_nil]
  have first : updated.subscriptions =
      (broker.deliver (broker.element key).1 value [(.direct, key)]).subscriptions := by
    rw [updated_eq, FakeBroker.directSet, direct, named]
    rfl
  have propagated : updated.propagate (broker.above key) value =
      broker.deliver updated value (wildcardRoutes (broker.above key)) :=
    propagate_eq fun other mem => (sound.of_mem_above mem).1
  refine ⟨updated.propagate (broker.above key) value, ?_, ?_, fun other => ?_⟩
  · unfold FakeBroker.publish
    show ((lib.prefixes updated.trie key).getLast?.bind fun last => (guard (last.key = elem.key) : Option Unit).bind fun _ =>
      some (updated.propagate (lib.prefixes updated.trie key).dropLast value)) = _
    rw [prefixes, List.getLast?_concat, List.dropLast_concat]
    have passed : (guard (elem.key = elem.key) : Option Unit) = some () := if_pos rfl
    show (guard (elem.key = elem.key) : Option Unit).bind _ = _
    rw [passed]
    rfl
  · rw [propagated, subscriptions_deliver first, ← deliver_append]
    rfl
  · rw [propagated, trie_deliver, trie]

omit lawful

/-- The elements above a key stand in the order of their keys' lengths. -/
theorem FakeBroker.Sound.pairwise_above (sound : broker.Sound) :
    (broker.above key).Pairwise fun upper lower => upper.key.length < lower.key.length := by
  unfold FakeBroker.above
  rw [List.pairwise_filterMap]
  refine pairwise_properInits.imp fun {p p'} less elem here elem' here' => ?_
  rw [sound.keys p elem here, sound.keys p' elem' here']
  exact less

theorem routes_eq : broker.routes key = (.direct, key) ::
    ((broker.above key).getLast?.toList.map (fun parent => (QueueSet.shallowWildcard, parent.key)) ++
      (broker.above key).reverse.map fun ancestor => (QueueSet.deepWildcard, ancestor.key)) := by
  unfold FakeBroker.routes wildcardRoutes
  rcases List.eq_nil_or_concat (broker.above key) with none | ⟨init, parent, above⟩
  · rw [none]
    rfl
  · rw [above]
    simp

theorem FakeBroker.Sound.nodup_routes (sound : broker.Sound) : (broker.routes key).Nodup := by
  rw [routes_eq, List.nodup_cons]
  refine ⟨by simp, ?_⟩
  apply List.Nodup.append
  · cases (broker.above key).getLast? with
    | none => exact .nil
    | some parent => exact List.nodup_singleton _
  · rw [List.map_reverse, List.nodup_reverse, List.nodup_iff_pairwise_ne, List.pairwise_map]
    refine sound.pairwise_above.imp fun {upper lower} less same => ?_
    rw [(Prod.mk.inj same).2] at less
    exact lt_irrefl _ less
  · simp [List.disjoint_left]

/-- The trie has an element for the key. -/
def FakeBroker.Exists (broker : FakeBroker lib V) (key : List S) : Prop :=
  (lib.get? broker.trie key).isSome = true

theorem FakeBroker.Sound.mem_above (sound : broker.Sound) :
    (∃ elem ∈ broker.above key, elem.key = k) ↔ broker.Exists k ∧ k <+: key ∧ k ≠ key := by
  rw [← mem_properInits]
  constructor
  · rintro ⟨elem, mem, rfl⟩
    obtain ⟨here, within⟩ := sound.of_mem_above mem
    exact ⟨Option.isSome_iff_exists.2 ⟨elem, here⟩, within⟩
  · rintro ⟨here, within⟩
    obtain ⟨elem, here⟩ := Option.isSome_iff_exists.1 here
    exact ⟨elem, List.mem_filterMap.2 ⟨k, within, here⟩, sound.keys k elem here⟩

theorem FakeBroker.Sound.exists_of_subscribed (sound : broker.Sound) {queueSet : QueueSet}
    (subscribed : broker.Subscribed i queueSet k) : broker.Exists k := by
  have mem := (sound.members i queueSet k).2 subscribed
  unfold FakeBroker.members at mem
  split at mem
  next elem here => exact Option.isSome_iff_exists.2 ⟨elem, here⟩
  next => cases mem

theorem mem_routes_direct : (QueueSet.direct, k) ∈ broker.routes key ↔ k = key := by
  simp [routes_eq]

theorem mem_routes_deep : (QueueSet.deepWildcard, k) ∈ broker.routes key ↔ ∃ elem ∈ broker.above key, elem.key = k := by
  simp [routes_eq]

/-- The last element above a key is the one with the longest key. -/
theorem FakeBroker.Sound.mem_routes_shallow (sound : broker.Sound) :
    (QueueSet.shallowWildcard, k) ∈ broker.routes key ↔ (broker.Exists k ∧ k <+: key ∧ k ≠ key) ∧
      ∀ p, broker.Exists p → p <+: key → p ≠ key → p.length ≤ k.length := by
  have route : (QueueSet.shallowWildcard, k) ∈ broker.routes key ↔
      ∃ parent, (broker.above key).getLast? = some parent ∧ parent.key = k := by
    simp [routes_eq]
  rw [route]
  constructor
  · rintro ⟨parent, last, rfl⟩
    refine ⟨sound.mem_above.1 ⟨parent, List.mem_of_getLast? last, rfl⟩, fun p here isPrefix ne => ?_⟩
    obtain ⟨elem, mem, rfl⟩ := sound.mem_above.2 ⟨here, isPrefix, ne⟩
    obtain ⟨init, above⟩ := List.getLast?_eq_some_iff.1 last
    have sorted := @FakeBroker.Sound.pairwise_above S V lib broker key sound
    rw [above] at mem sorted
    rcases mem_snoc.1 mem with mem | mem
    · exact ((List.pairwise_append.1 sorted).2.2 elem mem parent List.mem_cons_self).le
    · rw [mem]
  · rintro ⟨here, longest⟩
    obtain ⟨elem, mem, rfl⟩ := sound.mem_above.2 here
    obtain ⟨init, parent, above⟩ := (List.eq_nil_or_concat (broker.above key)).resolve_left (List.ne_nil_of_mem mem)
    refine ⟨parent, by rw [above]; simp, ?_⟩
    have last : parent ∈ broker.above key := by rw [above]; simp
    obtain ⟨here', isPrefix', ne'⟩ := sound.mem_above.1 ⟨parent, last, rfl⟩
    have sorted := @FakeBroker.Sound.pairwise_above S V lib broker key sound
    rw [above, List.concat_eq_append] at mem sorted
    rcases mem_snoc.1 mem with mem | mem
    · have less := (List.pairwise_append.1 sorted).2.2 elem mem parent List.mem_cons_self
      have := longest parent.key here' isPrefix' ne'
      omega
    · rw [mem]

include lawful

/-- What each subscription gets from publishing. -/
theorem FakeBroker.Sound.published [DecidableEq S] (sound : broker.Sound) {broker' : FakeBroker lib V}
    (published : broker.publish key value = some broker') : broker'.subscriptions[i]? =
      broker.subscriptions[i]?.map fun s =>
        if s.closed = false ∧ (s.queueSet, s.key) ∈ broker.routes key then s.put (s.key, value) else s := by
  obtain ⟨broker'', published', subscriptions, -⟩ := @publish_eq S V lib broker lawful key value _ sound
  rw [published] at published'
  cases published'
  rw [subscriptions, sound.deliver sound.nodup_routes subscriptions_element]

theorem FakeBroker.Sound.publish [DecidableEq S] (sound : broker.Sound) {broker' : FakeBroker lib V}
    (published : broker.publish key value = some broker') : broker'.Sound := by
  obtain ⟨broker'', published', -, trie⟩ := @publish_eq S V lib broker lawful key value _ sound
  rw [published] at published'
  cases published'
  have members (q : QueueSet) (k : List S) : broker'.members q k = broker.members q k := by
    rw [FakeBroker.members, trie]
    split_ifs with here
    · rw [here, ← queues_element lawful]
      cases q <;> rfl
    · rfl
  have subscribed (i : ℕ) (q : QueueSet) (k : List S) : broker'.Subscribed i q k ↔ broker.Subscribed i q k := by
    unfold FakeBroker.Subscribed
    rw [sound.published lawful published]
    cases broker.subscriptions[i]? with
    | none => simp
    | some s =>
      rw [Option.map_some]
      split_ifs <;> simp [Subscription.put]
  constructor
  · intro other elem here
    rw [trie] at here
    split_ifs at here with same
    · rw [← Option.some.inj here, same]
      exact sound.key_element
    · exact sound.keys other elem here
  · intro i q k
    rw [members, subscribed, sound.members]
  · intro q k
    rw [members]
    exact sound.nodup q k

theorem FakeBroker.Sound.step [DecidableEq S] (sound : broker.Sound) {call : BrokerCall S V} {broker' : FakeBroker lib V}
    (taken : broker.step call = some broker') : broker'.Sound := by
  cases call with
  | element key =>
    cases taken
    exact sound.element lawful
  | subscribe queueSet key =>
    cases taken
    exact sound.subscribe lawful
  | discard i =>
    cases taken
    exact sound.discard lawful
  | publish key value => exact sound.publish lawful taken

theorem sound_of_reaches [DecidableEq S] (run : Reaches FakeBroker.step always {} broker) : broker.Sound :=
  run.invariant (sound_empty lawful) fun _ _ _ sound _ taken => sound.step lawful taken

end Publish

/-! ## Histories -/

section Histories

variable [DecidableEq S] (lawful : lib.Lawful) {key other : List S} {value : V} {queueSet : QueueSet} {i : ℕ}

include lawful

theorem history_setElement {elem : FakeBrokerElement S V} : (broker.setElement key elem).history other =
    if other = key then elem.history else broker.history other := by
  unfold FakeBroker.history
  rw [get?_setElement lawful]
  split_ifs <;> rfl

theorem history_element : (broker.element key).1.history other = broker.history other := by
  unfold FakeBroker.element
  split
  next => rfl
  next absent =>
    rw [history_setElement lawful]
    split_ifs with same
    · rw [same, FakeBroker.history, absent]
    · rfl

theorem history_element_self : (broker.element key).2.history = broker.history key := by
  have same : (broker.element key).1.history key = broker.history key := history_element lawful
  rw [← same, FakeBroker.history, element_eq lawful]

/-- Changing the queues of an element leaves its history alone. -/
theorem history_update {change : List ℕ → List ℕ} :
    ((broker.element key).1.setElement key ((broker.element key).2.update change queueSet)).history other =
      broker.history other := by
  have same : ((broker.element key).2.update change queueSet).history = (broker.element key).2.history := by
    cases queueSet <;> rfl
  rw [history_setElement lawful, same, history_element_self lawful, history_element lawful]
  split_ifs with here
  · rw [here]
  · rfl

theorem history_subscribe : (broker.subscribe queueSet key).history other = broker.history other :=
  history_update lawful

theorem history_discard : (broker.discard i).history other = broker.history other := by
  unfold FakeBroker.discard
  split
  next => rfl
  next => exact history_update lawful

theorem history_publish (sound : broker.Sound) {broker' : FakeBroker lib V}
    (published : broker.publish key value = some broker') : broker'.history other =
      if other = key then broker.history key ++ [value] else broker.history other := by
  obtain ⟨broker'', published', -, trie⟩ := @publish_eq S V lib broker lawful key value _ sound
  rw [published] at published'
  cases published'
  rw [FakeBroker.history, trie, ← history_element_self lawful]
  split_ifs <;> rfl

omit [DecidableEq S] lawful in
/-- Only a key with an element has a history. -/
theorem exists_of_history (defined : broker.history key ≠ []) : broker.Exists key := by
  unfold FakeBroker.history at defined
  split at defined
  next elem here => exact Option.isSome_iff_exists.2 ⟨elem, here⟩
  next => exact absurd rfl defined

end Histories

/-! ## Delivery -/

section Delivery

variable [DecidableEq S] {key : List S} {value : V}

/-- A subscription in the set of the element of `k` is there for values that are published to `key`. -/
def IsFor (queueSet : QueueSet) (k key : List S) : Prop :=
  match queueSet with
  | .direct => k = key
  | .shallowWildcard => key ≠ [] ∧ k = key.dropLast
  | .deepWildcard => k <+: key ∧ k ≠ key

instance (queueSet : QueueSet) (k key : List S) : Decidable (IsFor queueSet k key) :=
  match queueSet with
  | .direct => inferInstanceAs (Decidable (k = key))
  | .shallowWildcard => inferInstanceAs (Decidable (key ≠ [] ∧ k = key.dropLast))
  | .deepWildcard => inferInstanceAs (Decidable (k <+: key ∧ k ≠ key))

/-- Publishing delivers the value exactly once to each open subscription that is there for it, and to no other. -/
def DeliversExactly (broker : FakeBroker lib V) (key : List S) (value : V) : Prop :=
  ∃ broker' : FakeBroker lib V, broker.publish key value = some broker' ∧ ∀ i : ℕ, broker'.subscriptions[i]? =
    broker.subscriptions[i]?.map fun s : Subscription S V =>
      if s.closed = false ∧ IsFor s.queueSet s.key key then s.put (s.key, value) else s

omit [DecidableEq S] in
theorem put_ne {s : Subscription S V} {data : List S × V} : s.put data ≠ s := by
  intro same
  have lengths := congrArg (·.queue.length) same
  simp [Subscription.put] at lengths

/-- **Wildcard delivery** is exact, unless a shallow wildcard subscription stands at a prefix of the key above its immediate
parent, and no longer prefix has an element. -/
theorem deliversExactly_iff (lawful : lib.Lawful) (run : Reaches FakeBroker.step always {} broker) :
    DeliversExactly broker key value ↔ ∀ (i : ℕ) (k : List S), broker.Subscribed i .shallowWildcard k → k <+: key →
      k.length + 1 < key.length → ∃ p, broker.Exists p ∧ p <+: key ∧ p ≠ key ∧ k.length < p.length := by
  have sound := sound_of_reaches lawful run
  constructor
  · rintro ⟨broker', published, exact_⟩ i k ⟨s, found, shallow, rfl, isOpen⟩ isPrefix short
    by_contra longest
    have ne : s.key ≠ key := by
      intro same
      rw [same] at short
      omega
    have reached : (s.queueSet, s.key) ∈ broker.routes key := by
      rw [shallow]
      refine sound.mem_routes_shallow.2 ⟨⟨sound.exists_of_subscribed ⟨s, found, rfl, rfl, isOpen⟩, isPrefix, ne⟩, ?_⟩
      intro p here isPrefix' ne'
      by_contra long
      exact longest ⟨p, here, isPrefix', ne', by omega⟩
    have notFor : ¬ IsFor s.queueSet s.key key := by
      rw [shallow]
      rintro ⟨-, parent⟩
      rw [parent, List.length_dropLast] at short
      omega
    have got := exact_ i
    rw [sound.published lawful published, found, Option.map_some, Option.map_some, if_pos ⟨isOpen, reached⟩,
      if_neg (fun both => notFor both.2)] at got
    exact put_ne (Option.some.inj got)
  · intro covered
    obtain ⟨broker', published, -⟩ := @publish_eq S V lib broker lawful key value _ sound
    refine ⟨broker', published, fun i => ?_⟩
    rw [sound.published lawful published]
    cases found : broker.subscriptions[i]? with
    | none => rfl
    | some s =>
      have reached (isOpen : s.closed = false) : (s.queueSet, s.key) ∈ broker.routes key ↔ IsFor s.queueSet s.key key := by
        have subscribed : broker.Subscribed i s.queueSet s.key := ⟨s, found, rfl, rfl, isOpen⟩
        have here := sound.exists_of_subscribed subscribed
        unfold IsFor
        generalize s.queueSet = q at subscribed
        cases q with
        | direct => exact mem_routes_direct
        | shallowWildcard =>
          rw [sound.mem_routes_shallow]
          constructor
          · rintro ⟨⟨-, isPrefix, ne⟩, longest⟩
            have nonempty : key ≠ [] := by
              rintro rfl
              exact ne (List.prefix_nil.1 isPrefix)
            refine ⟨nonempty, ?_⟩
            have within : s.key <+: key.dropLast := by
              rw [← List.dropLast_concat_getLast nonempty] at isPrefix ne
              exact ((List.prefix_concat_iff).1 isPrefix).resolve_left ne
            apply within.eq_of_length_le
            by_contra short
            obtain ⟨p, here', isPrefix', ne', long⟩ := covered i s.key subscribed isPrefix
              (by rw [List.length_dropLast] at short; omega)
            have := longest p here' isPrefix' ne'
            omega
          · rintro ⟨nonempty, parent⟩
            have short : s.key.length + 1 = key.length := by
              have := List.length_pos_of_ne_nil nonempty
              rw [parent, List.length_dropLast]
              omega
            refine ⟨⟨here, parent ▸ List.dropLast_prefix key, ?_⟩, fun p _ isPrefix ne => ?_⟩
            · intro same
              rw [same] at short
              omega
            · have := List.IsPrefix.length_le isPrefix
              have : p.length ≠ key.length := fun same => ne (isPrefix.eq_of_length same)
              omega
        | deepWildcard =>
          rw [mem_routes_deep, sound.mem_above]
          exact ⟨And.right, fun below => ⟨here, below⟩⟩
      rw [Option.map_some, Option.map_some]
      by_cases isOpen : s.closed = false
      · simp only [isOpen, true_and, reached isOpen]
      · rw [if_neg fun both => isOpen both.1, if_neg fun both => isOpen both.1]

end Delivery

/-- Without an element for the camera, a value of the camera goes to those who observe the children of its site. -/
theorem grandparent_gets : ¬ ∀ (broker : FakeBroker (PrefixMaps.dictionary : PrefixMaps String) ℕ) (key : List String),
    Reaches FakeBroker.step always {} broker → DeliversExactly broker key 0 := by
  intro law
  let broker : FakeBroker (PrefixMaps.dictionary : PrefixMaps String) ℕ :=
    ({} : FakeBroker _ ℕ).subscribe .shallowWildcard ["site"]
  have run : Reaches FakeBroker.step always {} broker :=
    .tail (.refl _) trivial (show FakeBroker.step {} (.subscribe .shallowWildcard ["site"]) = some broker from rfl)
  obtain ⟨broker', published, exact_⟩ := law broker ["site", "camera", "exposure"] run
  have delivered : (broker.publish ["site", "camera", "exposure"] 0).map (·.subscriptions) =
      some [⟨.shallowWildcard, ["site"], [(["site"], 0)], false⟩] := by decide +kernel
  rw [published, Option.map_some] at delivered
  have got := exact_ 0
  rw [Option.some.inj delivered] at got
  exact absurd got (by decide +kernel)

theorem deliversExactly_iff_example : DeliversExactly
    ((({} : FakeBroker (PrefixMaps.dictionary : PrefixMaps String) ℕ).subscribe .shallowWildcard ["site"]).element
      ["site", "camera"]).1 ["site", "camera", "exposure"] 0 := by
  have run : Reaches FakeBroker.step always {}
      ((({} : FakeBroker (PrefixMaps.dictionary : PrefixMaps String) ℕ).subscribe .shallowWildcard ["site"]).element
        ["site", "camera"]).1 :=
    .tail (.tail (.refl _) trivial (show FakeBroker.step {} (.subscribe .shallowWildcard ["site"]) = some _ from rfl))
      trivial (show FakeBroker.step _ (.element ["site", "camera"]) = some _ from rfl)
  refine (deliversExactly_iff lawful_dictionary run).2 fun i k _ _ short => ?_
  have exists_ : FakeBroker.Exists ((({} : FakeBroker (PrefixMaps.dictionary : PrefixMaps String) ℕ).subscribe
      .shallowWildcard ["site"]).element ["site", "camera"]).1 ["site", "camera"] := by
    show Option.isSome _ = true
    decide +kernel
  exact ⟨["site", "camera"], exists_, by decide, by decide, by simp at short ⊢; omega⟩

end SensorKit.Backend
