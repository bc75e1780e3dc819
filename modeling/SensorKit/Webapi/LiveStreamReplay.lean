import SensorKit.Webapi.LiveStream

/-!
# Live streams replay the caches

Up to the broadcast of the last record that it was sent, a subscriber's snapshot and the matching updates replay to its
selection of the caches.
-/

namespace SensorKit.Webapi

open Lib

variable {J : Type} {config : WebAPIConfig} {sub sub' : Subscriber J} {i : ℕ} {upto : List (Forwarder × SKRecord J)}
  {subscription : Subscription} {service service' : WebAPI J} {event : StreamEvent J} {events : List (StreamEvent J)}

/-! ## The last record -/

/-- What has been taken out of a queue, without what follows the last record that was sent. -/
theorem exists_last_sent (subscription : Subscription) (taken : List ((Forwarder × SKRecord J) × Bool)) :
    ∃ trimmed, trimmed <+: taken ∧ subscription.select (kept trimmed) = subscription.select (kept taken) ∧
      (lost trimmed).length ≤ (lost taken).length ∧
      ∀ entry ∈ trimmed.getLast?, entry.2 = true ∧ subscription.Matches entry.1.2 := by
  induction taken using List.reverseRecOn with
  | nil => exact ⟨[], List.prefix_rfl, rfl, Nat.le_refl _, fun entry mem => by cases mem⟩
  | append_singleton taken entry ih =>
    obtain ⟨update, sent⟩ := entry
    obtain ⟨trimmed, isPrefix, same, fewer, last⟩ := ih
    have less : (lost taken).length ≤ (lost (taken ++ [(update, sent)])).length := by
      rw [lost_snoc, List.length_append]
      omega
    have trim (nothing : subscription.select (kept (taken ++ [(update, sent)])) = subscription.select (kept taken)) :
        ∃ trimmed, trimmed <+: taken ++ [(update, sent)] ∧
          subscription.select (kept trimmed) = subscription.select (kept (taken ++ [(update, sent)])) ∧
          (lost trimmed).length ≤ (lost (taken ++ [(update, sent)])).length ∧
          ∀ entry ∈ trimmed.getLast?, entry.2 = true ∧ subscription.Matches entry.1.2 :=
      ⟨trimmed, isPrefix.trans (List.prefix_append _ _), same.trans nothing.symm, Nat.le_trans fewer less, last⟩
    cases sent with
    | false => exact trim (congrArg _ (kept_snoc.trans (List.append_nil _)))
    | true =>
      by_cases matching : subscription.Matches update.2
      · refine ⟨taken ++ [(update, true)], List.prefix_rfl, rfl, Nat.le_refl _, fun entry mem => ?_⟩
        rw [List.getLast?_concat] at mem
        cases mem
        exact ⟨rfl, matching⟩
      · apply trim
        have now : kept (taken ++ [(update, true)]) = kept taken ++ [update] := kept_snoc
        rw [now, select_snoc, if_neg matching, List.append_nil]

theorem kept_of_lost {taken : List ((Forwarder × SKRecord J) × Bool)} (nothing : lost taken = []) :
    kept taken = taken.map Prod.fst := by
  unfold kept
  congr 1
  rw [List.filter_eq_self]
  intro entry mem
  have there := List.filter_eq_nil_iff.1 (List.map_eq_nil_iff.1 nothing) entry mem
  simpa using there

/-- The part of a run up to the broadcast of some update. -/
theorem exists_moment (isPrefix : upto <+: updates events) :
    ∃ mid rest, events = mid ++ rest ∧ updates mid = upto ∧
      ∀ event ∈ mid.getLast?, ∃ update ∈ upto.getLast?, event.update? = some update := by
  induction events using List.reverseRecOn with
  | nil => exact ⟨[], [], rfl, (List.prefix_nil.1 isPrefix).symm, fun event mem => by cases mem⟩
  | append_singleton events event ih =>
    have earlier (isPrefix : upto <+: updates events) : ∃ mid rest, events ++ [event] = mid ++ rest ∧ updates mid = upto ∧
        ∀ event ∈ mid.getLast?, ∃ update ∈ upto.getLast?, event.update? = some update := by
      obtain ⟨mid, rest, split, all, last⟩ := ih isPrefix
      exact ⟨mid, rest ++ [event], by rw [split, List.append_assoc], all, last⟩
    rw [updates_snoc] at isPrefix
    cases is : event.update? with
    | none =>
      rw [is, Option.toList_none, List.append_nil] at isPrefix
      exact earlier isPrefix
    | some update =>
      rw [is, Option.toList_some] at isPrefix
      rcases List.prefix_concat_iff.1 isPrefix with whole | isPrefix
      · refine ⟨events ++ [event], [], (List.append_nil _).symm, ?_, fun event' mem => ?_⟩
        · rw [updates_snoc, is, whole]
          rfl
        · rw [List.getLast?_concat] at mem
          cases mem
          exact ⟨update, by rw [whole, List.getLast?_concat]; rfl, is⟩
      · exact earlier isPrefix

/-! ## Replays -/

/-- The snapshot of a subscriber and the matching updates since replay to its selection of the caches. -/
theorem replay_since {joined moment : WebAPI J} {before mid : List (StreamEvent J)}
    (ran : exec (WebAPI.step config) {} before = some joined)
    (run : exec (WebAPI.step config) joined (.join subscription :: mid) = some moment) :
    replay (fun _ => none) ((subscription.snapshot config joined.caches ++ subscription.select (updates mid)).map write) =
      restrict (subscription.selects config) (stored moment.caches) := by
  have known : updates (.join subscription :: mid) = updates mid := rfl
  have selected : (subscription.select (updates mid)).map write =
      ((updates mid).map write).filter fun write => subscription.selects config write.1 := by
    rw [List.filter_map]
    refine congrArg _ (List.filter_congr fun update mem => ?_)
    obtain ⟨source, entity, prop, payload, made⟩ := exists_of_mem_updates run (known ▸ mem)
    have key : (write update).1 = (update.1, entity, prop) := by
      unfold write
      rw [made]
      rfl
    show decide (subscription.Matches update.2) = subscription.selects config (write update).1
    rw [Bool.eq_iff_iff, decide_eq_true_iff, key, made]
    exact (selects_iff source).symm
  rw [List.map_append, replay_append, replay_snapshot ran, selected, replay_restrict, stored_exec run, known]

/-! ## Overflow -/

/-- A subscriber that has been cut loose: nothing but the end marker is left of its queue. -/
structure CutLoose (sent : List (Forwarder × SKRecord J)) (sub : Subscriber J) : Prop where
  sent : sub.received ++ sub.unsent = sent
  loose : sub.registered = false
  marked : sub.state = .open → sub.queue = [none]

theorem CutLoose.moves {sent : List (Forwarder × SKRecord J)} (h : CutLoose sent sub) (moves : Moves config event sub sub') :
    CutLoose sent sub' := by
  have unregistered : ¬ sub.registered = true := by
    rw [h.loose]
    exact Bool.noConfusion
  cases moves with
  | broadcast is same =>
    have kept : sub' = sub := same.trans (if_neg unregistered)
    exact kept ▸ h
  | shutdown is same =>
    have kept : sub' = sub := same.trans (if_neg unregistered)
    exact kept ▸ h
  | next quiet step =>
    unfold Subscriber.next at step
    split at step
    · rename_i record unsent open_ rest
      cases step
      refine ⟨?_, h.loose, h.marked⟩
      show (sub.received ++ [record]) ++ unsent = sent
      rw [List.append_assoc, ← h.sent, rest]
      rfl
    · rename_i record queue open_ through same
      have marked := h.marked open_
      rw [same] at marked
      cases marked
    · cases step
      exact ⟨h.sent, rfl, fun there => by cases there⟩
    · cases step
  | disconnect quiet step =>
    unfold Subscriber.disconnect at step
    split at step
    · cases step
      exact ⟨h.sent, rfl, fun there => by cases there⟩
    · cases step
  | stays quiet same => exact same ▸ h

theorem length_le_of_step (step : service.step config event = some service') :
    service.subscribers.length ≤ service'.subscribers.length := by
  cases event with
  | update source entity prop payload =>
    simp only [WebAPI.step] at step
    split at step
    · cases step
      exact Nat.le_of_eq (List.length_map _).symm
    · cases step
  | join subscription =>
    cases step
    exact List.length_append ▸ Nat.le_add_right _ _
  | next k =>
    obtain ⟨sub, -, step⟩ := Option.bind_eq_some_iff.1 step
    obtain ⟨sub', -, step⟩ := Option.bind_eq_some_iff.1 step
    cases step
    exact Nat.le_of_eq List.length_set.symm
  | disconnect k =>
    obtain ⟨sub, -, step⟩ := Option.bind_eq_some_iff.1 step
    obtain ⟨sub', -, step⟩ := Option.bind_eq_some_iff.1 step
    cases step
    exact Nat.le_of_eq List.length_set.symm
  | shutdown =>
    cases step
    exact Nat.le_of_eq (List.length_map _).symm

theorem length_le_of_run (run : exec (WebAPI.step config) service events = some service') :
    service.subscribers.length ≤ service'.subscribers.length := by
  induction events generalizing service with
  | nil =>
    cases run
    exact Nat.le_refl _
  | cons event events ih =>
    obtain ⟨mid, step, rest⟩ := exec_cons_eq_some.1 run
    exact Nat.le_trans (length_le_of_step step) (ih rest)

theorem CutLoose.run {sent : List (Forwarder × SKRecord J)} (h : CutLoose sent sub) (there : service.subscribers[i]? = some sub)
    (run : exec (WebAPI.step config) service events = some service') (there' : service'.subscribers[i]? = some sub') :
    CutLoose sent sub' := by
  induction events using List.reverseRecOn generalizing service' sub' with
  | nil =>
    cases run
    cases there.symm.trans there'
    exact h
  | append_singleton events event ih =>
    rw [exec_append] at run
    obtain ⟨mid, ran, last⟩ := Option.bind_eq_some_iff.1 run
    obtain ⟨after, step, rest⟩ := exec_cons_eq_some.1 last
    cases rest
    rcases subscriber_step step there' with ⟨earlier, found, moves⟩ | ⟨subscription, rfl, number, rfl⟩
    · exact (ih ran found).moves moves
    · have bound := lt_of_found there
      have grows := length_le_of_run ran
      omega

/-- **Live streams replay the caches.** What a subscriber has been sent is the snapshot of its start and the matching records
of the updates that have been broadcast since, up to the last record it was sent, each once at most. Of them only those are
missing that shutdowns gave up, one at most by each shutdown that found its queue full. With them, they replay to its
selection of the caches at the moment at which that last record was broadcast. And once an update finds its queue full, it is
sent no later record, and there is nothing but the end marker in its queue. -/
theorem live_stream_replays (run : exec (WebAPI.step config) {} events = some service)
    (there : service.subscribers[i]? = some sub) :
    (∃ before subscription mid rest joined moment taken, events = before ++ .join subscription :: (mid ++ rest) ∧
      exec (WebAPI.step config) {} before = some joined ∧ joined.subscribers.length = i ∧
      exec (WebAPI.step config) joined (.join subscription :: mid) = some moment ∧ updates mid = taken.map Prod.fst ∧
      (∀ event ∈ mid.getLast?, ∃ entry ∈ taken.getLast?,
        event.update? = some entry.1 ∧ entry.2 = true ∧ subscription.Matches entry.1.2) ∧
      sub.received ++ sub.unsent =
        subscription.snapshot config joined.caches ++ subscription.select (kept taken) ∧
      (lost taken).length ≤ cuts config i {} events ∧
      (cuts config i {} events = 0 → kept taken = taken.map Prod.fst) ∧
      replay (fun _ => none)
          ((subscription.snapshot config joined.caches ++ subscription.select (taken.map Prod.fst)).map write) =
        restrict (subscription.selects config) (stored moment.caches)) ∧
    ∀ pre source entity prop payload post full sub', events = pre ++ .update source entity prop payload :: post →
      exec (WebAPI.step config) {} pre = some full → full.subscribers[i]? = some sub' → sub'.registered = true →
      sub'.Full config →
      sub.received ++ sub.unsent = sub'.received ++ sub'.unsent ∧ (sub.state = .open → sub.queue = [none]) := by
  constructor
  · obtain ⟨before, subscription, after, joined, taken, split, ran, number, subscribed, streams, given⟩ := follows run there
    obtain ⟨trimmed, isPrefix, same, fewer, last⟩ := exists_last_sent subscription taken
    obtain ⟨mid, rest, split', all, ends⟩ := exists_moment ((isPrefix.map Prod.fst).trans streams.inOrder)
    rw [split, split', ← List.cons_append, exec_append, ran, Option.bind_some, exec_append] at run
    obtain ⟨moment, reached, -⟩ := Option.bind_eq_some_iff.1 run
    have fewer' := Nat.le_trans fewer given
    refine ⟨before, subscription, mid, rest, joined, moment, trimmed, by rw [split, split'], ran, number, reached, all, ?_, ?_,
      fewer', fun none => ?_, all ▸ replay_since ran reached⟩
    · intro event mem
      obtain ⟨update, there, is⟩ := ends event mem
      rw [List.getLast?_map] at there
      obtain ⟨entry, mem', rfl⟩ := Option.map_eq_some_iff.1 there
      exact ⟨entry, mem', is, last entry mem'⟩
    · have received := streams.received
      rw [subscribed] at received
      rw [same]
      exact received
    · exact kept_of_lost (List.length_eq_zero_iff.1 (by omega))
  · intro pre source entity prop payload post full sub' split ran found registered isFull
    rw [split, exec_append, ran, Option.bind_some] at run
    obtain ⟨after, step, rest⟩ := exec_cons_eq_some.1 run
    have loose : CutLoose (sub'.received ++ sub'.unsent)
        (sub'.broadcast config (source, source.record entity prop payload)) := by
      unfold Subscriber.broadcast
      rw [if_pos registered, if_pos isFull]
      exact ⟨rfl, rfl, fun _ => rfl⟩
    have here : after.subscribers[i]? = some (sub'.broadcast config (source, source.record entity prop payload)) := by
      simp only [WebAPI.step] at step
      split at step
      · cases step
        exact (List.getElem?_map ..).trans (congrArg _ found)
      · cases step
    have still := loose.run here rest there
    exact ⟨still.sent, still.marked⟩

theorem live_stream_replays_example : ∃ (service : WebAPI ℕ) (sub : Subscriber ℕ) (joined moment : WebAPI ℕ)
    (taken : List ((Forwarder × SKRecord ℕ) × Bool)),
    exec (WebAPI.step { streamQueueSize := 2 }) ({} : WebAPI ℕ) [.update .keyValue "mount" "Status" (some 1), .join .firehose,
      .next 0, .update .keyValue "mount" "Status" none, .next 0] = some service ∧
    service.subscribers[0]? = some sub ∧
    sub.received ++ sub.unsent =
      Subscription.firehose.snapshot { streamQueueSize := 2 } joined.caches ++ Subscription.firehose.select (kept taken) ∧
    replay (fun _ => none)
        ((Subscription.firehose.snapshot { streamQueueSize := 2 } joined.caches ++
          Subscription.firehose.select (taken.map Prod.fst)).map write) =
      restrict (Subscription.firehose.selects { streamQueueSize := 2 }) (stored moment.caches) := by
  have there : (exec (WebAPI.step { streamQueueSize := 2 }) ({} : WebAPI ℕ) [.update .keyValue "mount" "Status" (some 1),
      .join .firehose, .next 0, .update .keyValue "mount" "Status" none, .next 0]).map (fun service => service.subscribers[0]?) =
      some (some ⟨.firehose, [], [], [(.keyValue, ⟨.state, "mount", "Status", some 1⟩),
        (.keyValue, ⟨.state, "mount", "Status", none⟩)], true, .open⟩) := by decide +kernel
  obtain ⟨service, ran, there⟩ := Option.map_eq_some_iff.1 there
  obtain ⟨⟨before, subscription, mid, rest, joined, moment, taken, split, -, -, -, -, -, received, -, -, replays⟩, -⟩ :=
    live_stream_replays ran there
  obtain rfl : subscription = .firehose := by
    have mem : StreamEvent.join subscription ∈ [.update .keyValue "mount" "Status" (some 1), .join .firehose,
        .next 0, .update .keyValue "mount" "Status" (none : Option ℕ), .next 0] := split ▸ by simp
    simpa using mem
  exact ⟨service, _, joined, moment, taken, ran, there, received, replays⟩

/-- A shutdown finds a queue of two records full and gives up the first one, so that the subscriber is sent only the second. -/
theorem given_up_record_missing : ∃ (service : WebAPI ℕ) (sub : Subscriber ℕ) (moment : WebAPI ℕ),
    exec (WebAPI.step { streamQueueSize := 2 }) ({} : WebAPI ℕ) [.join .firehose, .update .keyValue "mount" "Status" (some 1),
      .update .keyValue "dome" "Status" (some 2), .shutdown, .next 0] = some service ∧
    service.subscribers[0]? = some sub ∧ sub.unsent = [] ∧
    exec (WebAPI.step { streamQueueSize := 2 }) ({} : WebAPI ℕ) [.join .firehose, .update .keyValue "mount" "Status" (some 1),
      .update .keyValue "dome" "Status" (some 2)] = some moment ∧
    sub.received = [(.keyValue, Forwarder.keyValue.record "dome" "Status" (some 2))] ∧
    replay (fun _ => none) (sub.received.map write) ≠
      restrict (Subscription.firehose.selects { streamQueueSize := 2 }) (stored moment.caches) := by
  have there : (exec (WebAPI.step { streamQueueSize := 2 }) ({} : WebAPI ℕ) [.join .firehose,
      .update .keyValue "mount" "Status" (some 1), .update .keyValue "dome" "Status" (some 2), .shutdown, .next 0]).map
      (fun service => service.subscribers[0]?) =
      some (some ⟨.firehose, [], [none], [(.keyValue, ⟨.state, "dome", "Status", some 2⟩)], true, .open⟩) := by
    decide +kernel
  have held : (exec (WebAPI.step { streamQueueSize := 2 }) ({} : WebAPI ℕ) [.join .firehose,
      .update .keyValue "mount" "Status" (some 1), .update .keyValue "dome" "Status" (some 2)]).map
      (fun service => stored service.caches (.keyValue, "mount", "Status")) =
      some (some ⟨.state, "mount", "Status", some 1⟩) := by decide +kernel
  obtain ⟨service, ran, there⟩ := Option.map_eq_some_iff.1 there
  obtain ⟨moment, reached, held⟩ := Option.map_eq_some_iff.1 held
  refine ⟨service, _, moment, ran, there, rfl, reached, rfl, fun same => ?_⟩
  have missing := congrFun same (.keyValue, "mount", "Status")
  have selected : Subscription.firehose.selects { streamQueueSize := 2 } (.keyValue, "mount", "Status") = true := by decide
  unfold restrict at missing
  rw [selected, if_pos rfl, held] at missing
  exact absurd missing (by decide +kernel)

end SensorKit.Webapi
