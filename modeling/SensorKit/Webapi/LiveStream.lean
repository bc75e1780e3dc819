import Mathlib.Data.List.ReduceOption
import SensorKit.Webapi.ForwarderCache

/-!
# What a live stream replays

What a subscriber has been sent is the snapshot of its start and, of the updates that have been broadcast since, the
matching ones up to some point, without those that a shutdown took out of its full queue.
-/

namespace SensorKit.Webapi

open Lib

variable {J : Type} {config : WebAPIConfig} {sub sub' : Subscriber J} {update : Forwarder × SKRecord J} {i : ℕ}
  {snapshot since : List (Forwarder × SKRecord J)} {taken : List ((Forwarder × SKRecord J) × Bool)}
  {service service' : WebAPI J} {event : StreamEvent J} {events : List (StreamEvent J)}

/-! ## A subscriber -/

/-- What was taken out of a queue to be sent, and not given up. -/
def kept (taken : List ((Forwarder × SKRecord J) × Bool)) : List (Forwarder × SKRecord J) :=
  (taken.filter Prod.snd).map Prod.fst

/-- What was given up. -/
def lost (taken : List ((Forwarder × SKRecord J) × Bool)) : List (Forwarder × SKRecord J) :=
  (taken.filter fun entry => !entry.2).map Prod.fst

/-- The matching ones of some updates. -/
def Subscription.select (subscription : Subscription) (updates : List (Forwarder × SKRecord J)) :
    List (Forwarder × SKRecord J) :=
  updates.filter fun update => subscription.Matches update.2

theorem select_snoc {subscription : Subscription} {updates : List (Forwarder × SKRecord J)} :
    subscription.select (updates ++ [update]) =
      subscription.select updates ++ if subscription.Matches update.2 then [update] else [] := by
  unfold Subscription.select
  rw [List.filter_append, List.filter_cons, List.filter_nil]
  congr 1
  exact if_congr decide_eq_true_iff rfl rfl

/-- Where a subscriber is that started with a snapshot: what has been taken out of its queue, in the order in which it was
broadcast, and whether it was sent or given up. -/
structure Streams (snapshot since : List (Forwarder × SKRecord J)) (taken : List ((Forwarder × SKRecord J) × Bool))
    (sub : Subscriber J) : Prop where
  received : sub.received ++ sub.unsent = snapshot ++ sub.subscription.select (kept taken)
  later : sub.unsent ≠ [] → kept taken = []
  inOrder : taken.map Prod.fst <+: since
  queued : sub.registered = true → sub.state = .open ∧ taken.map Prod.fst ++ sub.queue.reduceOption = since
  loose : sub.registered = false → sub.state = .open → sub.queue = [none]

theorem kept_snoc {sent : Bool} : kept (taken ++ [(update, sent)]) = kept taken ++ if sent then [update] else [] := by
  unfold kept
  rw [List.filter_append, List.map_append]
  cases sent <;> rfl

theorem lost_snoc {sent : Bool} : lost (taken ++ [(update, sent)]) = lost taken ++ if sent then [] else [update] := by
  unfold lost
  rw [List.filter_append, List.map_append]
  cases sent <;> rfl

theorem streams_start {subscription : Subscription} :
    Streams snapshot [] [] ({ subscription, unsent := snapshot } : Subscriber J) where
  received := (List.append_nil _).symm
  later _ := rfl
  inOrder := List.prefix_rfl
  queued _ := ⟨rfl, rfl⟩
  loose registered := by cases registered

section

variable (h : Streams snapshot since taken sub)
include h

theorem Streams.broadcast : Streams snapshot (since ++ [update]) taken (sub.broadcast config update) := by
  have taken' : taken.map Prod.fst <+: since ++ [update] := h.inOrder.trans (List.prefix_append _ _)
  unfold Subscriber.broadcast
  split
  · rename_i registered
    obtain ⟨open_, queued⟩ := h.queued registered
    split
    · exact ⟨h.received, h.later, taken', fun there => (by cases there), fun _ _ => rfl⟩
    · refine ⟨h.received, h.later, taken', fun _ => ⟨open_, ?_⟩, fun there => ?_⟩
      · show taken.map Prod.fst ++ (sub.queue ++ [some update]).reduceOption = since ++ [update]
        rw [List.reduceOption_append, ← List.append_assoc, queued]
        rfl
      · rw [registered] at there
        cases there
  · rename_i loose
    refine ⟨h.received, h.later, taken', fun registered => absurd registered loose, h.loose⟩

/-- A shutdown gives up a record only to a full queue. -/
theorem Streams.shutdown : ∃ taken', Streams snapshot since taken' (sub.shutdown config) ∧
      (lost taken').length ≤ (lost taken).length + if sub.registered = true ∧ sub.Full config then 1 else 0 := by
  unfold Subscriber.shutdown
  split
  · rename_i registered
    obtain ⟨open_, queued⟩ := h.queued registered
    have marked : ¬ sub.registered = false := by
      rw [registered]
      exact Bool.noConfusion
    split
    · rename_i full
      rw [if_pos ⟨registered, full⟩]
      cases queue : sub.queue with
      | nil =>
        have positive := Int.lt_of_lt_of_le full.1 full.2
        rw [queue] at positive
        cases positive
      | cons head rest =>
        rw [queue] at queued
        cases head with
        | none =>
          refine ⟨taken, ⟨h.received, h.later, h.inOrder, fun _ => ⟨open_, ?_⟩, fun there => absurd there marked⟩, by omega⟩
          show taken.map Prod.fst ++ (rest ++ [none]).reduceOption = since
          rw [List.reduceOption_append, ← List.append_assoc]
          rw [List.reduceOption_cons_of_none] at queued
          rw [queued]
          exact List.append_nil _
        | some record =>
          rw [List.reduceOption_cons_of_some] at queued
          have same : kept (taken ++ [(record, false)]) = kept taken := kept_snoc.trans (List.append_nil _)
          refine ⟨taken ++ [(record, false)], ⟨?_, ?_, ?_, fun _ => ⟨open_, ?_⟩, fun there => absurd there marked⟩, ?_⟩
          · rw [same]
            exact h.received
          · rw [same]
            exact h.later
          · rw [List.map_append, ← queued]
            exact ⟨rest.reduceOption, List.append_assoc _ _ _⟩
          · show (taken ++ [(record, false)]).map Prod.fst ++ (rest ++ [none]).reduceOption = since
            rw [List.reduceOption_append, List.map_append, ← queued]
            simp
          · rw [lost_snoc, List.length_append]
            exact Nat.le_refl _
    · refine ⟨taken, ⟨h.received, h.later, h.inOrder, fun _ => ⟨open_, ?_⟩, fun there => absurd there marked⟩, by omega⟩
      show taken.map Prod.fst ++ (sub.queue ++ [none]).reduceOption = since
      rw [List.reduceOption_append, ← List.append_assoc, queued]
      exact List.append_nil _
  · exact ⟨taken, h, by omega⟩

/-- The stream goes on: it gives up nothing. -/
theorem Streams.next (step : sub.next = some sub') :
    ∃ taken', Streams snapshot since taken' sub' ∧ (lost taken').length ≤ (lost taken).length := by
  unfold Subscriber.next at step
  split at step
  · rename_i record unsent open_ rest
    cases step
    refine ⟨taken, ⟨?_, fun _ => h.later (by rw [rest]; simp), h.inOrder, h.queued, h.loose⟩, Nat.le_refl _⟩
    show (sub.received ++ [record]) ++ unsent = _
    rw [List.append_assoc, ← h.received, rest]
    rfl
  · rename_i record queue open_ through same
    have registered : sub.registered = true := by
      cases there : sub.registered with
      | true => rfl
      | false =>
        have loose := h.loose there open_
        rw [same] at loose
        cases loose
    obtain ⟨-, queued⟩ := h.queued registered
    rw [same, List.reduceOption_cons_of_some] at queued
    have now : kept (taken ++ [(record, true)]) = kept taken ++ [record] := kept_snoc
    have taken' : (taken ++ [(record, true)]).map Prod.fst <+: since := by
      rw [List.map_append, ← queued]
      exact ⟨queue.reduceOption, List.append_assoc _ _ _⟩
    have queued' : (taken ++ [(record, true)]).map Prod.fst ++ queue.reduceOption = since := by
      rw [List.map_append, ← queued]
      simp
    have given : (lost (taken ++ [(record, true)])).length ≤ (lost taken).length := by
      rw [lost_snoc]
      exact Nat.le_of_eq (congrArg List.length (List.append_nil _))
    have received := h.received
    rw [through, List.append_nil] at received
    have marked : ¬ sub.registered = false := by
      rw [registered]
      exact Bool.noConfusion
    split at step
    · rename_i matching
      cases step
      refine ⟨taken ++ [(record, true)], ⟨?_, fun unsent => absurd through unsent, taken', fun _ => ⟨open_, queued'⟩,
        fun there => absurd there marked⟩, given⟩
      show (sub.received ++ [record]) ++ sub.unsent = _ ++ sub.subscription.select _
      rw [through, List.append_nil, received, now, select_snoc, if_pos matching, List.append_assoc]
    · rename_i other
      cases step
      refine ⟨taken ++ [(record, true)], ⟨?_, fun unsent => absurd through unsent, taken', fun _ => ⟨open_, queued'⟩,
        fun there => absurd there marked⟩, given⟩
      show sub.received ++ sub.unsent = _ ++ sub.subscription.select _
      rw [through, List.append_nil, received, now, select_snoc, if_neg other, List.append_nil]
  · cases step
    exact ⟨taken, ⟨h.received, h.later, h.inOrder, fun there => (by cases there), fun _ there => (by cases there)⟩, Nat.le_refl _⟩
  · cases step

theorem Streams.disconnect (step : sub.disconnect = some sub') : Streams snapshot since taken sub' := by
  unfold Subscriber.disconnect at step
  split at step
  · cases step
    exact ⟨h.received, h.later, h.inOrder, fun there => (by cases there), fun _ there => (by cases there)⟩
  · cases step

end

/-! ## Runs -/

/-- What an event does to a subscriber. -/
inductive Moves (config : WebAPIConfig) (event : StreamEvent J) (sub sub' : Subscriber J) : Prop where
  | broadcast {update : Forwarder × SKRecord J} (is : event.update? = some update) (same : sub' = sub.broadcast config update)
  | shutdown (is : event = .shutdown) (same : sub' = sub.shutdown config)
  | next (quiet : event.update? = none) (step : sub.next = some sub')
  | disconnect (quiet : event.update? = none) (step : sub.disconnect = some sub')
  | stays (quiet : event.update? = none) (same : sub' = sub)

theorem Moves.subscription (h : Moves config event sub sub') : sub'.subscription = sub.subscription := by
  cases h with
  | broadcast is same =>
    rw [same]
    unfold Subscriber.broadcast
    split
    · split <;> rfl
    · rfl
  | shutdown is same =>
    rw [same]
    unfold Subscriber.shutdown
    split
    · split <;> rfl
    · rfl
  | next quiet step =>
    unfold Subscriber.next at step
    split at step
    · cases step
      rfl
    · split at step
      all_goals
        cases step
        rfl
    · cases step
      rfl
    · cases step
  | disconnect quiet step =>
    unfold Subscriber.disconnect at step
    split at step
    · cases step
      rfl
    · cases step
  | stays quiet same => rw [same]

/-- A subscriber after a step was there before it, or joins with it. -/
theorem subscriber_step (step : service.step config event = some service') (there : service'.subscribers[i]? = some sub') :
    (∃ sub, service.subscribers[i]? = some sub ∧ Moves config event sub sub') ∨
      ∃ subscription, event = .join subscription ∧ service.subscribers.length = i ∧
        sub' = { subscription, unsent := subscription.snapshot config service.caches } := by
  cases event with
  | update source entity prop payload =>
    simp only [WebAPI.step] at step
    split at step
    · cases step
      obtain ⟨sub, found, rfl⟩ := Option.map_eq_some_iff.1 (List.getElem?_map ▸ there)
      exact .inl ⟨sub, found, .broadcast rfl rfl⟩
    · cases step
  | join subscription =>
    cases step
    rcases found_snoc there with found | ⟨last, rfl⟩
    · exact .inl ⟨sub', found, .stays rfl rfl⟩
    · exact .inr ⟨subscription, rfl, last.symm, rfl⟩
  | next k =>
    obtain ⟨sub, found, step⟩ := Option.bind_eq_some_iff.1 step
    obtain ⟨after, went, step⟩ := Option.bind_eq_some_iff.1 step
    cases step
    rcases found_set there with ⟨rfl, rfl⟩ | ⟨-, other⟩
    · exact .inl ⟨sub, found, .next rfl went⟩
    · exact .inl ⟨sub', other, .stays rfl rfl⟩
  | disconnect k =>
    obtain ⟨sub, found, step⟩ := Option.bind_eq_some_iff.1 step
    obtain ⟨after, went, step⟩ := Option.bind_eq_some_iff.1 step
    cases step
    rcases found_set there with ⟨rfl, rfl⟩ | ⟨-, other⟩
    · exact .inl ⟨sub, found, .disconnect rfl went⟩
    · exact .inl ⟨sub', other, .stays rfl rfl⟩
  | shutdown =>
    cases step
    obtain ⟨sub, found, rfl⟩ := Option.map_eq_some_iff.1 (List.getElem?_map ▸ there)
    exact .inl ⟨sub, found, .shutdown rfl rfl⟩

/-- Whether an event is a shutdown that finds the queue of a subscriber full. -/
def StreamEvent.cuts (config : WebAPIConfig) (i : ℕ) (service : WebAPI J) : StreamEvent J → ℕ
  | .shutdown =>
    match service.subscribers[i]? with
    | some sub => if sub.registered = true ∧ sub.Full config then 1 else 0
    | none => 0
  | _ => 0

/-- How many shutdowns of a run find the queue of a subscriber full. -/
def cuts (config : WebAPIConfig) (i : ℕ) : WebAPI J → List (StreamEvent J) → ℕ
  | _, [] => 0
  | service, event :: events => event.cuts config i service + (service.step config event).elim 0 fun service' => cuts config i service' events

theorem cuts_snoc (run : exec (WebAPI.step config) service events = some service') :
    cuts config i service (events ++ [event]) = cuts config i service events + event.cuts config i service' := by
  induction events generalizing service with
  | nil =>
    obtain rfl := Option.some.inj run
    show event.cuts config i service + (service.step config event).elim 0 (fun _ => 0) = 0 + event.cuts config i service
    cases service.step config event <;> simp
  | cons first events ih =>
    obtain ⟨mid, step, rest⟩ := exec_cons_eq_some.1 run
    show first.cuts config i service + (service.step config first).elim 0 (fun s => cuts config i s (events ++ [event])) =
      first.cuts config i service + (service.step config first).elim 0 (fun s => cuts config i s events) + _
    rw [step, Option.elim_some, Option.elim_some, ih rest, Nat.add_assoc]

theorem updates_snoc : updates (events ++ [event]) = updates events ++ event.update?.toList := by
  unfold updates
  rw [List.filterMap_append, List.filterMap_cons]
  cases event.update? <;> rfl

/-- Where a subscriber is after a run. -/
def Follows (config : WebAPIConfig) (events : List (StreamEvent J)) (i : ℕ) (sub : Subscriber J) : Prop :=
  ∃ before subscription after joined taken, events = before ++ .join subscription :: after ∧
    exec (WebAPI.step config) {} before = some joined ∧ joined.subscribers.length = i ∧ sub.subscription = subscription ∧
    Streams (subscription.snapshot config joined.caches) (updates after) taken sub ∧
    (lost taken).length ≤ cuts config i {} events

theorem Follows.step (h : Follows config events i sub) (run : exec (WebAPI.step config) {} events = some service)
    (there : service.subscribers[i]? = some sub) (moves : Moves config event sub sub') :
    Follows config (events ++ [event]) i sub' := by
  obtain ⟨before, subscription, after, joined, taken, split, ran, number, subscribed, streams, given⟩ := h
  have split' : events ++ [event] = before ++ .join subscription :: (after ++ [event]) := by
    rw [split, List.append_assoc]
    rfl
  have more : cuts config i {} events ≤ cuts config i {} (events ++ [event]) := by
    rw [cuts_snoc run]
    omega
  have given' := Nat.le_trans given more
  have quiet (none : event.update? = none) : updates (after ++ [event]) = updates after := by
    rw [updates_snoc, none]
    exact List.append_nil _
  have subscribed' := moves.subscription.trans subscribed
  cases moves with
  | broadcast is same =>
    refine ⟨before, subscription, after ++ [event], joined, taken, split', ran, number, subscribed', ?_, given'⟩
    rw [updates_snoc, is, same]
    exact streams.broadcast
  | shutdown is same =>
    obtain ⟨taken', streams', given''⟩ : ∃ taken', Streams _ _ taken' (sub.shutdown config) ∧
        (lost taken').length ≤ (lost taken).length + if sub.registered = true ∧ sub.Full config then 1 else 0 :=
      streams.shutdown
    refine ⟨before, subscription, after ++ [event], joined, taken', split', ran, number, subscribed', ?_, ?_⟩
    · rw [quiet (by rw [is]; rfl), same]
      exact streams'
    · have cut : event.cuts config i service = if sub.registered = true ∧ sub.Full config then 1 else 0 := by
        rw [is]
        unfold StreamEvent.cuts
        dsimp only
        rw [there]
      rw [cuts_snoc run, cut]
      omega
  | next none step =>
    obtain ⟨taken', streams', given''⟩ := streams.next step
    refine ⟨before, subscription, after ++ [event], joined, taken', split', ran, number, subscribed', ?_,
      Nat.le_trans given'' given'⟩
    rw [quiet none]
    exact streams'
  | disconnect none step =>
    refine ⟨before, subscription, after ++ [event], joined, taken, split', ran, number, subscribed', ?_, given'⟩
    rw [quiet none]
    exact streams.disconnect step
  | stays none same =>
    subst same
    refine ⟨before, subscription, after ++ [event], joined, taken, split', ran, number, subscribed, ?_, given'⟩
    rw [quiet none]
    exact streams

/-- Every subscriber of a run follows it. -/
theorem follows (run : exec (WebAPI.step config) {} events = some service) (there : service.subscribers[i]? = some sub) :
    Follows config events i sub := by
  induction events using List.reverseRecOn generalizing service sub with
  | nil =>
    cases run
    cases there
  | append_singleton events event ih =>
    rw [exec_append] at run
    obtain ⟨mid, ran, last⟩ := Option.bind_eq_some_iff.1 run
    obtain ⟨after, step, rest⟩ := exec_cons_eq_some.1 last
    cases rest
    rcases subscriber_step step there with ⟨sub', found, moves⟩ | ⟨subscription, rfl, number, rfl⟩
    · exact (ih ran found).step ran found moves
    · exact ⟨events, subscription, [], mid, [], rfl, ran, number, rfl, streams_start, Nat.zero_le _⟩

end SensorKit.Webapi
