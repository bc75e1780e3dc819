import SensorKit.Common.FanOut
import SensorKit.Lib.Paired

/-!
# What subscribers receive

What a subscriber has received and has queued are values given to it, in order: all but the oldest ones where the oldest
are dropped, and an initial stretch where overflow closes the subscription. The counter has what is missing.
-/

namespace SensorKit.Common

open Lib

namespace FanOut

variable {α : Type} {s s' : FanOutSubscriber α} {l l' : Ledger α} {value item : α} {n i : ℕ}
  {subscribers : List (FanOutSubscriber α)} {ledgers : List (Ledger α)} {fan fan' : FanOut α} {queue : BoundedQueue α}

/-- What a subscriber has received, what is queued for it, and what closing the observer discarded. -/
def content (s : FanOutSubscriber α) (l : Ledger α) : List α :=
  l.received ++ s.queue.items ++ l.cleared

/-- The delivery to one subscriber: by its policy, it misses the oldest values or the last ones. -/
structure Delivered (s : FanOutSubscriber α) (l : Ledger α) : Prop where
  dropOldest : s.overflow = .dropOldest → (content s l).Sublist l.given ∧ (content s l).getLast? = l.given.getLast?
  close : s.overflow = .close → content s l <+: l.given ∧ (s.subscribed = true → content s l = l.given)

/-- What holds of a subscriber between calls. -/
structure Kept (s : FanOutSubscriber α) (l : Ledger α) : Prop extends Delivered s l where
  positive : 0 < s.queue.maxsize
  bounded : s.queue.items.length ≤ s.queue.maxsize
  unfinished : s.queue.unfinished = s.queue.items.length + s.held
  live : s.subscribed = true → s.queue.isShutdown = false ∧ l.cleared = []

theorem Delivered.length_le (delivered : Delivered s l) : (content s l).length ≤ l.given.length := by
  cases policy : s.overflow with
  | dropOldest => exact (delivered.dropOldest policy).1.length_le
  | close => exact (delivered.close policy).1.length_le

/-- A call that leaves what a subscriber has received or will. -/
theorem Delivered.of_content (delivered : Delivered s l) (content_ : content s' l' = content s l) (given : l'.given = l.given)
    (policy : s'.overflow = s.overflow) (subscribed : s'.subscribed = true → s.subscribed = true) : Delivered s' l' where
  dropOldest is := by
    rw [content_, given]
    exact delivered.dropOldest (policy ▸ is)
  close is := by
    rw [content_, given]
    obtain ⟨prefix_, whole⟩ := delivered.close (policy ▸ is)
    exact ⟨prefix_, fun still => whole (subscribed still)⟩

theorem overflowed_eq (content_ : content s' l' = content s l) (given : l'.given = l.given) :
    overflowed s' l' = overflowed s l := by
  show l'.given.length - (content s' l').length = l.given.length - (content s l).length
  rw [content_, given]

theorem given_note : (l.note value).given = l.given ++ [value] := by
  show l.initial ++ (l.notified ++ [value]) = _
  rw [← List.append_assoc]
  rfl

/-! ## A notification -/

theorem turn_eq_room (running : s.queue.isShutdown = false) (room : s.queue.items.length < s.queue.maxsize) :
    FanOutObserver.turn value s = .ok ({ s with queue := { s.queue with
      items := s.queue.items ++ [value], unfinished := s.queue.unfinished + 1 } }, 0) := by
  unfold FanOutObserver.turn BoundedQueue.putNowait
  rw [if_neg (by rw [running]; exact Bool.false_ne_true), if_neg (by omega)]

/-- The queue has room. -/
theorem turn_room (value : α) (kept : Kept s l) (subscribed : s.subscribed = true) (room : s.queue.items.length < s.queue.maxsize) :
    ∃ s', FanOutObserver.turn value s = .ok (s', 0) ∧ Kept s' (l.note value) ∧
      overflowed s' (l.note value) = overflowed s l := by
  obtain ⟨running, cleared⟩ := kept.live subscribed
  refine ⟨_, turn_eq_room running room, ?_⟩
  have content_ : content ({ s with queue := { s.queue with
        items := s.queue.items ++ [value], unfinished := s.queue.unfinished + 1 } }) (l.note value) =
      content s l ++ [value] := by
    show l.received ++ (s.queue.items ++ [value]) ++ l.cleared = l.received ++ s.queue.items ++ l.cleared ++ [value]
    rw [cleared, List.append_nil, List.append_nil, List.append_assoc]
  have le := kept.length_le
  refine ⟨⟨⟨fun policy => ?_, fun policy => ?_⟩, kept.positive, ?_, ?_, fun _ => ⟨running, cleared⟩⟩, ?_⟩
  · rw [content_, given_note]
    exact ⟨(kept.dropOldest policy).1.append (List.Sublist.refl [value]), by simp⟩
  · have whole := (kept.close policy).2 subscribed
    rw [content_, given_note, whole]
    exact ⟨List.prefix_rfl, fun _ => rfl⟩
  · show (s.queue.items ++ [value]).length ≤ s.queue.maxsize
    rw [List.length_append, List.length_singleton]
    omega
  · show s.queue.unfinished + 1 = (s.queue.items ++ [value]).length + s.held
    rw [kept.unfinished, List.length_append, List.length_singleton]
    omega
  · show (l.note value).given.length - (content _ (l.note value)).length = l.given.length - (content s l).length
    rw [content_, given_note, List.length_append, List.length_append, List.length_singleton]
    omega

theorem putNowait_full (running : queue.isShutdown = false) (full : queue.maxsize ≤ queue.items.length) :
    queue.putNowait value = .error .queueFull := by
  unfold BoundedQueue.putNowait
  rw [if_neg (by rw [running]; exact Bool.false_ne_true), if_pos full]

theorem turn_eq_dropOldest {oldest : α} {rest : List α} (running : s.queue.isShutdown = false)
    (full : s.queue.maxsize = rest.length + 1) (policy : s.overflow = .dropOldest) (held : s.queue.items = oldest :: rest)
    (unfinished : s.queue.unfinished ≠ 0) : FanOutObserver.turn value s = .ok ({ s with queue := { s.queue with
      items := rest ++ [value], unfinished := s.queue.unfinished - 1 + 1 } }, 1) := by
  unfold FanOutObserver.turn
  rw [putNowait_full running (by rw [held, List.length_cons]; omega), policy]
  dsimp only
  unfold BoundedQueue.getNowait
  rw [held]
  show (BoundedQueue.taskDone { s.queue with items := rest } >>= _) = _
  unfold BoundedQueue.taskDone
  rw [if_neg unfinished]
  show (BoundedQueue.putNowait { s.queue with items := rest, unfinished := s.queue.unfinished - 1 } value >>= _) = _
  unfold BoundedQueue.putNowait
  rw [if_neg (by show s.queue.isShutdown ≠ true; rw [running]; exact Bool.false_ne_true),
    if_neg (by show ¬ s.queue.maxsize ≤ rest.length; omega)]
  rfl

/-- A full queue gives up its oldest value. -/
theorem turn_dropOldest (value : α) (kept : Kept s l) (subscribed : s.subscribed = true) (full : s.queue.maxsize ≤ s.queue.items.length)
    (policy : s.overflow = .dropOldest) : ∃ s', FanOutObserver.turn value s = .ok (s', 1) ∧
      Kept s' (l.note value) ∧ overflowed s' (l.note value) = overflowed s l + 1 := by
  obtain ⟨running, cleared⟩ := kept.live subscribed
  have positive := kept.positive
  have unfinished := kept.unfinished
  have bounded := kept.bounded
  cases held : s.queue.items with
  | nil =>
    rw [held, List.length_nil] at full
    omega
  | cons oldest rest =>
    rw [held, List.length_cons] at full unfinished bounded
    refine ⟨_, turn_eq_dropOldest running (by omega) policy held (by omega), ?_⟩
    have content_ : content s l = l.received ++ oldest :: rest := by
      unfold content
      rw [cleared, List.append_nil, held]
    have content' : content ({ s with queue := { s.queue with
        items := rest ++ [value], unfinished := s.queue.unfinished - 1 + 1 } }) (l.note value) =
        l.received ++ rest ++ [value] := by
      show l.received ++ (rest ++ [value]) ++ l.cleared = _
      rw [cleared, List.append_nil, List.append_assoc]
    have sublist := (kept.dropOldest policy).1
    rw [content_] at sublist
    have shorter : (l.received ++ rest).Sublist l.given :=
      ((List.sublist_cons_self oldest rest).append_left l.received).trans sublist
    refine ⟨⟨⟨fun _ => ?_, fun other => ?_⟩, positive, ?_, ?_, fun _ => ⟨running, cleared⟩⟩, ?_⟩
    · rw [content', given_note]
      exact ⟨shorter.append (List.Sublist.refl [value]), by simp⟩
    · exact absurd (policy.symm.trans other) (by decide)
    · show (rest ++ [value]).length ≤ s.queue.maxsize
      rw [List.length_append, List.length_singleton]
      omega
    · show s.queue.unfinished - 1 + 1 = (rest ++ [value]).length + s.held
      rw [List.length_append, List.length_singleton]
      omega
    · show (l.note value).given.length - (content _ (l.note value)).length =
        l.given.length - (content s l).length + 1
      have le := sublist.length_le
      rw [List.length_append, List.length_cons] at le
      rw [content', content_, given_note]
      simp only [List.length_append, List.length_cons, List.length_nil]
      omega

/-- A full queue is closed, with what is pending in it. -/
theorem turn_close (value : α) (kept : Kept s l) (subscribed : s.subscribed = true) (full : s.queue.maxsize ≤ s.queue.items.length)
    (policy : s.overflow = .close) : ∃ s', FanOutObserver.turn value s = .ok (s', s.queue.items.length + 1) ∧
      Kept s' (l.note value) ∧ overflowed s' (l.note value) = overflowed s l + (s.queue.items.length + 1) := by
  obtain ⟨running, cleared⟩ := kept.live subscribed
  have turns : FanOutObserver.turn value s =
      .ok ({ s with subscribed := false, queue := s.queue.shutdown true }, s.queue.items.length + 1) := by
    unfold FanOutObserver.turn
    rw [putNowait_full running full, policy]
  refine ⟨_, turns, ?_⟩
  have whole := (kept.close policy).2 subscribed
  have content' : content ({ s with subscribed := false, queue := s.queue.shutdown true }) (l.note value) = l.received := by
    show l.received ++ [] ++ l.cleared = l.received
    rw [cleared, List.append_nil, List.append_nil]
  have given : l.given = l.received ++ s.queue.items := by
    rw [← whole]
    unfold content
    rw [cleared, List.append_nil]
  refine ⟨⟨⟨fun other => ?_, fun _ => ⟨?_, fun still => ?_⟩⟩, kept.positive, Nat.zero_le _, ?_, fun still => ?_⟩, ?_⟩
  · exact absurd (policy.symm.trans other) (by decide)
  · rw [content', given_note, given, List.append_assoc]
    exact List.prefix_append _ _
  · cases still
  · show s.queue.unfinished - s.queue.items.length = 0 + s.held
    rw [kept.unfinished]
    omega
  · cases still
  · show (l.note value).given.length - (content _ (l.note value)).length =
      l.given.length - (content s l).length + (s.queue.items.length + 1)
    rw [content', whole, given_note, given]
    simp only [List.length_append, List.length_cons, List.length_nil]
    omega

/-- A turn of the loop returns, and counts what the subscriber misses by it. -/
theorem turn_kept (value : α) (kept : Kept s l) (subscribed : s.subscribed = true) :
    ∃ s' n, FanOutObserver.turn value s = .ok (s', n) ∧ Kept s' (l.note value) ∧
      overflowed s' (l.note value) = overflowed s l + n := by
  by_cases room : s.queue.items.length < s.queue.maxsize
  · obtain ⟨s', turns, kept', same⟩ := turn_room value kept subscribed room
    exact ⟨s', 0, turns, kept', same⟩
  · cases policy : s.overflow with
    | dropOldest =>
      obtain ⟨s', turns, kept', counts⟩ := turn_dropOldest value kept subscribed (by omega) policy
      exact ⟨s', 1, turns, kept', counts⟩
    | close =>
      obtain ⟨s', turns, kept', counts⟩ := turn_close value kept subscribed (by omega) policy
      exact ⟨s', _, turns, kept', counts⟩

/-- The loop of a notification returns, and counts what the subscribers miss by it. -/
theorem notifyEach_kept (value : α) (all : List.Forall₂ Kept subscribers ledgers) :
    ∃ subscribers' n, FanOutObserver.notifyEach value subscribers = .ok (subscribers', n) ∧
      List.Forall₂ Kept subscribers' (noteNotified value subscribers ledgers) ∧
      sumPairs overflowed subscribers' (noteNotified value subscribers ledgers) =
        sumPairs overflowed subscribers ledgers + n := by
  induction all with
  | nil => exact ⟨[], 0, rfl, .nil, rfl⟩
  | @cons s l subscribers ledgers kept _ ih =>
    obtain ⟨rest, more, each, all', counts⟩ := ih
    unfold noteNotified at all' counts
    have here : ∃ s' n, FanOutObserver.visit value s = .ok (s', n) ∧ Kept s' (if s.subscribed then l.note value else l) ∧
        overflowed s' (if s.subscribed then l.note value else l) = overflowed s l + n := by
      unfold FanOutObserver.visit
      by_cases subscribed : s.subscribed = true
      · rw [if_pos subscribed, if_pos subscribed]
        exact turn_kept value kept subscribed
      · rw [if_neg subscribed, if_neg subscribed]
        exact ⟨s, 0, rfl, kept, rfl⟩
    obtain ⟨s', n, turns, kept', count⟩ := here
    refine ⟨s' :: rest, n + more, ?_, .cons kept' all', ?_⟩
    · unfold FanOutObserver.notifyEach
      rw [turns]
      show (FanOutObserver.notifyEach value subscribers >>= _) = _
      rw [each]
      rfl
    · unfold noteNotified
      rw [List.zipWith_cons_cons, sumPairs_cons, sumPairs_cons, counts, count]
      omega

/-! ## The other calls -/

theorem unsubscribed_kept (kept : Kept s l) : Kept { s with subscribed := false, queue := s.queue.shutdown false } l where
  toDelivered := kept.toDelivered.of_content rfl rfl rfl fun still => (by cases still)
  positive := kept.positive
  bounded := kept.bounded
  unfinished := kept.unfinished
  live still := by cases still

theorem closed_kept (kept : Kept s l) :
    Kept (if s.subscribed then { s with subscribed := false, queue := s.queue.shutdown true } else s)
        (if s.subscribed then { l with cleared := s.queue.items } else l) ∧
      overflowed (if s.subscribed then { s with subscribed := false, queue := s.queue.shutdown true } else s)
        (if s.subscribed then { l with cleared := s.queue.items } else l) = overflowed s l := by
  by_cases subscribed : s.subscribed = true
  · rw [if_pos subscribed, if_pos subscribed]
    obtain ⟨-, cleared⟩ := kept.live subscribed
    have content_ : content ({ s with subscribed := false, queue := s.queue.shutdown true } : FanOutSubscriber α)
        { l with cleared := s.queue.items } = content s l := by
      show l.received ++ [] ++ s.queue.items = l.received ++ s.queue.items ++ l.cleared
      rw [cleared, List.append_nil, List.append_nil]
    refine ⟨⟨kept.toDelivered.of_content content_ rfl rfl fun still => (by cases still), kept.positive, Nat.zero_le _, ?_,
      fun still => (by cases still)⟩, overflowed_eq content_ rfl⟩
    show s.queue.unfinished - s.queue.items.length = 0 + s.held
    rw [kept.unfinished]
    omega
  · rw [if_neg subscribed, if_neg subscribed]
    exact ⟨kept, rfl⟩

theorem taken_kept (kept : Kept s l) (taken : s.queue.getNowait = .ok (item, queue)) :
    Kept { s with queue, held := s.held + 1 } { l with received := l.received ++ [item] } ∧
      overflowed { s with queue, held := s.held + 1 } { l with received := l.received ++ [item] } = overflowed s l := by
  unfold BoundedQueue.getNowait at taken
  cases held : s.queue.items with
  | nil =>
    rw [held] at taken
    cases taken
  | cons first rest =>
    rw [held] at taken
    cases taken
    have content_ : content ({ s with queue := { s.queue with items := rest }, held := s.held + 1 } : FanOutSubscriber α)
        { l with received := l.received ++ [item] } = content s l := by
      show l.received ++ [item] ++ rest ++ l.cleared = l.received ++ s.queue.items ++ l.cleared
      rw [held, List.append_assoc l.received, List.singleton_append]
    have bounded := kept.bounded
    have unfinished := kept.unfinished
    rw [held, List.length_cons] at bounded unfinished
    refine ⟨⟨kept.toDelivered.of_content content_ rfl rfl id, kept.positive, ?_, ?_, kept.live⟩, overflowed_eq content_ rfl⟩
    · show rest.length ≤ s.queue.maxsize
      omega
    · show s.queue.unfinished = rest.length + (s.held + 1)
      omega

theorem done_kept (kept : Kept s l) (holds : s.held ≠ 0) (done : s.queue.taskDone = .ok queue) :
    Kept { s with queue, held := s.held - 1 } l ∧ overflowed { s with queue, held := s.held - 1 } l = overflowed s l := by
  unfold BoundedQueue.taskDone at done
  split at done
  · cases done
  · cases done
    refine ⟨⟨kept.toDelivered.of_content rfl rfl rfl id, kept.positive, kept.bounded, ?_, kept.live⟩, rfl⟩
    show s.queue.unfinished - 1 = s.queue.items.length + (s.held - 1)
    rw [kept.unfinished]
    omega

/-- What a call to `subscribe` that returns has made. -/
theorem subscribe_eq_ok {observer observer' : FanOutObserver α} {initialValue : Bool} {maxsize : ℤ} {overflow : OverflowPolicy}
    (returns : observer.subscribe initialValue maxsize overflow = .ok observer') : 0 < maxsize ∧ observer.closed = false ∧
      observer' = { observer with subscribers := observer.subscribers ++ [{
        queue := { maxsize := maxsize.toNat, items := if initialValue then observer.value.toList else [],
                   unfinished := (if initialValue then observer.value.toList else []).length }
        overflow }] } := by
  unfold FanOutObserver.subscribe at returns
  by_cases closed : observer.closed = true
  · rw [if_pos closed] at returns
    cases returns
  rw [if_neg closed] at returns
  by_cases small : maxsize < 1
  · rw [if_pos small] at returns
    cases returns
  rw [if_neg small] at returns
  refine ⟨by omega, Bool.not_eq_true _ ▸ closed, ?_⟩
  cases value_ : observer.value with
  | none =>
    rw [value_] at returns
    cases returns
    cases initialValue <;> rfl
  | some value =>
    rw [value_] at returns
    cases initialValue with
    | false =>
      cases returns
      rfl
    | true =>
      have put : BoundedQueue.putNowait { maxsize := maxsize.toNat } value =
          .ok { maxsize := maxsize.toNat, items := [value], unfinished := 1 } := by
        unfold BoundedQueue.putNowait
        rw [if_neg Bool.false_ne_true, if_neg (by show ¬ maxsize.toNat ≤ 0; omega)]
        rfl
      dsimp only at returns
      rw [if_pos rfl, put] at returns
      cases returns
      rfl

theorem subscribed_kept {initial : List α} {maxsize : ℤ} (overflow : OverflowPolicy) (positive : 0 < maxsize)
    (short : initial.length ≤ 1) :
    Kept { queue := { maxsize := maxsize.toNat, items := initial, unfinished := initial.length }, overflow } { initial } ∧
      overflowed { queue := { maxsize := maxsize.toNat, items := initial, unfinished := initial.length }, overflow }
        { initial } = 0 := by
  have content_ : content ({ queue := { maxsize := maxsize.toNat, items := initial, unfinished := initial.length }, overflow } :
      FanOutSubscriber α) { initial } = initial := List.append_nil _
  have given : ({ initial } : Ledger α).given = initial := List.append_nil _
  refine ⟨⟨⟨fun _ => ?_, fun _ => ?_⟩, ?_, ?_, rfl, fun _ => ⟨rfl, rfl⟩⟩, ?_⟩
  · rw [content_, given]
    exact ⟨List.Sublist.refl _, rfl⟩
  · rw [content_, given]
    exact ⟨List.prefix_rfl, fun _ => rfl⟩
  · show 0 < maxsize.toNat
    omega
  · show initial.length ≤ maxsize.toNat
    omega
  · show ({ initial } : Ledger α).given.length - (content _ _).length = 0
    rw [content_, given, Nat.sub_self]

/-! ## Histories -/

/-- What holds after any calls: each delivery, and the counter. -/
structure Sound (fan : FanOut α) : Prop where
  each : List.Forall₂ Kept fan.observer.subscribers fan.ledgers
  accounted : fan.observer.dropped = sumPairs overflowed fan.observer.subscribers fan.ledgers
  uncleared : fan.observer.closed = false → ∀ l ∈ fan.ledgers, l.cleared = []

theorem Sound.subscribe (sound : Sound fan) {initialValue : Bool} {maxsize : ℤ} {overflow : OverflowPolicy}
    (taken : fan.step (.subscribe initialValue maxsize overflow) = some fan') : Sound fan' := by
  obtain ⟨observer, returns, rfl⟩ := Option.map_eq_some_iff.1 taken
  obtain ⟨positive, -, rfl⟩ := subscribe_eq_ok (toOption_eq_some.1 returns)
  have short : (if initialValue then fan.observer.value.toList else []).length ≤ 1 := by
    split
    · cases fan.observer.value <;> simp
    · exact Nat.zero_le _
  obtain ⟨kept, none_⟩ := subscribed_kept overflow positive short
  obtain ⟨each, counts⟩ := pairs_snoc overflowed sound.each kept
  refine ⟨each, ?_, fun open_ l mem => ?_⟩
  · show fan.observer.dropped = _
    rw [counts, none_, Nat.add_zero, sound.accounted]
  · rcases mem_snoc.1 mem with mem | mem
    · exact sound.uncleared open_ l mem
    · rw [mem]

/-- A notification of an open observer returns. -/
theorem Sound.notify_returns (sound : Sound fan) (value : α) (open_ : fan.observer.closed = false) :
    ∃ subscribers dropped, fan.observer.notify value = .ok { fan.observer with
        subscribers, value := some value, dropped := fan.observer.dropped + dropped } ∧
      List.Forall₂ Kept subscribers (noteNotified value fan.observer.subscribers fan.ledgers) ∧
      sumPairs overflowed subscribers (noteNotified value fan.observer.subscribers fan.ledgers) =
        sumPairs overflowed fan.observer.subscribers fan.ledgers + dropped := by
  obtain ⟨subscribers, dropped, each, all, counts⟩ := notifyEach_kept value sound.each
  refine ⟨subscribers, dropped, ?_, all, counts⟩
  unfold FanOutObserver.notify
  rw [if_neg (by rw [open_]; exact Bool.false_ne_true)]
  show (FanOutObserver.notifyEach value fan.observer.subscribers >>= _) = _
  rw [each]
  rfl

theorem cleared_noteNotified (uncleared : ∀ l ∈ ledgers, l.cleared = []) :
    ∀ l ∈ noteNotified value subscribers ledgers, l.cleared = [] := by
  intro l mem
  obtain ⟨k, found⟩ := List.mem_iff_getElem?.1 mem
  unfold noteNotified at found
  rw [List.getElem?_zipWith] at found
  cases here : subscribers[k]? with
  | none =>
    rw [here] at found
    cases found
  | some s =>
    cases there : ledgers[k]? with
    | none =>
      rw [here, there] at found
      cases found
    | some l' =>
      rw [here, there] at found
      cases found
      have before := uncleared l' (mem_of_found there)
      split
      · exact before
      · exact before

section

variable (sound : Sound fan)
include sound

theorem Sound.notify (taken : fan.step (.notify value) = some fan') : Sound fan' := by
  obtain ⟨observer, returns, rfl⟩ := Option.map_eq_some_iff.1 taken
  have open_ : fan.observer.closed = false := by
    by_contra closed
    rw [Bool.not_eq_false] at closed
    unfold FanOutObserver.notify at returns
    rw [if_pos closed] at returns
    cases returns
  obtain ⟨subscribers, dropped, returns', each, counts⟩ := sound.notify_returns value open_
  rw [returns'] at returns
  cases returns
  refine ⟨each, ?_, fun _ => cleared_noteNotified (sound.uncleared open_)⟩
  show fan.observer.dropped + dropped = _
  rw [counts, sound.accounted]

theorem Sound.unsubscribe (taken : fan.step (.unsubscribe i) = some fan') : Sound fan' := by
  cases taken
  cases here : fan.observer.subscribers[i]? with
  | none =>
    have same : fan.observer.unsubscribe i = fan.observer := by
      unfold FanOutObserver.unsubscribe
      rw [List.modify_eq_self (List.getElem?_eq_none_iff.1 here)]
    rw [same]
    exact sound
  | some s =>
    have changed : fan.observer.unsubscribe i = { fan.observer with
        subscribers := fan.observer.subscribers.set i { s with subscribed := false, queue := s.queue.shutdown false } } := by
      unfold FanOutObserver.unsubscribe
      rw [List.modify_eq_set_getElem?, here]
      rfl
    obtain ⟨each, counts⟩ := pairs_set overflowed id sound.each here
      fun l kept => ⟨unsubscribed_kept kept, rfl⟩
    rw [List.modify_id] at each counts
    rw [changed]
    exact ⟨each, sound.accounted.trans counts.symm, sound.uncleared⟩

theorem Sound.close (taken : fan.step .close = some fan') : Sound fan' := by
  cases taken
  obtain ⟨each, counts⟩ := pairs_map overflowed sound.each fun s l kept => closed_kept kept
  refine ⟨each, sound.accounted.trans counts.symm, fun open_ => ?_⟩
  cases open_

theorem Sound.get (taken : fan.step (.get i) = some fan') : Sound fan' := by
  obtain ⟨⟨item, observer⟩, takes, rfl⟩ := Option.map_eq_some_iff.1 taken
  unfold FanOutObserver.get at takes
  cases here : fan.observer.subscribers[i]? with
  | none =>
    rw [here] at takes
    cases takes
  | some s =>
    rw [here] at takes
    dsimp only at takes
    cases got : s.queue.getNowait with
    | error error =>
      rw [got] at takes
      cases takes
    | ok result =>
      rw [got] at takes
      cases takes
      obtain ⟨each, counts⟩ := pairs_set overflowed _ sound.each here fun l kept => taken_kept kept got
      refine ⟨each, sound.accounted.trans counts.symm, fun open_ l mem => ?_⟩
      obtain ⟨k, found⟩ := List.mem_iff_getElem?.1 mem
      rw [List.getElem?_modify] at found
      obtain ⟨l', there, rfl⟩ := Option.map_eq_some_iff.1 found
      have before := sound.uncleared open_ l' (mem_of_found there)
      split
      · exact before
      · exact before

theorem Sound.done (taken : fan.step (.done i) = some fan') : Sound fan' := by
  obtain ⟨observer, marks, rfl⟩ := Option.map_eq_some_iff.1 taken
  unfold FanOutObserver.done at marks
  cases here : fan.observer.subscribers[i]? with
  | none =>
    rw [here] at marks
    cases marks
  | some s =>
    rw [here] at marks
    dsimp only at marks
    split at marks
    · cases marks
    · rename_i holds
      cases did : s.queue.taskDone with
      | error error =>
        rw [did] at marks
        cases marks
      | ok queue =>
        rw [did] at marks
        cases marks
        obtain ⟨each, counts⟩ := pairs_set overflowed id sound.each here
          fun l kept => done_kept kept holds did
        rw [List.modify_id] at each counts
        exact ⟨each, sound.accounted.trans counts.symm, sound.uncleared⟩

theorem Sound.step {call : ObserverCall α} (taken : fan.step call = some fan') : Sound fan' := by
  cases call with
  | subscribe initialValue maxsize overflow => exact sound.subscribe taken
  | notify value => exact sound.notify taken
  | unsubscribe i => exact sound.unsubscribe taken
  | close => exact sound.close taken
  | get i => exact sound.get taken
  | done i => exact sound.done taken

end

theorem sound_of_reaches {initialValue : Option α}
    (run : Reaches step always { observer := { value := initialValue } } fan) : Sound fan := by
  refine run.invariant ⟨.nil, rfl, fun _ l mem => absurd mem List.not_mem_nil⟩ fun fan call fan' sound _ taken => ?_
  exact sound.step taken

/-- **Delivery.** After any calls, a subscriber that drops the oldest values has received and queued a subsequence of what
was given to it that ends with the newest value, one that closes on overflow an initial stretch, and the counter has what
was given and lost to overflow. A notification of an open observer returns. -/
theorem delivery {initialValue : Option α} (run : Reaches step always { observer := { value := initialValue } } fan) :
    (∀ (i : ℕ) (s : FanOutSubscriber α) (l : Ledger α), fan.observer.subscribers[i]? = some s →
        fan.ledgers[i]? = some l → Delivered s l) ∧
      (fan.observer.closed = false → ∀ l ∈ fan.ledgers, l.cleared = []) ∧
      fan.observer.dropped = sumPairs overflowed fan.observer.subscribers fan.ledgers ∧
      (fan.observer.closed = false → ∀ value, ∃ observer, fan.observer.notify value = .ok observer) := by
  have sound := sound_of_reaches run
  refine ⟨fun i s l here there => (forall₂_get sound.each here there).toDelivered, sound.uncleared, sound.accounted,
    fun open_ value => ?_⟩
  obtain ⟨subscribers, dropped, returns, -⟩ := sound.notify_returns value open_
  exact ⟨_, returns⟩

/-- A subscriber for two values, of which the oldest are dropped, is notified of three. -/
def threeNotified : List (ObserverCall ℕ) :=
  [.subscribe true 2 .dropOldest, .notify 1, .get 0, .notify 2, .notify 3]

def afterThree : FanOut ℕ :=
  (exec step { observer := { value := some 0 } } threeNotified).getD {}

theorem delivery_example : afterThree.observer.dropped = sumPairs overflowed afterThree.observer.subscribers afterThree.ledgers ∧
    afterThree.observer.dropped = 1 :=
  have run : Reaches step always { observer := { value := some 0 } } afterThree :=
    reaches_of_exec (show exec step _ threeNotified = _ by decide +kernel) (okAlong_of_forall fun _ _ _ => trivial)
  ⟨(delivery run).2.2.1, by decide +kernel⟩

/-- Two values are dropped where one was notified, as the initial value counts; and what closing the observer discards is
not received, though the newest value is among it. -/
theorem initial_value_dropped :
    ((exec step { observer := { value := some 0 } } [.subscribe true 1 .close, .notify 1]).map fun fan =>
        (fan.observer.dropped, fan.ledgers.map Ledger.notified)) = some (2, [[1]]) ∧
      ((exec step { observer := { value := some 0 } } [.subscribe false 2 .dropOldest, .notify 1, .close]).map fun fan =>
        (fan.ledgers.map fun l => (l.notified, l.received), fan.observer.subscribers.map (·.queue.items))) =
          some ([([1], [])], [[]]) := by
  decide +kernel

end FanOut

end SensorKit.Common
