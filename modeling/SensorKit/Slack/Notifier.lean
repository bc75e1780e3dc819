import Mathlib.Tactic.Linarith
import SensorKit.Lib.Dict
import SensorKit.Lib.Run

/-!
# The deduplication of notifications

A rule with a window sends its first notification at once, and counts those that follow within the window. A loop goes over
the windows that have ended and reports what they counted; it waits for each report to be sent, and notifications come in
between.
-/

namespace SensorKit.Slack

open Lib

inductive SeverityLevel where
  | critical
  | warning
  | info
deriving DecidableEq, Repr

/-- What the deduplication reads of a rule. -/
structure NotificationRule where
  name : String
  severity : SeverityLevel := .info
  /-- Seconds. -/
  deduplicate : Option ℤ := none
deriving DecidableEq, Repr

/-- The window of a rule: one of no seconds is none. -/
def NotificationRule.window (rule : NotificationRule) : Option ℤ :=
  rule.deduplicate.filter (· ≠ 0)

/-- What is done with an attempt to notify, and what the loop reports. -/
inductive Entry where
  | sent (rule : NotificationRule) (time : ℚ)
  | suppressed (key : String)
  | consolidated (key : String) (additional : ℕ) (title : String) (severity : SeverityLevel)
deriving DecidableEq, Repr

/-- A window that the loop has found to have ended. -/
structure Expired where
  key : String
  count : ℕ
  title : String
  severity : SeverityLevel
deriving DecidableEq, Repr

instance {κ υ : Type} [DecidableEq κ] [DecidableEq υ] : DecidableEq (Dict κ υ) := fun d d' =>
  decidable_of_iff (d.entries = d'.entries) ⟨fun same => by cases d; cases d'; simp_all, fun same => same ▸ rfl⟩

structure SlackNotifier where
  /-- The first time, the count and the last title of each rule. -/
  dedupCache : Dict String (ℚ × ℕ × String) := .empty
  now : ℚ := 0
  /-- What the pass of the loop that is under way has yet to report. -/
  expired : List Expired := []
  log : List Entry := []
deriving DecidableEq

namespace SlackNotifier

variable (rules : List NotificationRule) (n : SlackNotifier)

/-- `_should_send`: whether the notification is sent, and the cache. -/
def shouldSend (rule : NotificationRule) (title : String) : Bool × Dict String (ℚ × ℕ × String) :=
  match rule.window with
  | none => (true, n.dedupCache)
  | some window =>
    match n.dedupCache.get? rule.name with
    | none => (true, n.dedupCache.insert rule.name (n.now, 1, title))
    | some (first, count, _) =>
      if window ≤ n.now - first then (true, n.dedupCache.insert rule.name (n.now, 1, title))
      else (false, n.dedupCache.insert rule.name (first, count + 1, title))

/-- `_send_event_notification` and `_send_state_notification`, from the check on. -/
def notify (rule : NotificationRule) (title : String) : SlackNotifier :=
  let (send, dedupCache) := n.shouldSend rule title
  { n with dedupCache, log := n.log ++ [if send then .sent rule n.now else .suppressed rule.name] }

/-- The entry of a window that has ended with notifications suppressed. -/
def expire (e : String × ℚ × ℕ × String) : Option Expired :=
  match rules.find? (·.name = e.1) with
  | none => none
  | some rule =>
    match rule.window with
    | none => none
    | some window =>
      if window ≤ n.now - e.2.1 ∧ 1 < e.2.2.1 then some ⟨e.1, e.2.2.1, e.2.2.2, rule.severity⟩ else none

/-- `_dedup_flush_loop` for one entry: `raises` is whether its message fails to be sent, which ends the pass. -/
def flush (x : Expired) (rest : List Expired) (raises : Bool) : SlackNotifier :=
  if (n.dedupCache.get? x.key).isSome then
    { n with
      dedupCache := n.dedupCache.erase x.key
      expired := if raises then [] else rest
      log := n.log ++ [.consolidated x.key (x.count - 1) x.title x.severity] }
  -- The key error of an entry that is gone.
  else { n with expired := [] }

end SlackNotifier

inductive Label where
  | notify (rule : NotificationRule) (title : String) (now : ℚ)
  | collect (now : ℚ)
  | flush (raises : Bool)
deriving DecidableEq, Repr

def SlackNotifier.step (rules : List NotificationRule) (n : SlackNotifier) : Label → Option SlackNotifier
  | .notify rule title now => if rule ∈ rules ∧ n.now ≤ now then some ({ n with now }.notify rule title) else none
  | .collect now =>
    if n.expired = [] ∧ n.now ≤ now then
      some { n with now, expired := n.dedupCache.entries.filterMap ({ n with now }.expire rules) }
    else none
  | .flush raises =>
    match n.expired with
    | [] => none
    | x :: rest => some (n.flush x rest raises)

/-- The window of the rule has ended with notifications that are still to be reported. -/
def SlackNotifier.unreported (n : SlackNotifier) (rule : NotificationRule) (now : ℚ) : Bool :=
  match rule.window, n.dedupCache.get? rule.name with
  | some window, some (first, count, _) => window ≤ now - first ∧ 1 < count
  | _, _ => false

/-- A notification does not come when the window of its rule has ended with others still to be reported. -/
def Timely (n : SlackNotifier) : Label → Prop
  | .notify rule _ now => n.unreported rule now = false
  | _ => True

instance decidableTimely (n : SlackNotifier) : (label : Label) → Decidable (Timely n label)
  | .notify rule _ now => inferInstanceAs (Decidable (n.unreported rule now = false))
  | .collect _ | .flush _ => isTrue trivial

/-! ## What is owed -/

def suppressed (key : String) (log : List Entry) : ℕ :=
  log.count (.suppressed key)

/-- How many suppressed notifications have been reported. -/
def reported (key : String) : List Entry → ℕ
  | [] => 0
  | .consolidated k additional _ _ :: log => (if k = key then additional else 0) + reported key log
  | _ :: log => reported key log

/-- How many are still to be reported. -/
def pending (key : String) (dedupCache : Dict String (ℚ × ℕ × String)) : ℕ :=
  match dedupCache.get? key with
  | some (_, count, _) => count - 1
  | none => 0

/-- What must hold of what came before: sends of one rule are its window apart, and a message reports all that has been
suppressed and not reported. -/
def Entry.Due (before : List Entry) : Entry → Prop
  | sent rule time => ∀ window, rule.window = some window → ∀ earlier, sent rule earlier ∈ before → earlier + window ≤ time
  | consolidated key additional _ _ => SensorKit.Slack.suppressed key before = reported key before + additional
  | _ => True

section Counts

variable {key k title : String} {log log' : List Entry} {dedupCache : Dict String (ℚ × ℕ × String)} {first : ℚ} {count : ℕ}

theorem suppressed_append : suppressed key (log ++ log') = suppressed key log + suppressed key log' :=
  List.count_append

theorem reported_append : reported key (log ++ log') = reported key log + reported key log' := by
  induction log with
  | nil => simp [reported]
  | cons e log ih => cases e <;> simp [reported, ih, Nat.add_assoc]

theorem pending_insert : pending key (dedupCache.insert k (first, count, title)) =
    if key = k then count - 1 else pending key dedupCache := by
  unfold pending
  rw [Dict.get?_insert]
  split_ifs <;> rfl

theorem pending_erase : pending key (dedupCache.erase k) = if key = k then 0 else pending key dedupCache := by
  unfold pending
  rw [Dict.get?_erase]
  split_ifs <;> rfl

end Counts

namespace SlackNotifier

variable {rules : List NotificationRule} {n n' : SlackNotifier} {rule rule' : NotificationRule} {title : String}

/-- What holds between two waits. -/
structure Sound (rules : List NotificationRule) (n : SlackNotifier) : Prop where
  due : Traced Entry.Due n.log
  counted : ∀ key, suppressed key n.log = reported key n.log + pending key n.dedupCache
  positive : ∀ key first count title, n.dedupCache.get? key = some (first, count, title) → 0 < count
  past : ∀ rule time, .sent rule time ∈ n.log → time ≤ n.now
  apart : ∀ rule window time, rule ∈ rules → rule.window = some window → .sent rule time ∈ n.log →
    (∀ first count title, n.dedupCache.get? rule.name = some (first, count, title) → time ≤ first) ∧
      (n.dedupCache.get? rule.name = none → time + window ≤ n.now)
  collected : ∀ x ∈ n.expired, ∃ rule ∈ rules, rule.name = x.key ∧ ∃ window first title, rule.window = some window ∧
    n.dedupCache.get? x.key = some (first, x.count, title) ∧ window ≤ n.now - first ∧ 1 < x.count
  keys : (n.expired.map Expired.key).Nodup

/-- **What a notification does**: it is sent and opens a window, if its rule has them, or is counted in the one there is. -/
theorem notify_cases (n : SlackNotifier) (rule : NotificationRule) (title : String) :
    (rule.window = none ∧ n.notify rule title = { n with log := n.log ++ [.sent rule n.now] }) ∨
    (∃ window, rule.window = some window ∧
      (∀ first count t, n.dedupCache.get? rule.name = some (first, count, t) → window ≤ n.now - first) ∧
      n.notify rule title = { n with
        dedupCache := n.dedupCache.insert rule.name (n.now, 1, title), log := n.log ++ [.sent rule n.now] }) ∨
    ∃ window first count t, rule.window = some window ∧ n.dedupCache.get? rule.name = some (first, count, t) ∧
      ¬ window ≤ n.now - first ∧ n.notify rule title = { n with
        dedupCache := n.dedupCache.insert rule.name (first, count + 1, title), log := n.log ++ [.suppressed rule.name] } := by
  unfold notify shouldSend
  cases window : rule.window with
  | none => exact .inl ⟨rfl, rfl⟩
  | some w =>
    refine .inr ?_
    cases here : n.dedupCache.get? rule.name with
    | none => exact .inl ⟨w, rfl, by simp, rfl⟩
    | some entry =>
      obtain ⟨first, count, t⟩ := entry
      by_cases gone : w ≤ n.now - first
      · simp only [if_pos gone]
        exact .inl ⟨w, rfl, by simp_all, rfl⟩
      · simp only [if_neg gone]
        exact .inr ⟨w, first, count, t, rfl, rfl, gone, rfl⟩

theorem rule_unique (names : (rules.map NotificationRule.name).Nodup) (mem : rule ∈ rules) (mem' : rule' ∈ rules)
    (same : rule.name = rule'.name) : rule = rule' :=
  List.inj_on_of_nodup_map names mem mem' same

/-- Time goes on. -/
theorem Sound.advance {now : ℚ} (h : Sound rules n) (later : n.now ≤ now) : Sound rules { n with now } where
  due := h.due
  counted := h.counted
  positive := h.positive
  past rule time sent := (h.past rule time sent).trans later
  apart rule window time mem windowed sent := by
    obtain ⟨within, past⟩ := h.apart rule window time mem windowed sent
    exact ⟨within, fun none => (past none).trans later⟩
  collected x mem := by
    obtain ⟨rule, mem, name, window, first, title, windowed, here, gone, more⟩ := h.collected x mem
    exact ⟨rule, mem, name, window, first, title, windowed, here, gone.trans (sub_le_sub_right later first), more⟩
  keys := h.keys

theorem Sound.notify (h : Sound rules n) (names : (rules.map NotificationRule.name).Nodup) (mem : rule ∈ rules)
    (timely : n.unreported rule n.now = false) : Sound rules (n.notify rule title) := by
  have timely (window : ℤ) (first : ℚ) (count : ℕ) (t : String) (windowed : rule.window = some window)
      (here : n.dedupCache.get? rule.name = some (first, count, t)) (gone : window ≤ n.now - first) : count ≤ 1 := by
    simp only [unreported, windowed, here, decide_eq_false_iff_not, not_and] at timely
    exact Nat.le_of_not_lt (timely gone)
  rcases n.notify_cases rule title with ⟨none, eq⟩ | ⟨window, windowed, gone, eq⟩ |
    ⟨window, first, count, t, windowed, here, within, eq⟩
  · -- A rule without a window leaves the cache alone.
    rw [eq]
    refine ⟨h.due.snoc fun window windowed => ?_, fun key => ?_, h.positive, fun rule' time sent => ?_,
      fun rule' window time mem' windowed sent => ?_, h.collected, h.keys⟩
    · simp [none] at windowed
    · simpa [suppressed_append, reported_append, suppressed, reported] using h.counted key
    · rcases List.mem_append.1 sent with sent | new
      · exact h.past rule' time sent
      · simp_all
    · rcases List.mem_append.1 sent with sent | new
      · exact h.apart rule' window time mem' windowed sent
      · simp_all
  · rw [eq]
    have idle : pending rule.name n.dedupCache = 0 := by
      unfold pending
      cases here : n.dedupCache.get? rule.name with
      | none => rfl
      | some entry =>
        obtain ⟨first, count, t⟩ := entry
        exact Nat.sub_eq_zero_of_le (timely window first count t windowed here (gone first count t here))
    refine ⟨h.due.snoc fun window' windowed' earlier sent => ?_, fun key => ?_, fun key first count t here => ?_,
      fun rule' time sent => ?_, fun rule' window' time mem' windowed' sent => ?_, fun x mem' => ?_, h.keys⟩
    · obtain ⟨within, past⟩ := h.apart rule window' earlier mem windowed' sent
      obtain rfl : window = window' := Option.some.inj (windowed.symm.trans windowed')
      cases here : n.dedupCache.get? rule.name with
      | none => exact past here
      | some entry =>
        have := within entry.1 entry.2.1 entry.2.2 here
        have := gone entry.1 entry.2.1 entry.2.2 here
        linarith
    · have counted := h.counted key
      by_cases same : key = rule.name
      · subst same
        simpa [suppressed_append, reported_append, suppressed, reported, pending_insert, idle] using counted
      · simpa [suppressed_append, reported_append, suppressed, reported, pending_insert, same] using counted
    · rw [Dict.get?_insert] at here
      split_ifs at here
      · cases here
        exact Nat.one_pos
      · exact h.positive key first count t here
    · rcases List.mem_append.1 sent with sent | new
      · exact h.past rule' time sent
      · simp_all
    · rw [Dict.get?_insert]
      split_ifs with same
      · refine ⟨fun first count t here => ?_, by simp⟩
        cases here
        rcases List.mem_append.1 sent with sent | new
        · exact h.past rule' time sent
        · simp_all
      · rcases List.mem_append.1 sent with sent | new
        · exact h.apart rule' window' time mem' windowed' sent
        · simp_all
    · obtain ⟨rule', mem', name, window', first, t, windowed', here, gone', more⟩ := h.collected x mem'
      by_cases same : x.key = rule.name
      · obtain rfl := rule_unique names mem' mem (name.trans same)
        have := timely window' first x.count t windowed' (name ▸ here) gone'
        omega
      · refine ⟨rule', mem', name, window', first, t, windowed', ?_, gone', more⟩
        rwa [Dict.get?_insert_of_ne same]
  · rw [eq]
    have positive := h.positive _ _ _ _ here
    refine ⟨h.due.snoc trivial, fun key => ?_, fun key first' count' t' here' => ?_, fun rule' time sent => ?_,
      fun rule' window' time mem' windowed' sent => ?_, fun x mem' => ?_, h.keys⟩
    · have counted := h.counted key
      by_cases same : key = rule.name
      · subst same
        have before : pending rule.name n.dedupCache = count - 1 := by simp [pending, here]
        simp [reported_append, pending_insert, suppressed, reported] at counted ⊢
        omega
      · simpa [suppressed_append, reported_append, suppressed, reported, pending_insert, same, Ne.symm same] using counted
    · rw [Dict.get?_insert] at here'
      split_ifs at here'
      · cases here'
        exact Nat.succ_pos count
      · exact h.positive key first' count' t' here'
    · exact h.past rule' time (by simpa using sent)
    · obtain ⟨below, past⟩ := h.apart rule' window' time mem' windowed' (by simpa using sent)
      rw [Dict.get?_insert]
      split_ifs with same
      · refine ⟨fun first' count' t' here' => ?_, by simp⟩
        cases here'
        exact below first count t (same ▸ here)
      · exact ⟨below, past⟩
    · obtain ⟨rule', mem', name, window', first', t', windowed', here', gone', more⟩ := h.collected x mem'
      by_cases same : x.key = rule.name
      · obtain rfl := rule_unique names mem' mem (name.trans same)
        rw [same, here] at here'
        cases here'
        exact absurd (Option.some.inj (windowed.symm.trans windowed') ▸ gone') within
      · refine ⟨rule', mem', name, window', first', t', windowed', ?_, gone', more⟩
        rwa [Dict.get?_insert_of_ne same]

/-- **The windows that a pass reports** are those that have ended with notifications suppressed. -/
theorem mem_expire {e : String × ℚ × ℕ × String} {x : Expired} (found : n.expire rules e = some x) :
    ∃ rule ∈ rules, rule.name = e.1 ∧ ∃ window, rule.window = some window ∧ window ≤ n.now - e.2.1 ∧ 1 < e.2.2.1 ∧
      x = ⟨e.1, e.2.2.1, e.2.2.2, rule.severity⟩ := by
  unfold expire at found
  cases here : rules.find? (·.name = e.1) with
  | none => simp [here] at found
  | some rule =>
    cases windowed : rule.window with
    | none => simp [here, windowed] at found
    | some window =>
      simp only [here, windowed] at found
      obtain ⟨⟨gone, more⟩, rfl⟩ : (window ≤ n.now - e.2.1 ∧ 1 < e.2.2.1) ∧ _ = x := by
        simpa only [Option.ite_none_right_eq_some, Option.some.injEq] using found
      exact ⟨rule, List.mem_of_find?_eq_some here, by simpa using List.find?_some here, window, windowed, gone, more, rfl⟩

theorem Sound.collect (h : Sound rules n) :
    Sound rules { n with expired := n.dedupCache.entries.filterMap (n.expire rules) } where
  due := h.due
  counted := h.counted
  positive := h.positive
  past := h.past
  apart := h.apart
  collected x mem := by
    obtain ⟨⟨key, first, count, t⟩, listed, found⟩ := List.mem_filterMap.1 mem
    obtain ⟨rule, known, name, window, windowed, gone, more, rfl⟩ := mem_expire found
    exact ⟨rule, known, name, window, first, t, windowed, Dict.get?_eq_some.2 listed, gone, more⟩
  keys := by
    refine List.pairwise_map.2 (List.pairwise_filterMap.2 ((List.pairwise_map.1 n.dedupCache.nodup).imp ?_))
    intro e e' other x found x' found'
    obtain ⟨-, -, -, -, -, -, -, rfl⟩ := mem_expire found
    obtain ⟨-, -, -, -, -, -, -, rfl⟩ := mem_expire found'
    exact other

theorem Sound.flush {x : Expired} {rest : List Expired} {raises : Bool} (h : Sound rules n)
    (names : (rules.map NotificationRule.name).Nodup) (next : n.expired = x :: rest) :
    Sound rules (n.flush x rest raises) := by
  obtain ⟨rule, mem, name, window, first, t, windowed, here, gone, more⟩ := h.collected x (by simp [next])
  have keys := h.keys
  rw [next, List.map_cons] at keys
  obtain ⟨fresh, keys⟩ := List.nodup_cons.1 keys
  have before : pending x.key n.dedupCache = x.count - 1 := by simp [pending, here]
  unfold SlackNotifier.flush
  rw [if_pos (by simp [here])]
  refine ⟨h.due.snoc ?_, fun key => ?_, fun key first count t there => ?_, fun rule time sent => ?_,
    fun rule' window' time mem' windowed' sent => ?_, fun y listed => ?_, ?_⟩
  · rw [← before]
    exact h.counted x.key
  · have counted := h.counted key
    by_cases same : key = x.key
    · subst same
      simpa [suppressed_append, reported_append, suppressed, reported, pending_erase, before] using counted
    · simpa [suppressed_append, reported_append, suppressed, reported, pending_erase, same, Ne.symm same] using counted
  · rw [Dict.get?_erase] at there
    split_ifs at there
    exact h.positive key first count t there
  · exact h.past rule time (by simpa using sent)
  · obtain ⟨below, past⟩ := h.apart rule' window' time mem' windowed' (by simpa using sent)
    rw [Dict.get?_erase]
    by_cases same : rule'.name = x.key
    · rw [if_pos same]
      refine ⟨by simp, fun _ => ?_⟩
      obtain rfl := rule_unique names mem' mem (same.trans name.symm)
      obtain rfl : window = window' := Option.some.inj (windowed.symm.trans windowed')
      have := below first x.count t (same ▸ here)
      linarith
    · rw [if_neg same]
      exact ⟨below, past⟩
  · have listed : y ∈ rest := by
      cases raises <;> simp_all
    obtain ⟨rule', mem', name', window', first', t', windowed', here', gone', more'⟩ := h.collected y (by simp [next, listed])
    refine ⟨rule', mem', name', window', first', t', windowed', ?_, gone', more'⟩
    have apart : y.key ≠ x.key := fun same => fresh (same ▸ List.mem_map_of_mem listed)
    rwa [Dict.get?_erase, if_neg apart]
  · cases raises
    · simpa using keys
    · simp

theorem Sound.step {label : Label} (h : Sound rules n) (names : (rules.map NotificationRule.name).Nodup)
    (timely : Timely n label) (taken : n.step rules label = some n') : Sound rules n' := by
  cases label with
  | notify rule title now =>
    obtain ⟨⟨mem, later⟩, taken⟩ := Option.ite_none_right_eq_some.1 taken
    cases taken
    exact (h.advance later).notify names mem timely
  | collect now =>
    obtain ⟨⟨-, later⟩, taken⟩ := Option.ite_none_right_eq_some.1 taken
    cases taken
    exact (h.advance later).collect
  | flush raises =>
    cases next : n.expired with
    | nil => simp [SlackNotifier.step, next] at taken
    | cons x rest =>
      obtain rfl : n.flush x rest raises = n' := by simpa [SlackNotifier.step, next] using taken
      exact h.flush names next

end SlackNotifier

/-- **No suppressed notification goes unreported** in a run whose notifications are timely: what is sent of one rule is its
window apart, a message reports just what has been suppressed since the one before, and what is still to be reported is in
the pass that is under way, or in any that begins once the window has ended. -/
theorem suppressed_reported {rules : List NotificationRule} {n : SlackNotifier}
    (names : (rules.map NotificationRule.name).Nodup) (h : Reaches (SlackNotifier.step rules) Timely {} n) :
    Traced Entry.Due n.log ∧ ∀ rule ∈ rules, ∀ window, rule.window = some window →
      suppressed rule.name n.log = reported rule.name n.log + pending rule.name n.dedupCache ∧
      (pending rule.name n.dedupCache ≠ 0 → ∃ (first : ℚ) (count : ℕ) (title : String), ∀ now : ℚ, window ≤ now - first →
        (⟨rule.name, count, title, rule.severity⟩ : Expired) ∈
          n.dedupCache.entries.filterMap ({ n with now }.expire rules) ∧ count - 1 = pending rule.name n.dedupCache) ∧
      ∀ x ∈ n.expired, x.count - 1 = pending x.key n.dedupCache := by
  have sound : n.Sound rules := by
    refine h.invariant ?_ fun n label n' sound timely taken => sound.step names timely taken
    exact ⟨traced_nil, fun key => rfl, by simp, by simp, by simp, by simp, .nil⟩
  refine ⟨sound.due, fun rule mem window windowed => ⟨sound.counted rule.name, fun owed => ?_, fun x listed => ?_⟩⟩
  · cases here : n.dedupCache.get? rule.name with
    | none => simp [pending, here] at owed
    | some entry =>
      obtain ⟨first, count, title⟩ := entry
      have amount : pending rule.name n.dedupCache = count - 1 := by simp [pending, here]
      refine ⟨first, count, title, fun now gone => ⟨?_, amount.symm⟩⟩
      refine List.mem_filterMap.2 ⟨_, Dict.get?_eq_some.1 here, ?_⟩
      obtain ⟨found, eq⟩ : ∃ found, rules.find? (·.name = rule.name) = some found :=
        Option.isSome_iff_exists.1 (List.find?_isSome.2 ⟨rule, mem, by simp⟩)
      obtain rfl : found = rule :=
        SlackNotifier.rule_unique names (List.mem_of_find?_eq_some eq) mem (by simpa using List.find?_some eq)
      have more : 1 < count := by omega
      simp only [SlackNotifier.expire, eq, windowed, if_pos (And.intro gone more)]
  · obtain ⟨-, -, -, -, first, t, -, here, -, -⟩ := sound.collected x listed
    simp [pending, here]

/-- A rule with a window of a minute. -/
def minutely : NotificationRule := { name := "dome", deduplicate := some 60 }

theorem suppressed_reported_example : Traced Entry.Due
    [.sent minutely 0, .suppressed "dome", .consolidated "dome" 1 "shutter" .info, .sent minutely 71] :=
  (@suppressed_reported [minutely] ⟨⟨[("dome", 71, 1, "shutter")], by decide⟩, 71, [], _⟩ (by decide)
    (reaches_of_exec (show exec (SlackNotifier.step [minutely]) {} [.notify minutely "shutter" 0,
      .notify minutely "shutter" 5, .collect 70, .flush false, .notify minutely "shutter" 71] = _ by decide +kernel)
      (by decide +kernel))).1

/-- A notification that opens the next window before the loop has come takes the count of the last one with it; and one
that comes while the loop waits opens a window that the loop then deletes. -/
theorem suppressed_lost : ¬ (∀ (labels : List Label) (n : SlackNotifier),
      exec (SlackNotifier.step [minutely]) {} labels = some n →
        suppressed "dome" n.log = reported "dome" n.log + pending "dome" n.dedupCache) ∧
    ¬ ∀ (labels : List Label) (n : SlackNotifier), exec (SlackNotifier.step [minutely]) {} labels = some n →
      Traced Entry.Due n.log := by
  refine ⟨fun all => ?_, fun all => ?_⟩
  · have kept := all [.notify minutely "shutter" 0, .notify minutely "shutter" 5, .notify minutely "shutter" 65]
      ⟨⟨[("dome", 65, 1, "shutter")], by decide⟩, 65, [], [.sent minutely 0, .suppressed "dome", .sent minutely 65]⟩
      (by decide +kernel)
    revert kept
    decide +kernel
  · have traced := all [.notify minutely "shutter" 0, .notify minutely "shutter" 5, .collect 70,
        .notify minutely "shutter" 71, .flush false, .notify minutely "shutter" 72]
      ⟨⟨[("dome", 72, 1, "shutter")], by decide⟩, 72, [], [.sent minutely 0, .suppressed "dome", .sent minutely 71,
        .consolidated "dome" 1 "shutter" .info, .sent minutely 72]⟩ (by decide +kernel)
    have := traced 4 (.sent minutely 72) rfl 60 rfl 71 (by decide)
    norm_num at this

end SensorKit.Slack
