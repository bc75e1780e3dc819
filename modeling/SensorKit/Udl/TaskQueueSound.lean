import SensorKit.Udl.TaskQueue
import Mathlib.Data.List.TakeWhile

/-!
# Safe calls on the queue of collect requests

The queue stays sorted, and has offers while there are requests. Under this, what the queue promises of a call is kept just
if offers can be made of the queue that the call leaves.
-/

namespace SensorKit.Udl

open Lib Core

variable {lib : IntervalTrees ℤ} {deadband now later : ℤ} {queue after : TaskQueue lib} {result : QueueResult}
  {request other : CollectRequest} {entry : ℤ × Option ℤ × String} {entries : List (ℤ × Option ℤ × String)}
  {window : Interval ℤ String} {tasks : List CollectRequest} {call : QueueCall}

/-! ## Windows -/

theorem mem_windowsOf : window ∈ windowsOf entries ↔ (window.begin, some window.end, window.data) ∈ entries := by
  unfold windowsOf
  rw [List.mem_filterMap]
  constructor
  · rintro ⟨⟨start, stop, obj⟩, mem, made⟩
    obtain ⟨stop', rfl, made⟩ := Option.bind_eq_some_iff.1 made
    split at made
    · cases made
      exact mem
    · cases made
  · intro mem
    refine ⟨_, mem, ?_⟩
    unfold offerWindow
    rw [Option.bind_some, dif_pos window.lt]

theorem exists_window (all : AllOffered entries) (mem : entry ∈ entries) :
    ∃ window : Interval ℤ String, entry = (window.begin, some window.end, window.data) := by
  obtain ⟨window, made⟩ := Option.ne_none_iff_exists'.1 (all entry mem)
  obtain ⟨start, stop?, obj⟩ := entry
  obtain ⟨stop, rfl, made⟩ := Option.bind_eq_some_iff.1 made
  split at made
  · rename_i lt
    exact ⟨⟨start, stop, obj, lt⟩, rfl⟩
  · cases made

namespace TaskQueue

theorem mem_offersWith : entry ∈ queue.offersWith deadband tasks now ↔
    (∃ running ∈ queue.executing, running.offer now (running.endTime.map (· + deadband)) = entry) ∨
      ∃ request ∈ tasks, request.offer now request.endTime = entry := by
  unfold offersWith
  rw [List.mem_append, List.mem_map, List.mem_map]
  simp only [Option.mem_toList]
  rfl

/-- The offers of a queue are its windows just if no queued request has expired but those with the offer of the executing
one. -/
theorem windows_iff (all : AllOffered (queue.offersWith deadband queue.tasks now)) :
    (∀ window, window ∈ windowsOf (queue.offersWith deadband queue.tasks now) ↔ window ∈ queue.windows deadband now) ↔
      ∀ request ∈ queue.tasks, request.Expired now → ∃ running ∈ queue.executing,
        running.offer now (running.endTime.map (· + deadband)) = request.offer now request.endTime := by
  have live (request : CollectRequest) : request ∈ queue.tasks.filter (fun request => ¬request.Expired now) ↔
      request ∈ queue.tasks ∧ ¬request.Expired now := by
    rw [List.mem_filter, decide_eq_true_iff]
  unfold windows
  simp only [mem_windowsOf, mem_offersWith, live]
  constructor
  · intro same request mem expired
    obtain ⟨window, made⟩ := exists_window all (mem_offersWith.2 (.inr ⟨request, mem, rfl⟩))
    obtain running | ⟨other, ⟨-, unexpired⟩, offer⟩ := (same window).1 (.inr ⟨request, mem, made⟩)
    · rw [made]
      exact running
    · -- A request that has not expired has another end.
      have ends : other.endTime = request.endTime := congrArg (fun offer => offer.2.1) (offer.trans made.symm)
      unfold CollectRequest.Expired at unexpired expired
      rw [ends] at unexpired
      exact absurd expired unexpired
  · intro running window
    constructor
    · rintro (executing | ⟨request, mem, offer⟩)
      · exact .inl executing
      · by_cases expired : request.Expired now
        · obtain ⟨other, here, same⟩ := running request mem expired
          exact .inl ⟨other, here, same.trans offer⟩
        · exact .inr ⟨request, ⟨mem, expired⟩, offer⟩
    · rintro (executing | ⟨request, ⟨mem, -⟩, offer⟩)
      · exact .inl executing
      · exact .inr ⟨request, mem, offer⟩

/-! ## The head of the queue -/

theorem start_le (before : request.keyLe other = true) : request.key.1 ≤ other.key.1 := by
  unfold CollectRequest.keyLe at before
  obtain less | ⟨same, -⟩ := of_decide_eq_true before
  · exact less.le
  · exact same.le

/-- The first request that has not expired is the earliest one. -/
theorem earliest_head
    (sorted : tasks.Pairwise fun request other => request.keyLe other = true)
    (head : (tasks.dropWhile fun request => request.Expired now).head? = some request) : Earliest tasks now request := by
  induction tasks with
  | nil => cases head
  | cons first rest ih =>
    obtain ⟨before, sorted⟩ := List.pairwise_cons.1 sorted
    by_cases expired : first.Expired now
    · rw [List.dropWhile_cons, if_pos (decide_eq_true expired)] at head
      obtain ⟨mem, unexpired, least⟩ := ih sorted head
      refine ⟨List.mem_cons_of_mem _ mem, unexpired, fun other there live => ?_⟩
      obtain rfl | there := List.mem_cons.1 there
      · exact absurd expired live
      · exact least other there live
    · rw [List.dropWhile_cons, if_neg (by simpa using expired)] at head
      cases head
      refine ⟨List.mem_cons_self, expired, fun other there _ => ?_⟩
      obtain rfl | there := List.mem_cons.1 there
      · exact le_rfl
      · exact start_le (before other there)

theorem expired_of_head?_none
    (none : (tasks.dropWhile fun request => request.Expired now).head? = none) : ∀ request ∈ tasks, request.Expired now := by
  intro request mem
  have empty := List.head?_eq_none_iff.1 none
  exact of_decide_eq_true (List.dropWhile_eq_nil_iff.1 empty request mem)

/-- The earliest requests have opened all or none. -/
theorem opened_of_earliest (clock : datetimeMin ≤ now) (earliest : Earliest tasks now request)
    (earliest' : Earliest tasks now other) (opened : request.Opened now) : other.Opened now := by
  have le : other.key.1 ≤ request.key.1 := earliest'.2.2 request earliest.1 earliest.2.1
  unfold CollectRequest.key at le
  unfold CollectRequest.Opened at opened ⊢
  cases start : other.startTime with
  | none => exact le_rfl
  | some time =>
    rw [start] at le
    cases start' : request.startTime with
    | none =>
      rw [start'] at le
      exact le.trans clock
    | some time' =>
      rw [start'] at le opened
      exact le.trans opened

/-! ## Updates of the offers -/

/-- What holds of a queue between calls. -/
structure Sound (queue : TaskQueue lib) : Prop where
  sorted : queue.tasks.Pairwise fun request other => request.keyLe other = true
  offered : queue.executing ≠ none ∨ queue.tasks ≠ [] → lib.intervals queue.program.offers.tree ≠ []

/-- An update that comes to an offer that is rejected raises. -/
theorem updating_error (result : QueueResult) (rejected : ¬AllOffered (queue.offersWith deadband queue.tasks now)) :
    ∃ error, (queue.updating deadband now result).2 = .raised error := by
  obtain ⟨error, raised⟩ := addOffers_error queue.program.clearOffers rejected
  have added : queue.program.clearOffers.addOffers (queue.offersWith deadband queue.tasks now) =
      ((queue.program.clearOffers.addOffers (queue.offersWith deadband queue.tasks now)).1, .error error) := by
    rw [← raised]
  unfold updating updateOffers
  rw [added]
  exact ⟨error, rfl⟩

/-- An update of which all offers have windows publishes them, if there are or were any. -/
theorem updating_ok (lawful : lib.Lawful) (result : QueueResult) (all : AllOffered (queue.offersWith deadband queue.tasks now))
    (changes : lib.intervals queue.program.offers.tree ≠ [] ∨ queue.offersWith deadband queue.tasks now ≠ []) :
    ∃ program tree, queue.updating deadband now result = ({ queue with program }, result) ∧
      program.published = some tree ∧ program.offers.tree = tree ∧
      ∀ window, window ∈ lib.intervals tree ↔ window ∈ windowsOf (queue.offersWith deadband queue.tasks now) := by
  obtain ⟨done, -, mem, updated⟩ := addOffers_ok lawful queue.program.clearOffers all
  have flagged : (queue.program.clearOffers.offers.updated ||
      !(queue.offersWith deadband queue.tasks now).isEmpty) = true := by
    obtain there | some_ := changes
    · have cleared : queue.program.clearOffers.offers = { tree := lib.empty, updated := true } := if_neg there
      rw [cleared, Bool.true_or]
    · rw [Bool.or_eq_true, Bool.not_eq_true', List.isEmpty_eq_false_iff]
      exact .inr some_
  rw [flagged] at updated
  cases added : queue.program.clearOffers.addOffers (queue.offersWith deadband queue.tasks now) with
  | mk program outcome =>
    rw [added] at done mem updated
    dsimp only at done mem updated
    subst done
    refine ⟨{ offers := { program.offers with updated := false }, published := some program.offers.tree },
      program.offers.tree, ?_, rfl, rfl, fun window => ?_⟩
    · have published : program.publishOffers =
          { offers := { program.offers with updated := false }, published := some program.offers.tree } := if_pos updated
      unfold updating updateOffers
      rw [added]
      dsimp only
      rw [published]
    · rw [mem]
      exact or_iff_left (intervals_clear lawful queue.program window)

/-- An update goes through and publishes the windows just if offers can be made of the queue. -/
theorem updating_iff (lawful : lib.Lawful) (result : QueueResult) (returns : ∀ error, result ≠ .raised error)
    (changes : lib.intervals queue.program.offers.tree ≠ [] ∨ queue.offersWith deadband queue.tasks now ≠ []) :
    ((∀ error, (queue.updating deadband now result).2 ≠ .raised error) ∧
      ((queue.updating deadband now result).2 = result →
        ∃ tree, (queue.updating deadband now result).1.program.published = some tree ∧
          ∀ window, window ∈ lib.intervals tree ↔
            window ∈ (queue.updating deadband now result).1.windows deadband now)) ↔
      queue.Offerable deadband now := by
  by_cases all : AllOffered (queue.offersWith deadband queue.tasks now)
  · obtain ⟨program, tree, updated, published, -, mem⟩ := updating_ok lawful result all changes
    have windows : ({ queue with program } : TaskQueue lib).windows deadband now = queue.windows deadband now := rfl
    rw [updated]
    dsimp only
    rw [windows, published]
    constructor
    · rintro ⟨-, published⟩
      obtain ⟨tree', same, here⟩ := published rfl
      cases same
      refine ⟨all, (windows_iff all).1 fun window => ?_⟩
      rw [← mem, here]
    · intro offerable
      refine ⟨returns, fun _ => ⟨tree, rfl, fun window => ?_⟩⟩
      rw [mem]
      exact (windows_iff all).2 offerable.live window
  · obtain ⟨error, raised⟩ := updating_error result all
    exact iff_of_false (fun kept => kept.1 error raised) fun offerable => all offerable.all

/-- An update that goes through leaves the queue as it is, but for the program, and with offers if there are requests. -/
theorem updating_sound (lawful : lib.Lawful) (result : QueueResult) (sorted : queue.tasks.Pairwise fun request other => request.keyLe other = true)
    (changes : lib.intervals queue.program.offers.tree ≠ [] ∨ queue.offersWith deadband queue.tasks now ≠ [])
    (offerable : queue.Offerable deadband now) : (queue.updating deadband now result).1.Sound ∧
      (queue.updating deadband now result).2 = result ∧
      (queue.updating deadband now result).1.tasks = queue.tasks ∧
      (queue.updating deadband now result).1.reported = queue.reported := by
  obtain ⟨program, tree, updated, -, same, mem⟩ := updating_ok lawful result offerable.all changes
  rw [updated]
  refine ⟨⟨sorted, fun some_ => ?_⟩, rfl, rfl, rfl⟩
  have offered : ∃ entry, entry ∈ queue.offersWith deadband queue.tasks now := by
    obtain running | queued := some_
    · obtain ⟨request, executing⟩ := Option.ne_none_iff_exists'.1 running
      exact ⟨_, mem_offersWith.2 (.inl ⟨request, executing, rfl⟩)⟩
    · obtain ⟨request, here⟩ := List.exists_mem_of_ne_nil _ queued
      exact ⟨_, mem_offersWith.2 (.inr ⟨request, here, rfl⟩)⟩
  obtain ⟨entry, there⟩ := offered
  obtain ⟨window, rfl⟩ := exists_window offerable.all there
  dsimp only
  rw [same]
  exact List.ne_nil_of_mem ((mem window).2 (mem_windowsOf.2 there))

/-! ## Calls -/

theorem sorted_insert (request : CollectRequest) :
    (queue.insert request).tasks.Pairwise fun request other => request.keyLe other = true := by
  apply List.pairwise_mergeSort
  · intro a b c first second
    unfold CollectRequest.keyLe at *
    rw [decide_eq_true_iff] at *
    omega
  · intro a b
    unfold CollectRequest.keyLe
    rw [Bool.or_eq_true, decide_eq_true_iff, decide_eq_true_iff]
    omega

theorem changes_of_mem (deadband now : ℤ) (mem : request ∈ queue.tasks) :
    lib.intervals queue.program.offers.tree ≠ [] ∨ queue.offersWith deadband queue.tasks now ≠ [] :=
  .inr (List.ne_nil_of_mem (mem_offersWith.2 (.inr ⟨request, mem, rfl⟩)))

/-- A call that does no more than change the queue and update the offers. -/
theorem kept_updating (lawful : lib.Lawful) {next : TaskQueue lib} (expires : call.expiresAt = none)
    (published : call.publishedAt result = some now) (returns : ∀ error, result ≠ .raised error)
    (sorted : next.tasks.Pairwise fun request other => request.keyLe other = true)
    (same : next.reported = queue.reported)
    (changes : lib.intervals next.program.offers.tree ≠ [] ∨ next.offersWith deadband next.tasks now ≠ []) :
    queue.Kept deadband call (next.updating deadband now result).1 (next.updating deadband now result).2 ↔
      next.Offerable deadband now := by
  have updates := updating_iff lawful result returns changes
  constructor
  · intro kept
    refine updates.1 ⟨kept.runs, fun done => kept.published now ?_⟩
    rw [done]
    exact published
  · intro offerable
    obtain ⟨-, done, -, reported⟩ := updating_sound lawful result sorted changes offerable
    obtain ⟨runs, publishes⟩ := updates.2 offerable
    refine ⟨runs, ?_, ?_, ⟨[], ?_, ?_, ?_⟩, ?_⟩
    · rintro _ _ rfl
      cases expires
    · rintro _ _ _ rfl
      cases expires
    · rw [reported, same, List.append_nil]
    · intro gone mem
      cases mem
    · intro time at_
      rw [expires] at at_
      cases at_
    · intro time at_
      rw [done, published] at at_
      cases at_
      exact publishes done

theorem kept_push (lawful : lib.Lawful) : queue.Kept deadband (.push request now)
    (queue.pushTask deadband request now).1 (queue.pushTask deadband request now).2 ↔
      queue.Safe deadband (.push request now) := by
  have mem : request ∈ (queue.insert request).tasks :=
    List.mem_mergeSort.2 (List.mem_append_right _ List.mem_cons_self)
  exact kept_updating lawful rfl rfl (fun error raised => by cases raised) (sorted_insert request) rfl
    (changes_of_mem deadband now mem)

/-- What a call that expires requests reports. -/
theorem expired_expire (queue : TaskQueue lib) (expires : call.expiresAt = some now) :
    ∃ gone, (queue.expire now).reported = queue.reported ++ gone ∧
      (∀ request ∈ gone, ∃ now ∈ call.expiresAt, request.Expired now) ∧
      ∀ now ∈ call.expiresAt, queue.tasks = gone ++ (queue.expire now).tasks := by
  refine ⟨queue.tasks.takeWhile fun request => request.Expired now, rfl, fun request mem => ?_, fun now' at_ => ?_⟩
  · have expired := List.mem_takeWhile_imp (p := fun request : CollectRequest => decide (request.Expired now)) mem
    exact ⟨now, expires, of_decide_eq_true expired⟩
  · cases expires.symm.trans at_
    exact (List.takeWhile_append_dropWhile).symm

theorem sorted_expire (sound : queue.Sound) (now : ℤ) :
    (queue.expire now).tasks.Pairwise fun request other => request.keyLe other = true :=
  sound.sorted.sublist (List.dropWhile_sublist _)

theorem offered_expire (sound : queue.Sound) (some_ : (queue.expire now).executing ≠ none ∨ (queue.expire now).tasks ≠ []) :
    lib.intervals queue.program.offers.tree ≠ [] := by
  apply sound.offered
  refine some_.imp_right fun left empty => left ?_
  unfold expire
  rw [empty]
  rfl

/-- A call that only expires requests. -/
theorem kept_expire (expires : call.expiresAt = some now) (taken : call.taken result = none)
    (runs : ∀ error, result ≠ .raised error) (unpublished : call.publishedAt result = none)
    (waits : ∀ now later, call = .pop now later → datetimeMin ≤ now →
      ¬∃ request, Earliest queue.tasks now request ∧ request.Opened now)
    (empty : ∀ now later request, call = .pop now later → result ≠ .task (some request)) :
    queue.Kept deadband call (queue.expire now) result where
  runs := runs
  returns now later popped clock := by
    refine iff_of_false ?_ (waits now later popped clock)
    rintro ⟨request, same⟩
    exact empty now later request popped same
  earliest now later request popped same := absurd same (empty now later request popped)
  expired := by
    obtain ⟨gone, reported, expired, left⟩ := expired_expire queue expires
    refine ⟨gone, reported, expired, fun time at_ => ?_⟩
    cases expires.symm.trans at_
    rw [taken]
    exact (left _ at_).trans (congrArg (· ++ _) (List.append_nil gone).symm)
  published time at_ := by
    rw [unpublished] at at_
    cases at_

theorem popTask_none (head : (queue.expire now).tasks.head? = none) :
    queue.popTask deadband now later = (queue.expire now, .task none) := by
  unfold popTask
  dsimp only
  rw [head]

theorem popTask_waits (head : (queue.expire now).tasks.head? = some request) (waits : ¬request.Opened now) :
    queue.popTask deadband now later = (queue.expire now, .task none) := by
  unfold popTask
  dsimp only
  rw [head]
  exact if_neg waits

theorem popTask_starts (head : (queue.expire now).tasks.head? = some request) (opened : request.Opened now) :
    queue.popTask deadband now later = ((queue.expire now).start request).updating deadband later (.task (some request)) := by
  unfold popTask
  dsimp only
  rw [head]
  exact if_pos opened

theorem changes_start (queue : TaskQueue lib) (request : CollectRequest) (deadband later : ℤ) :
    lib.intervals (queue.start request).program.offers.tree ≠ [] ∨
      (queue.start request).offersWith deadband (queue.start request).tasks later ≠ [] :=
  .inr (List.ne_nil_of_mem (mem_offersWith.2 (.inl ⟨request, rfl, rfl⟩)))

theorem kept_pop (lawful : lib.Lawful) (sound : queue.Sound) : queue.Kept deadband (.pop now later)
    (queue.popTask deadband now later).1 (queue.popTask deadband now later).2 ↔ queue.Safe deadband (.pop now later) := by
  cases head : (queue.expire now).tasks.head? with
  | none =>
    rw [popTask_none head]
    refine iff_of_true (kept_expire rfl rfl (fun error raised => by cases raised) rfl ?_ ?_) fun request mem => ?_
    · rintro _ _ ⟨⟩ - ⟨request, earliest, -⟩
      exact earliest.2.1 (expired_of_head?_none head request earliest.1)
    · intro _ _ request _ same
      cases same
    · rw [head] at mem
      cases mem
  | some request =>
    have earliest : Earliest queue.tasks now request := earliest_head sound.sorted head
    by_cases opened : request.Opened now
    · rw [popTask_starts head opened]
      have safe : queue.Safe deadband (.pop now later) ↔ ((queue.expire now).start request).Offerable deadband later := by
        unfold Safe
        dsimp only
        rw [head]
        constructor
        · exact fun safe => safe request rfl opened
        · rintro offerable other ⟨⟩ -
          exact offerable
      have changes := changes_start (queue.expire now) request deadband later
      have updates := updating_iff lawful (.task (some request)) (fun error raised => by cases raised) changes
      rw [safe]
      constructor
      · intro kept
        refine updates.1 ⟨kept.runs, fun started => kept.published later ?_⟩
        rw [started]
        rfl
      · intro offerable
        obtain ⟨-, started, left, reported⟩ := updating_sound lawful (.task (some request))
          ((sorted_expire sound now).sublist (List.tail_sublist _)) changes offerable
        obtain ⟨runs, published⟩ := updates.2 offerable
        refine ⟨runs, ?_, ?_, ?_, ?_⟩
        · rintro _ _ ⟨⟩ -
          exact iff_of_true ⟨request, started⟩ ⟨request, earliest, opened⟩
        · rintro _ _ other ⟨⟩ same
          rw [started] at same
          cases same
          exact ⟨earliest, opened⟩
        · have expires : (QueueCall.pop now later).expiresAt = some now := rfl
          obtain ⟨gone, reported', expired, all⟩ := expired_expire queue expires
          refine ⟨gone, reported.trans reported', expired, fun time at_ => ?_⟩
          obtain rfl := Option.some.inj at_
          rw [all _ at_, started, left, List.append_assoc]
          exact congrArg (gone ++ ·) (List.eq_cons_of_mem_head? head)
        · rintro time at_
          rw [started] at at_
          cases at_
          exact published started
    · rw [popTask_waits head opened]
      refine iff_of_true (kept_expire rfl rfl (fun error raised => by cases raised) rfl ?_ ?_) ?_
      · rintro _ _ ⟨⟩ clock ⟨other, earliest', opened'⟩
        exact opened (opened_of_earliest clock earliest' earliest opened')
      · intro _ _ request _ same
        cases same
      · intro other mem opened'
        rw [head] at mem
        cases mem
        exact absurd opened' opened

theorem kept_peek : queue.Kept deadband (.peek now) (queue.peekTask now).1 (queue.peekTask now).2 := by
  refine kept_expire rfl rfl (fun error raised => by cases raised) rfl ?_ ?_
  · intro _ _ other
    cases other
  · intro _ _ _ other
    cases other

/-- A request that is executing or queued has an offer. -/
theorem offered_of_has (sound : queue.Sound) {taskId : String} (has : queue.Has taskId) :
    lib.intervals queue.program.offers.tree ≠ [] := by
  apply sound.offered
  obtain ⟨request, executing, -⟩ | ⟨request, mem, -⟩ := has
  · exact .inl (Option.ne_none_iff_exists'.2 ⟨request, executing⟩)
  · exact .inr (List.ne_nil_of_mem mem)

theorem kept_remove (lawful : lib.Lawful) (sound : queue.Sound) (taskId : String) :
    queue.Kept deadband (.remove taskId now) (queue.removeTask deadband taskId now).1 (queue.removeTask deadband taskId now).2 ↔
      queue.Safe deadband (.remove taskId now) := by
  unfold removeTask Safe
  dsimp only
  by_cases has : queue.Has taskId
  · have offered := offered_of_has sound has
    rw [if_pos has, forall_prop_of_true has]
    exact kept_updating lawful rfl rfl (fun error raised => by cases raised)
      (sound.sorted.sublist List.filter_sublist) rfl (.inl offered)
  · rw [if_neg has]
    refine iff_of_true ⟨fun error raised => (by cases raised), ?_, ?_, ⟨[], ?_, ?_, ?_⟩, ?_⟩ fun other => absurd other has
    · intro _ _ other
      cases other
    · intro _ _ _ other
      cases other
    · exact (List.append_nil _).symm
    · intro gone mem
      cases mem
    · intro time at_
      cases at_
    · intro time at_
      cases at_

/-- What the queue promises of a call is kept just if the call is safe. -/
theorem kept_iff (lawful : lib.Lawful) (sound : queue.Sound) (call : QueueCall) :
    queue.Kept deadband call (queue.call deadband call).1 (queue.call deadband call).2 ↔ queue.Safe deadband call := by
  cases call with
  | push request now => exact kept_push lawful
  | pop now later => exact kept_pop lawful sound
  | peek now => exact iff_of_true kept_peek trivial
  | remove taskId now => exact kept_remove lawful sound taskId

/-- A safe call leaves the queue sorted, and with offers. -/
theorem Safe.sound (lawful : lib.Lawful) (sound : queue.Sound) (safe : queue.Safe deadband call) :
    (queue.call deadband call).1.Sound := by
  have expiring (now : ℤ) : (queue.expire now).Sound := by
    refine ⟨sorted_expire sound now, fun some_ => ?_⟩
    have offered := offered_expire sound some_
    exact offered
  cases call with
  | push request now =>
    have mem : request ∈ (queue.insert request).tasks :=
      List.mem_mergeSort.2 (List.mem_append_right _ List.mem_cons_self)
    exact (updating_sound lawful .done (sorted_insert request) (changes_of_mem deadband now mem) safe).1
  | pop now later =>
    unfold TaskQueue.call
    dsimp only
    cases head : (queue.expire now).tasks.head? with
    | none =>
      rw [popTask_none head]
      exact expiring now
    | some request =>
      by_cases opened : request.Opened now
      · rw [popTask_starts head opened]
        exact (updating_sound lawful _ ((sorted_expire sound now).sublist (List.tail_sublist _))
          (changes_start _ request deadband later) (safe request head opened)).1
      · rw [popTask_waits head opened]
        exact expiring now
  | peek now => exact expiring now
  | remove taskId now =>
    unfold TaskQueue.call removeTask
    dsimp only
    split
    · rename_i has
      have offered := offered_of_has sound has
      refine (updating_sound lawful (.removed true) ?_ ?_ (safe has)).1
      · exact sound.sorted.sublist List.filter_sublist
      · exact .inl offered
    · refine ⟨sound.sorted.sublist List.filter_sublist, fun some_ => sound.offered (some_.imp ?_ ?_)⟩
      · intro running none
        apply running
        unfold without
        rw [none]
        rfl
      · intro queued empty
        apply queued
        unfold without
        rw [empty]
        rfl

/-- Along every sequence of calls, the queue keeps what it promises of each call just if each call is safe. -/
theorem queue_kept_iff (lawful : lib.Lawful) (deadband : ℤ) (calls : List QueueCall) :
    okAlong (step deadband) (fun (queue : TaskQueue lib) call =>
      queue.Kept deadband call (queue.call deadband call).1 (queue.call deadband call).2) {} calls ↔
    okAlong (step deadband) (Safe deadband) ({} : TaskQueue lib) calls := by
  apply okAlong_iff_of_keeps (I := fun queue => queue.Sound)
  · exact ⟨.nil, fun some_ => by simp at some_⟩
  · intro queue call sound
    exact kept_iff lawful sound call
  · rintro queue call after sound safe ⟨⟩
    exact safe.sound lawful sound

theorem queue_kept_iff_example : okAlong (step 0) (fun (queue : TaskQueue (IntervalTrees.lists ℤ)) call =>
    queue.Kept 0 call (queue.call 0 call).1 (queue.call 0 call).2) {} [.push ⟨"collect", some 5, some 9⟩ 0] := by
  refine (queue_kept_iff IntervalTrees.lawful_lists 0 _).2 ⟨⟨?_, ?_⟩, fun _ _ => trivial⟩
  · intro entry mem
    obtain ⟨running, executing, -⟩ | ⟨request, queued, rfl⟩ := mem_offersWith.1 mem
    · cases executing
    · obtain rfl := List.mem_singleton.1 (List.mem_mergeSort.1 queued)
      decide
  · intro request mem expired
    obtain rfl := List.mem_singleton.1 (List.mem_mergeSort.1 mem)
    exact absurd expired (by decide)

/-- A request whose window is open-ended. -/
theorem open_ended_raises : ¬okAlong (step 0) (fun (queue : TaskQueue (IntervalTrees.lists ℤ)) call =>
    queue.Kept 0 call (queue.call 0 call).1 (queue.call 0 call).2) {} [.push ⟨"collect", some 5, none⟩ 0] := by
  intro kept
  have offerable := (kept_push IntervalTrees.lawful_lists).1 kept.1
  have mem : (⟨"collect", some 5, none⟩ : CollectRequest) ∈
      (({} : TaskQueue (IntervalTrees.lists ℤ)).insert ⟨"collect", some 5, none⟩).tasks :=
    List.mem_mergeSort.2 List.mem_cons_self
  exact offerable.all _ (mem_offersWith.2 (.inr ⟨_, mem, rfl⟩)) rfl

end TaskQueue

end SensorKit.Udl
