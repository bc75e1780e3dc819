import SensorKit.Common.FileWatch

/-!
# Subscribed directories stay watched

An emitter is that of a subscribed directory, or it is on its way to the reaper; and the reaper leaves it alone if its
directory is subscribed with the same recursion by then.
-/

namespace SensorKit.Common

open Lib

variable {O S : Type} {api : ObserverApi O}

namespace WatchManager

variable {m m' : WatchManager O S} {realDir d message : String} {subscriber x : S} {recursive schedules : Bool}
  {w : ObservedWatch} {a : WatchLabel S} {e : SubscribeError}

/-- The watch is on its way to the reaper. -/
def Condemned (m : WatchManager O S) (w : ObservedWatch) : Prop :=
  (w.path, w) ∈ m.pending ∨ m.taken = some (w.path, w)

structure Inv (api : ObserverApi O) (m : WatchManager O S) : Prop where
  watched : ∀ realDir watch, m.watches.get? realDir = some watch → watch.subscribers ≠ [] ∧
    watch.observedWatch = ⟨realDir, watch.recursive⟩ ∧ m.Scheduled api ⟨realDir, watch.recursive⟩ ∧
      m.Attached api ⟨realDir, watch.recursive⟩ watch.handler
  kept : ∀ w, m.Scheduled api w → m.Subscribed w ∨ m.Condemned w
  paths : ∀ item, item ∈ m.pending ∨ m.taken = some item → item.1 = item.2.path

theorem inv_start : Inv api ({} : WatchManager O S) := by
  refine ⟨by simp, ?_, by simp⟩
  rintro w ⟨observer, started, -⟩
  cases started

theorem Inv.subscribed (h : Inv api m) (there : m.Subscribed w) : m.Scheduled api w := by
  obtain ⟨watch, found, -, same⟩ := there
  obtain ⟨-, -, scheduled, -⟩ := h.watched w.path watch found
  rw [same] at scheduled
  exact scheduled

/-- An observer that is started has nothing scheduled. -/
theorem scheduled_getD : api.Scheduled (m.observer.getD api.start) w ↔ m.Scheduled api w := by
  unfold Scheduled
  cases m.observer with
  | none => simpa using api.not_scheduled_start w
  | some observer => simp

/-! ## Subscriptions -/

variable [DecidableEq S]

theorem subscribe_error (h : m.subscribe api realDir subscriber recursive schedules = (m', .error e)) :
    m' = m ∨ m' = { m with observer := some (m.observer.getD api.start) } ∧ e = .unscheduled := by
  unfold subscribe at h
  split at h
  · dsimp only at h
    split_ifs at h
    · cases (Prod.mk.inj h).2
    · obtain ⟨rfl, same⟩ := Prod.mk.inj h
      exact .inr ⟨rfl, (Except.error.inj same).symm⟩
  · dsimp only at h
    split_ifs at h
    · exact .inl (Prod.mk.inj h).1.symm
    · cases (Prod.mk.inj h).2

/-- A new directory is watched at once. -/
structure Opens (api : ObserverApi O) (m : WatchManager O S) (realDir : String) (subscriber : S) (recursive : Bool)
    (m' : WatchManager O S) : Prop where
  fresh : m.watches.get? realDir = none
  watches : m'.watches = m.watches.insert realDir
    { handler := m.handlers, subscribers := [subscriber], observedWatch := ⟨realDir, recursive⟩, recursive }
  observer : m'.observer = some (api.schedule (m.observer.getD api.start) m.handlers ⟨realDir, recursive⟩)

/-- A watched one has another subscriber. -/
structure Joins (m : WatchManager O S) (realDir : String) (subscriber : S) (watch : DirWatch S)
    (m' : WatchManager O S) : Prop where
  found : m.watches.get? realDir = some watch
  watches : m'.watches = m.watches.insert realDir
    { watch with subscribers := watch.subscribers.insert subscriber }
  observer : m'.observer = m.observer

theorem subscribe_ok (h : m.subscribe api realDir subscriber recursive schedules = (m', .ok ())) :
    (m'.pending = m.pending ∧ m'.taken = m.taken) ∧
      (Opens api m realDir subscriber recursive m' ∨ ∃ watch, Joins m realDir subscriber watch m') := by
  unfold subscribe at h
  split at h
  · rename_i fresh
    dsimp only at h
    split_ifs at h
    · cases h
      exact ⟨⟨rfl, rfl⟩, .inl ⟨fresh, rfl, rfl⟩⟩
    · cases (Prod.mk.inj h).2
  · rename_i watch found
    dsimp only at h
    split_ifs at h
    · cases (Prod.mk.inj h).2
    · cases h
      exact ⟨⟨rfl, rfl⟩, .inr ⟨watch, found, rfl, rfl⟩⟩

omit [DecidableEq S] in
theorem Opens.scheduled (h : Opens api m realDir subscriber recursive m') :
    m'.Scheduled api w ↔ w = ⟨realDir, recursive⟩ ∨ m.Scheduled api w := by
  unfold Scheduled
  rw [h.observer]
  simp only [Option.some.injEq, exists_eq_left', api.scheduled_schedule]
  exact or_congr_right scheduled_getD

omit [DecidableEq S] in
theorem Opens.attached {handler : ℕ} (h : Opens api m realDir subscriber recursive m') (attached : m.Attached api w handler) :
    m'.Attached api w handler := by
  obtain ⟨observer, started, attached⟩ := attached
  refine ⟨_, h.observer, (api.attached_schedule ..).2 (.inr ?_)⟩
  rw [started]
  exact attached

omit [DecidableEq S] in
theorem Inv.opens (h : Inv api m) (opens : Opens api m realDir subscriber recursive m')
    (pending : m'.pending = m.pending) (taken : m'.taken = m.taken) : Inv api m' := by
  refine ⟨?_, ?_, by rw [pending, taken]; exact h.paths⟩
  · intro d watch found
    rw [opens.watches, Dict.get?_insert] at found
    split_ifs at found with here
    · cases found
      subst here
      refine ⟨by simp, rfl, opens.scheduled.2 (.inl rfl), _, opens.observer, ?_⟩
      exact (api.attached_schedule ..).2 (.inl ⟨rfl, rfl⟩)
    · obtain ⟨some_, same, scheduled, attached⟩ := h.watched d watch found
      exact ⟨some_, same, opens.scheduled.2 (.inr scheduled), opens.attached attached⟩
  · intro w scheduled
    by_cases here : w.path = realDir
    · rcases opens.scheduled.1 scheduled with rfl | scheduled
      · refine .inl ⟨_, by rw [opens.watches]; exact Dict.get?_insert_self, by simp, rfl⟩
      · rcases h.kept w scheduled with ⟨watch, found, -⟩ | condemned
        · rw [here, opens.fresh] at found
          cases found
        · exact .inr (by unfold Condemned; rwa [pending, taken])
    · have before : m.Scheduled api w := by
        rcases opens.scheduled.1 scheduled with rfl | scheduled
        · exact absurd rfl here
        · exact scheduled
      rcases h.kept w before with ⟨watch, found, there⟩ | condemned
      · refine .inl ⟨watch, ?_, there⟩
        rw [opens.watches, Dict.get?_insert_of_ne here, found]
      · exact .inr (by unfold Condemned; rwa [pending, taken])

omit [DecidableEq S] in
/-- A watch whose subscribers change is still the same watch. -/
theorem Inv.resubscribed {watch : DirWatch S} {subscribers : List S} (h : Inv api m)
    (found : m.watches.get? realDir = some watch) (some_ : subscribers ≠ [])
    (watches : m'.watches = m.watches.insert realDir { watch with subscribers }) (observer : m'.observer = m.observer)
    (pending : m'.pending = m.pending) (taken : m'.taken = m.taken) : Inv api m' := by
  have scheduled (w : ObservedWatch) : m'.Scheduled api w ↔ m.Scheduled api w := by
    unfold Scheduled
    rw [observer]
  refine ⟨?_, ?_, by rw [pending, taken]; exact h.paths⟩
  · intro d watch' found'
    rw [watches, Dict.get?_insert] at found'
    have attached (w : ObservedWatch) (handler : ℕ) : m'.Attached api w handler ↔ m.Attached api w handler := by
      unfold Attached
      rw [observer]
    rw [scheduled, attached]
    split_ifs at found' with here
    · cases found'
      subst here
      obtain ⟨-, watched⟩ := h.watched _ watch found
      exact ⟨some_, watched⟩
    · exact h.watched d watch' found'
  · intro w there
    rcases h.kept w ((scheduled w).1 there) with ⟨watch', found', none_, same⟩ | condemned
    · left
      by_cases here : w.path = realDir
      · rw [here] at found'
        cases found.symm.trans found'
        refine ⟨{ watch with subscribers }, ?_, some_, same⟩
        rw [watches, here, Dict.get?_insert_self]
      · refine ⟨watch', ?_, none_, same⟩
        rw [watches, Dict.get?_insert_of_ne here, found']
    · exact .inr (by unfold Condemned; rwa [pending, taken])

theorem Inv.subscribe (h : Inv api m) : Inv api (m.subscribe api realDir subscriber recursive schedules).1 := by
  cases result : m.subscribe api realDir subscriber recursive schedules with
  | mk m' outcome =>
    cases outcome with
    | error e =>
      rcases subscribe_error result with rfl | ⟨rfl, -⟩
      · exact h
      · have scheduled (w : ObservedWatch) :
            ({ m with observer := some (m.observer.getD api.start) } : WatchManager O S).Scheduled api w ↔
              m.Scheduled api w := by
          refine Iff.trans ?_ scheduled_getD
          simp [Scheduled]
        refine ⟨?_, ?_, h.paths⟩
        · intro d watch found
          obtain ⟨some_, same, there, observer, started, attached⟩ := h.watched d watch found
          refine ⟨some_, same, (scheduled _).2 there, observer, ?_, attached⟩
          rw [started]
          rfl
        · intro w there
          exact h.kept w ((scheduled w).1 there)
    | ok _ =>
      obtain ⟨⟨pending, taken⟩, opens | ⟨watch, joins⟩⟩ := subscribe_ok result
      · exact h.opens opens pending taken
      · refine h.resubscribed joins.found ?_ joins.watches joins.observer pending taken
        exact List.ne_nil_of_mem (List.mem_insert_self)

/-! ## Subscriptions that end -/

/-- The watch of a directory without subscribers goes to the reaper. -/
theorem Inv.unsubscribe (h : Inv api m) : Inv api (m.unsubscribe realDir subscriber) := by
  unfold WatchManager.unsubscribe
  split
  · exact h
  · rename_i watch found
    obtain ⟨-, same, ⟨observer, started, -⟩, -⟩ := h.watched realDir watch found
    have erased (d : String) (watch' : DirWatch S) (there : (m.watches.erase realDir).get? d = some watch') :
        d ≠ realDir ∧ m.watches.get? d = some watch' := by
      rw [Dict.get?_erase] at there
      split_ifs at there with here
      exact ⟨here, there⟩
    dsimp only
    split_ifs with others none_
    · exact h.resubscribed found others rfl rfl rfl rfl
    · rw [started] at none_
      cases none_
    · refine ⟨fun d watch' there => h.watched d watch' (erased d watch' there).2, ?_, ?_⟩
      · intro w there
        rcases h.kept w there with ⟨watch', found', some_, recursion⟩ | condemned | condemned
        · by_cases here : w.path = realDir
          · rw [here] at found'
            cases found.symm.trans found'
            have there : watch.observedWatch = w := by
              rw [same, recursion, ← here]
            exact .inr (.inl (List.mem_append_right _ (List.mem_singleton.2 (by rw [there, here]))))
          · refine .inl ⟨watch', ?_, some_, recursion⟩
            rw [Dict.get?_erase, if_neg here, found']
        · exact .inr (.inl (List.mem_append_left _ condemned))
        · exact .inr (.inr condemned)
      · rintro item (mem | taken)
        · rcases mem_snoc.1 mem with mem | rfl
          · exact h.paths item (.inl mem)
          · rw [same]
        · exact h.paths item (.inr taken)

/-! ## The reaper -/

omit [DecidableEq S] in
theorem Inv.take (h : Inv api m) {item : String × ObservedWatch} {pending : List (String × ObservedWatch)}
    (idle : m.taken = none) (queued : m.pending = item :: pending) :
    Inv api { m with pending, taken := some item } := by
  refine ⟨h.watched, ?_, ?_⟩
  · intro w there
    rcases h.kept w there with subscribed | condemned | condemned
    · exact .inl subscribed
    · rw [queued] at condemned
      rcases List.mem_cons.1 condemned with rfl | condemned
      · exact .inr (.inr rfl)
      · exact .inr (.inl condemned)
    · rw [idle] at condemned
      cases condemned
  · rintro other (mem | taken)
    · exact h.paths other (.inl (by rw [queued]; exact List.mem_cons_of_mem _ mem))
    · cases taken
      exact h.paths item (.inl (by rw [queued]; simp))

omit [DecidableEq S] in
/-- The reaper unschedules what no directory is watched by. -/
theorem Inv.reap (h : Inv api m) {item : String × ObservedWatch} (taken : m.taken = some item) :
    Inv api { m.unscheduleLocked api item.1 item.2 with taken := none } := by
  have path := h.paths item (.inr taken)
  -- What is left to be reaped, unless it is the watch in hand.
  have queued (w : ObservedWatch) (ne : w ≠ item.2) (condemned : m.Condemned w) : (w.path, w) ∈ m.pending := by
    refine condemned.resolve_right ?_
    rw [taken]
    intro same
    exact ne (congrArg Prod.snd (Option.some.inj same)).symm
  have paths (other : String × ObservedWatch) (mem : other ∈ m.pending ∨ none = some other) : other.1 = other.2.path :=
    h.paths other (.inl (mem.resolve_right (by simp)))
  unfold unscheduleLocked
  cases started : m.observer with
  | none =>
    refine ⟨?_, ?_, paths⟩
    · intro d watch found
      obtain ⟨-, -, ⟨observer, started', -⟩, -⟩ := h.watched d watch found
      rw [started] at started'
      cases started'
    · rintro w ⟨observer, started', -⟩
      rw [show m.observer = some observer from started'] at started
      cases started
  | some observer =>
    have scheduled (w : ObservedWatch) : m.Scheduled api w ↔ api.Scheduled observer w := by
      unfold Scheduled
      rw [started]
      simp
    dsimp only
    split_ifs with live
    · -- The directory is watched so again.
      refine ⟨h.watched, ?_, paths⟩
      intro w there
      by_cases mine : w = item.2
      · obtain ⟨watch, found, same⟩ := Option.map_eq_some_iff.1 live
        obtain ⟨some_, observed, -⟩ := h.watched item.1 watch found
        refine .inl ⟨watch, ?_, some_, ?_⟩
        · rw [mine, ← path, found]
        · rw [mine, ← same, observed]
      · rcases h.kept w there with subscribed | condemned
        · exact .inl subscribed
        · exact .inr (.inl (queued w mine condemned))
    · split
      · rename_i observer' unscheduled
        have left := api.scheduled_unschedule _ _ _ unscheduled
        refine ⟨?_, ?_, paths⟩
        · intro d watch found
          obtain ⟨some_, observed, there, attached⟩ := h.watched d watch found
          have ne : (⟨d, watch.recursive⟩ : ObservedWatch) ≠ item.2 := by
            intro mine
            have same : item.1 = d := by rw [path, ← mine]
            refine live (Option.map_eq_some_iff.2 ⟨watch, ?_, observed.trans mine⟩)
            rw [same, found]
          refine ⟨some_, observed, ⟨observer', rfl, (left _).2 ⟨ne, (scheduled _).1 there⟩⟩, observer', rfl, ?_⟩
          obtain ⟨observer'', started', attached⟩ := attached
          cases started.symm.trans started'
          exact (api.attached_unschedule _ _ _ unscheduled _ _ ne).2 attached
        · rintro w ⟨observer'', started', there⟩
          cases started'
          obtain ⟨ne, there⟩ := (left w).1 there
          rcases h.kept w ((scheduled w).2 there) with subscribed | condemned
          · exact .inl subscribed
          · exact .inr (.inl (queued w ne condemned))
      · rename_i gone
        refine ⟨h.watched, ?_, paths⟩
        intro w there
        have ne : w ≠ item.2 := by
          rintro rfl
          exact (api.unschedule_none observer item.2).1 gone ((scheduled _).1 there)
        rcases h.kept w there with subscribed | condemned
        · exact .inl subscribed
        · exact .inr (.inl (queued w ne condemned))

/-- **A step keeps the invariant.** -/
theorem Inv.step (h : Inv api m) (hs : m.step api a = some m') : Inv api m' := by
  cases a with
  | subscribe realDir subscriber recursive schedules =>
    cases hs
    exact h.subscribe
  | unsubscribe realDir subscriber =>
    cases hs
    exact h.unsubscribe
  | take =>
    unfold WatchManager.step at hs
    dsimp only at hs
    split at hs
    · rename_i item pending idle queued
      cases hs
      exact h.take idle queued
    · cases hs
  | reap =>
    obtain ⟨item, taken, rfl⟩ := Option.map_eq_some_iff.1 hs
    exact h.reap taken

/-! ## Members -/

theorem joined (h : m.subscribe api realDir subscriber recursive schedules = (m', .ok ())) :
    m'.Member d x ↔ d = realDir ∧ x = subscriber ∨ m.Member d x := by
  unfold Member
  obtain ⟨-, opens | ⟨watch, joins⟩⟩ := subscribe_ok h
  · rw [opens.watches]
    by_cases here : d = realDir
    · subst here
      simp [opens.fresh]
    · simp [Dict.get?_insert_of_ne here, here]
  · rw [joins.watches]
    by_cases here : d = realDir
    · subst here
      simp [joins.found]
    · simp [Dict.get?_insert_of_ne here, here]

theorem left : (m.unsubscribe realDir subscriber).Member d x ↔ m.Member d x ∧ ¬ (d = realDir ∧ x = subscriber) := by
  unfold Member WatchManager.unsubscribe
  cases found : m.watches.get? realDir with
  | none =>
    dsimp only
    constructor
    · rintro ⟨watch, there, mem⟩
      refine ⟨⟨watch, there, mem⟩, ?_⟩
      rintro ⟨rfl, -⟩
      rw [found] at there
      cases there
    · exact fun there => there.1
  | some watch =>
    dsimp only
    by_cases here : d = realDir
    · subst here
      split_ifs with others none_
      · simp [found]
      · simp only [ne_eq, not_not, List.filter_eq_nil_iff, decide_eq_true_eq] at others
        simpa [found, Dict.get?_erase] using others x
      · simp only [ne_eq, not_not, List.filter_eq_nil_iff, decide_eq_true_eq] at others
        simpa [found, Dict.get?_erase] using others x
    · split_ifs with others none_
      · simp [Dict.get?_insert_of_ne here, here]
      · simp [Dict.get?_erase, here]
      · simp [Dict.get?_erase, here]

theorem Inv.watches (h : Inv api m) : m.Watches api := by
  refine ⟨fun _ _ _ _ _ ok d x => joined ok, fun _ _ _ _ => left, ?_, ?_, ?_, ?_⟩
  · intro realDir watch found _
    exact (h.watched realDir watch found).2.2
  · intro idle done w
    refine ⟨fun there => (h.kept w there).resolve_right ?_, h.subscribed⟩
    rintro (condemned | condemned)
    · rw [idle] at condemned
      cases condemned
    · rw [done] at condemned
      cases condemned
  · intro realDir subscriber recursive schedules m' message error
    rcases subscribe_error error with same | ⟨-, other⟩
    · exact same
    · cases other
  · intro realDir subscriber recursive schedules m' e error
    rcases subscribe_error error with rfl | ⟨rfl, -⟩
    · exact ⟨rfl, rfl, rfl, fun w => Iff.rfl⟩
    · refine ⟨rfl, rfl, rfl, fun w => Iff.trans ?_ scheduled_getD⟩
      simp [Scheduled]

/-- **A subscribed directory stays watched**, in every state of every run. -/
theorem staysWatched (run : Reaches (step api) always ({} : WatchManager O S) m) : m.Watches api :=
  (run.invariant inv_start fun _ _ _ h _ hs => h.step hs).watches

/-- Emitters as the handlers attached to them; there is one where there are handlers. -/
def emitters : ObserverApi (ObservedWatch → List ℕ) where
  start _ := []
  schedule o handler w := Function.update o w (handler :: o w)
  unschedule o w := if o w = [] then none else some (Function.update o w [])
  Scheduled o w := o w ≠ []
  Attached o w handler := handler ∈ o w
  not_scheduled_start := by simp
  scheduled_schedule := by
    intro o handler w w'
    by_cases here : w' = w <;> simp [here]
  attached_schedule := by
    intro o handler w w' handler'
    by_cases here : w' = w <;> simp [here]
  unschedule_none := by simp
  scheduled_unschedule := by
    intro o w o' unscheduled w'
    obtain ⟨-, ⟨⟩⟩ := Option.ite_none_left_eq_some.1 unscheduled
    by_cases here : w' = w <;> simp [here]
  attached_unschedule := by
    intro o w o' unscheduled w' handler ne
    obtain ⟨-, ⟨⟩⟩ := Option.ite_none_left_eq_some.1 unscheduled
    simp [ne]

/-- A directory that is dropped, watched recursively, and watched plainly again before the reaper gets to it. -/
theorem staysWatched_example : ∃ m : WatchManager (ObservedWatch → List ℕ) ℕ,
    m.pending = [] ∧ m.taken = none ∧ m.watches.keys = ["/data"] ∧ m.Watches emitters := by
  let labels : List (WatchLabel ℕ) :=
    [.subscribe "/data" 0 false true, .unsubscribe "/data" 0, .subscribe "/data" 1 true true, .unsubscribe "/data" 1,
      .subscribe "/data" 2 false true, .take, .reap, .take, .reap]
  have ends : (exec (step emitters) ({} : WatchManager (ObservedWatch → List ℕ) ℕ) labels).map (fun m =>
      (m.pending, m.taken, m.watches.keys)) = some ([], none, ["/data"]) := by
    decide +kernel
  obtain ⟨m, run, shows⟩ := Option.map_eq_some_iff.1 ends
  obtain ⟨pending, taken, keys⟩ : m.pending = [] ∧ m.taken = none ∧ m.watches.keys = ["/data"] := by
    simpa using shows
  exact ⟨m, pending, taken, keys, staysWatched (reaches_of_exec run okAlong_always)⟩

end WatchManager

end SensorKit.Common
