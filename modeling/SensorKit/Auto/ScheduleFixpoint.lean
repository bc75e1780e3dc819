import SensorKit.Auto.Mode

/-!
# Two updates reach a fixpoint

Modes read the combined offers and the history that updates leave. The combined offers follow from the offers alone, and
the history from one update on keeps what it has while the clock stands still; so the second update evaluates the modes
as any further one does, but for the order in which the history lists its intervals, and no mode can tell that.
-/

namespace SensorKit.Auto

open Lib Common IntervalTrees Scheduler

variable {lib : IntervalTrees ℤ} {items : List (String × OfferWindows)}

/-- A configured criterion. What a time range yields follows from the reference time. -/
inductive AnyCriterion where
  | timeRange (occurrences : ℤ → Except ModeError (List (ℤ × ℤ)))
  | taskingAvailable (fromProgram : Option String := none)
  /-- The duration as its spec is parsed. -/
  | afterActivity (duration : Except ModeError ℤ)

/-- The intervals of a tree as tuples. -/
def tuples {δ : Type} (data : δ → Option (List String)) (tree : lib.Tree δ) : IntervalList :=
  (lib.intervals tree).map fun iv => (iv.begin, iv.end, data iv.data)

/-- `evaluate` of the criteria. -/
def AnyCriterion.evaluate (lib : IntervalTrees ℤ) : AnyCriterion → Criterion lib
  | .timeRange occurrences, context => do
    return (← occurrences context.timeRef).map fun iv => (iv.1, iv.2, none)
  | .taskingAvailable none, context => .ok (tuples some context.previousCombined)
  | .taskingAvailable (some program), context =>
    .ok ((tuples some context.previousCombined).filter fun iv => program ∈ iv.2.2.getD [])
  | .afterActivity duration, context => do
    match AfterActivityCriterion.evaluate (← duration) context with
    | none => .error .value
    | some tree => return tuples (fun _ => none) tree

/-- A configured mode. -/
structure ModeConfig where
  name : String
  state : ModeState := .operate
  criteria : List AnyCriterion := []

/-- The mode of the configuration. -/
def ModeConfig.mode (merging : Merging lib) (config : ModeConfig) : Mode lib where
  name := config.name
  state := config.state
  evaluate context := (evaluateCriteria merging context (config.criteria.map (AnyCriterion.evaluate lib))).toOption

/-! ## What modes can tell -/

/-- The trees have the same intervals. -/
def SameTree (lib : IntervalTrees ℤ) {δ : Type} (tree tree' : lib.Tree δ) : Prop :=
  ∀ iv, iv ∈ lib.intervals tree ↔ iv ∈ lib.intervals tree'

/-- The contexts are equal, as trees are. -/
structure ModeContext.Same (context context' : ModeContext lib) : Prop where
  timeRef : context.timeRef = context'.timeRef
  previousCombined : SameTree lib context.previousCombined context'.previousCombined
  offerHistory : SameTree lib context.offerHistory context'.offerHistory

/-- Both raise the same, or both return what is alike. -/
def Alike {α : Type} (same : α → α → Prop) (x y : Except ModeError α) : Prop :=
  (∃ e, x = .error e ∧ y = .error e) ∨ ∃ a b, x = .ok a ∧ y = .ok b ∧ same a b

section Alike

variable {merging : Merging lib} {context context' : ModeContext lib} {ivs ivs' : IntervalList}

/-- The lists have the same elements. -/
def SameElements (ivs ivs' : IntervalList) : Prop :=
  ∀ iv, iv ∈ ivs ↔ iv ∈ ivs'

theorem tuples_same {δ : Type} (data : δ → Option (List String)) {tree tree' : lib.Tree δ} (same : SameTree lib tree tree') :
    SameElements (tuples data tree) (tuples data tree') := by
  intro iv
  unfold tuples
  simp only [List.mem_map, same _]

/-- The after-activity criterion of a duration that is not positive raises if there is a window. -/
theorem afterActivity_alike (lawful : lib.Lawful) (same : context.Same context') (duration : ℤ) :
    (AfterActivityCriterion.evaluate duration context = none ∧ AfterActivityCriterion.evaluate duration context' = none) ∨
      ∃ tree tree', AfterActivityCriterion.evaluate duration context = some tree ∧
        AfterActivityCriterion.evaluate duration context' = some tree' ∧ SameTree lib tree tree' := by
  have empty {δ : Type} {tree tree' : lib.Tree δ} (same : SameTree lib tree tree') :
      lib.intervals tree = [] ↔ lib.intervals tree' = [] := by
    rw [List.eq_nil_iff_forall_not_mem, List.eq_nil_iff_forall_not_mem]
    exact forall_congr' fun iv => not_congr (same iv)
  have offers (window : OfferWindow) : window ∈ AfterActivityCriterion.offers context ↔
      window ∈ AfterActivityCriterion.offers context' := by
    unfold AfterActivityCriterion.offers
    by_cases history : lib.intervals context.offerHistory = []
    · rw [if_neg (not_not.2 history), if_neg (not_not.2 ((empty same.offerHistory).1 history))]
      exact same.previousCombined window
    · rw [if_pos history, if_pos (mt (empty same.offerHistory).2 history)]
      exact same.offerHistory window
  rcases lt_or_ge 0 duration with pos | null
  · obtain ⟨tree, evaluated, members⟩ := AfterActivityCriterion.mem_evaluate lawful pos context
    obtain ⟨tree', evaluated', members'⟩ := AfterActivityCriterion.mem_evaluate lawful pos context'
    refine .inr ⟨tree, tree', evaluated, evaluated', fun iv => ?_⟩
    rw [members, members']
    simp only [offers]
  · have none_iff : AfterActivityCriterion.offers context = [] ↔ AfterActivityCriterion.offers context' = [] := by
      rw [List.eq_nil_iff_forall_not_mem, List.eq_nil_iff_forall_not_mem]
      exact forall_congr' fun window => not_congr (offers window)
    rw [AfterActivityCriterion.evaluate_eq_none null, AfterActivityCriterion.evaluate_eq_none null]
    by_cases none : AfterActivityCriterion.offers context = []
    · rw [if_pos none, if_pos (none_iff.1 none)]
      exact .inr ⟨_, _, rfl, rfl, fun iv => Iff.rfl⟩
    · rw [if_neg none, if_neg (mt none_iff.2 none)]
      exact .inl ⟨rfl, rfl⟩

theorem criterion_alike (lawful : lib.Lawful) (same : context.Same context') (criterion : AnyCriterion) :
    Alike SameElements (criterion.evaluate lib context) (criterion.evaluate lib context') := by
  cases criterion with
  | timeRange occurrences =>
    simp only [AnyCriterion.evaluate, same.timeRef]
    cases occurrences context'.timeRef with
    | error e => exact .inl ⟨e, rfl, rfl⟩
    | ok ivs => exact .inr ⟨_, _, rfl, rfl, fun iv => Iff.rfl⟩
  | taskingAvailable program =>
    have listed := tuples_same some same.previousCombined
    cases program with
    | none => exact .inr ⟨_, _, rfl, rfl, listed⟩
    | some program =>
      refine .inr ⟨_, _, rfl, rfl, fun iv => ?_⟩
      rw [List.mem_filter, List.mem_filter, listed iv]
  | afterActivity duration =>
    simp only [AnyCriterion.evaluate]
    cases duration with
    | error e => exact .inl ⟨e, rfl, rfl⟩
    | ok duration =>
      rcases afterActivity_alike lawful same duration with ⟨raises, raises'⟩ | ⟨tree, tree', returns, returns', alike⟩
      · exact .inl ⟨.value, by simp [bind, Except.bind, raises], by simp [bind, Except.bind, raises']⟩
      · refine .inr ⟨tuples (fun _ => none) tree, tuples (fun _ => none) tree', ?_, ?_, tuples_same _ alike⟩
        · simp [bind, Except.bind, pure, Except.pure, returns]
        · simp [bind, Except.bind, pure, Except.pure, returns']

theorem fromTuples_alike (lawful : lib.Lawful) (same : SameElements ivs ivs') :
    Alike (SameTree lib) (fromTuples lib ivs) (fromTuples lib ivs') := by
  by_cases proper : ∀ iv ∈ ivs, iv.1 < iv.2.1
  · obtain ⟨tree, built, members⟩ := mem_fromTuples lawful proper
    obtain ⟨tree', built', members'⟩ := mem_fromTuples lawful fun iv mem => proper iv ((same iv).2 mem)
    refine .inr ⟨tree, tree', built, built', fun iv => ?_⟩
    rw [members, members', same]
  · obtain ⟨iv, mem, null⟩ : ∃ iv ∈ ivs, ¬ iv.1 < iv.2.1 := by simpa using proper
    exact .inl ⟨.value, fromTuples_error ⟨iv, mem, null⟩, fromTuples_error ⟨iv, (same iv).1 mem, null⟩⟩

/-- Trees that cover the same are merged to the same intervals. -/
theorem pairs_perm (lawful : lib.Lawful) (merges : merging.Lawful) {tree tree' : lib.Tree (Option (List String))}
    (same : SameTree lib tree tree') :
    (lib.pairs (merging.mergeOverlaps tree)).Perm (lib.pairs (merging.mergeOverlaps tree')) := by
  have covers (p : ℤ) : lib.Covers (merging.mergeOverlaps tree) p ↔ lib.Covers (merging.mergeOverlaps tree') p := by
    rw [merges.covers, merges.covers]
    unfold Covers
    simp only [same _]
  have apart := merges.apart tree
  have apart' := merges.apart tree'
  refine (List.perm_ext_iff_of_nodup (apart.pairs_nodup lawful) (apart'.pairs_nodup lawful)).2 fun x => ?_
  exact ⟨apart.pairs_subset apart' covers x, apart'.pairs_subset apart (fun p => (covers p).symm) x⟩

/-- The sweep starts from a sort, so the order of its inputs' intervals does not matter. -/
theorem intersect_perm {inputs inputs' : List (List (ℤ × ℤ))} (perm : List.Forall₂ List.Perm inputs inputs') :
    intersectIntervalTrees lib inputs = intersectIntervalTrees lib inputs' := by
  have sorted (ivs : List (ℤ × ℤ)) :
      (ivs.mergeSort fun a b => toLex a ≤ toLex b).Pairwise fun a b => toLex a ≤ toLex b := by
    have sorted := @List.pairwise_mergeSort _ (fun a b : ℤ × ℤ => decide (toLex a ≤ toLex b))
      (fun a b c first second => by simpa using le_trans (of_decide_eq_true first) (of_decide_eq_true second))
      (fun a b => by simpa using le_total _ _) ivs
    exact sorted.imp of_decide_eq_true
  have same : merged inputs = merged inputs' := by
    unfold merged
    refine List.Perm.eq_of_pairwise (fun a b _ _ first second => ?_) (sorted _) (sorted _) ?_
    · exact toLex.injective (le_antisymm first second)
    · exact (List.mergeSort_perm ..).trans ((List.Perm.flatten_congr perm).trans (List.mergeSort_perm ..).symm)
  unfold intersectIntervalTrees
  rw [same, perm.length_eq]

/-- **A mode cannot tell** contexts that have the same intervals. -/
theorem evaluateTrees_alike (lawful : lib.Lawful) (merges : merging.Lawful) (same : context.Same context')
    (criteria : List AnyCriterion) {trees trees' : List (lib.Tree (Option (List String)))}
    (perm : List.Forall₂ List.Perm (trees.map lib.pairs) (trees'.map lib.pairs)) :
    evaluateTrees merging context (criteria.map (AnyCriterion.evaluate lib)) trees =
      evaluateTrees merging context' (criteria.map (AnyCriterion.evaluate lib)) trees' := by
  induction criteria generalizing trees trees' with
  | nil =>
    simp only [List.map_nil, evaluateTrees]
    rw [intersect_perm perm]
  | cons criterion criteria ih =>
    simp only [List.map_cons, evaluateTrees]
    rcases criterion_alike lawful same criterion with ⟨e, raises, raises'⟩ | ⟨ivs, ivs', yields, yields', elements⟩
    · rw [raises, raises']
      rfl
    rcases fromTuples_alike lawful elements with ⟨e, raises, raises'⟩ | ⟨tree, tree', built, built', alike⟩
    · simp [bind, Except.bind, yields, yields', raises, raises']
    simp only [bind, Except.bind, yields, yields', built, built']
    have empty : (lib.intervals tree).isEmpty = (lib.intervals tree').isEmpty := by
      rw [Bool.eq_iff_iff, List.isEmpty_iff, List.isEmpty_iff, List.eq_nil_iff_forall_not_mem,
        List.eq_nil_iff_forall_not_mem]
      exact forall_congr' fun iv => not_congr (alike iv)
    rw [empty]
    split_ifs
    · rfl
    · apply ih
      rw [List.map_append, List.map_append]
      exact List.rel_append perm (.cons (pairs_perm lawful merges alike) .nil)

end Alike

/-! ## Updates with the clock held fixed -/

section Fixpoint

variable {merging : Merging lib} {s s' : Scheduler lib} {offers : Dict String OfferWindows} {enabled : Finset String}
  {now : ℤ}

/-- An update that raises leaves the scheduler as it is. -/
def attempt (offers : Dict String OfferWindows) (enabled : Finset String) (now : ℤ) (s : Scheduler lib) : Scheduler lib :=
  match s.update offers enabled now with
  | .ok s' => s'
  | .error _ => s

/-- Nothing has changed: neither the combined offers nor the schedule, nor the intervals of the history. -/
structure Unchanged (s s' : Scheduler lib) : Prop where
  modes : s'.modes = s.modes
  programConfigs : s'.programConfigs = s.programConfigs
  combinedOffers : s'.combinedOffers = s.combinedOffers
  intervals : s'.intervals = s.intervals
  offerHistory : SameTree lib s'.offerHistory s.offerHistory

theorem Unchanged.refl (s : Scheduler lib) : Unchanged s s :=
  ⟨rfl, rfl, rfl, rfl, fun _ => Iff.rfl⟩

theorem Unchanged.trans {r : Scheduler lib} (h : Unchanged r s) (h' : Unchanged s s') : Unchanged r s' :=
  ⟨h'.modes.trans h.modes, h'.programConfigs.trans h.programConfigs, h'.combinedOffers.trans h.combinedOffers,
    h'.intervals.trans h.intervals, fun iv => (h'.offerHistory iv).trans (h.offerHistory iv)⟩

/-- Modes of a configuration, in contexts that have the same intervals. -/
theorem evaluatedModes_congr (lawful : lib.Lawful) (merges : merging.Lawful)
    (configured : ∃ configs : List ModeConfig, s.modes = configs.map (ModeConfig.mode merging)) (modes : s'.modes = s.modes)
    (same : (s.context now).Same (s'.context now)) : s'.evaluatedModes now = s.evaluatedModes now := by
  obtain ⟨configs, configured⟩ := configured
  unfold evaluatedModes
  rw [modes]
  refine List.map_congr_left fun mode mem => ?_
  rw [configured] at mem
  obtain ⟨config, -, rfl⟩ := List.mem_map.1 mem
  have alike : evaluateTrees merging (s.context now) (config.criteria.map (AnyCriterion.evaluate lib)) [] =
      evaluateTrees merging (s'.context now) (config.criteria.map (AnyCriterion.evaluate lib)) [] :=
    evaluateTrees_alike lawful merges same config.criteria .nil
  simp only [ModeConfig.mode, evaluateCriteria, alike]

/-- **The history settles with the first update**: what it has left out is not in it again. -/
theorem history_settles (lawful : lib.Lawful) (previous combined history : lib.Tree (List String)) :
    SameTree lib (supportAfterActivity now combined combined (supportAfterActivity now previous combined history))
      (supportAfterActivity now previous combined history) := by
  intro iv
  have present : ¬ ∃ window ∈ lib.intervals combined, Vanishes lib now combined window ∧
      iv.PieceOf window window.begin now := by
    rintro ⟨window, mem, ⟨-, -, gone⟩, -⟩
    have overlaps := (lawful.overlaps combined window.begin window.end window.lt).2 ⟨window, mem, window.lt, window.lt⟩
    rw [overlaps] at gone
    cases gone
  rw [mem_supportAfterActivity lawful, mem_supportAfterActivity lawful, or_iff_right present]
  constructor
  · rintro ⟨⟨mem, -⟩ | offered, recent⟩
    · exact ⟨mem, recent⟩
    · exact ⟨.inr (.inr offered), recent⟩
  · rintro ⟨mem, recent⟩
    exact ⟨.inl ⟨mem, recent⟩, recent⟩

/-- What an update that returns leaves. -/
theorem attempt_eq (now : ℤ) (sorted : s.sortedOffers offers enabled = .ok items) :
    attempt offers enabled now s = s.updated now (createSchedule lib s.modes (s.evaluatedModes now) items) := by
  unfold attempt update
  simp only [sorted, bind, Except.bind]
  rfl

theorem modes_attempt : (attempt offers enabled now s).modes = s.modes := by
  cases sorted : s.sortedOffers offers enabled with
  | error e =>
    unfold attempt update
    simp only [sorted, bind, Except.bind]
  | ok items =>
    rw [attempt_eq now sorted]
    rfl

/-- The combined offers are those of an update with the arguments, and the history keeps what it has. -/
structure Settled (offers : Dict String OfferWindows) (enabled : Finset String) (now : ℤ)
    (items : List (String × OfferWindows)) (s : Scheduler lib) : Prop where
  sorted : s.sortedOffers offers enabled = .ok items
  combined : s.combinedOffers = combineIntervalTrees lib items
  history : SameTree lib (supportAfterActivity now s.combinedOffers s.combinedOffers s.offerHistory) s.offerHistory

/-- The first update settles the offers and the history. -/
theorem settled_attempt (lawful : lib.Lawful) (now : ℤ)
    (sorted : s.sortedOffers offers enabled = .ok items) :
    Settled offers enabled now items (attempt offers enabled now s) := by
  rw [attempt_eq now sorted]
  exact ⟨sorted, rfl, history_settles lawful _ _ _⟩

/-- **The second update evaluates the modes as any further one does.** -/
theorem Settled.unchanged (lawful : lib.Lawful) (merges : merging.Lawful)
    (configured : ∃ configs : List ModeConfig, s.modes = configs.map (ModeConfig.mode merging))
    (h : Settled offers enabled now items s) :
    Unchanged (attempt offers enabled now s) (attempt offers enabled now (attempt offers enabled now s)) := by
  have settled := settled_attempt lawful now h.sorted
  have first := attempt_eq now h.sorted
  have second := attempt_eq now settled.sorted
  have combined : (attempt offers enabled now s).combinedOffers = s.combinedOffers := by
    rw [settled.combined, h.combined]
  have history : SameTree lib s.offerHistory (attempt offers enabled now s).offerHistory := by
    intro iv
    rw [first]
    show _ ↔ iv ∈ lib.intervals (supportAfterActivity now s.combinedOffers (combineIntervalTrees lib items) s.offerHistory)
    rw [← h.combined, h.history iv]
  have modes : (attempt offers enabled now s).modes = s.modes := modes_attempt
  have evaluated : (attempt offers enabled now s).evaluatedModes now = s.evaluatedModes now := by
    refine evaluatedModes_congr lawful merges configured modes ⟨rfl, fun iv => ?_, history⟩
    show iv ∈ lib.intervals s.combinedOffers ↔ iv ∈ lib.intervals (attempt offers enabled now s).combinedOffers
    rw [combined]
  refine ⟨?_, ?_, ?_, ?_, ?_⟩
  · rw [second]
    rfl
  · rw [second]
    rfl
  · rw [second, settled.combined]
    rfl
  · have created : (attempt offers enabled now s).intervals = (createSchedule lib s.modes (s.evaluatedModes now) items).2 := by
      rw [first]
      rfl
    rw [second, created, ← modes, ← evaluated]
    rfl
  · intro iv
    have kept := settled.history iv
    rw [second]
    show iv ∈ lib.intervals (supportAfterActivity now _ (combineIntervalTrees lib items) _) ↔ _
    rw [← settled.combined]
    exact kept

/-- **Two updates reach a fixpoint**: while the clock stands still, further updates with the same offers and enabled
programs change nothing. -/
theorem update_fixpoint (lawful : lib.Lawful) (merges : merging.Lawful) (s : Scheduler lib)
    (configured : ∃ configs : List ModeConfig, s.modes = configs.map (ModeConfig.mode merging))
    (offers : Dict String OfferWindows) (enabled : Finset String) (now : ℤ) (k : ℕ) :
    Unchanged ((attempt offers enabled now)^[2] s) ((attempt offers enabled now)^[k] ((attempt offers enabled now)^[2] s)) := by
  cases sorted : s.sortedOffers offers enabled with
  | error e =>
    have raises : attempt offers enabled now s = s := by
      unfold attempt update
      simp only [sorted, bind, Except.bind]
    have fixed (n : ℕ) : (attempt offers enabled now)^[n] s = s := Function.iterate_fixed raises n
    rw [fixed, fixed]
    exact .refl s
  | ok items =>
    let after (n : ℕ) := (attempt offers enabled now)^[n] s
    have next (n : ℕ) : after (n + 1) = attempt offers enabled now (after n) := Function.iterate_succ_apply' ..
    have modes (n : ℕ) : (after n).modes = s.modes := by
      induction n with
      | zero => rfl
      | succ n ih => rw [next, modes_attempt, ih]
    have settled (n : ℕ) : Settled offers enabled now items (after (n + 1)) := by
      induction n with
      | zero => exact settled_attempt lawful _ sorted
      | succ n ih =>
        rw [next]
        exact settled_attempt lawful _ ih.sorted
    have unchanged (n : ℕ) : Unchanged (after 2) (after (n + 2)) := by
      induction n with
      | zero => exact .refl _
      | succ n ih =>
        have turn := (settled n).unchanged lawful merges (modes (n + 1) ▸ configured)
        rw [← next, ← next] at turn
        exact ih.trans turn
    rw [← Function.iterate_add_apply]
    exact unchanged k

/-- A mode while a program offers, or an hour after. -/
def surveyConfigs : List ModeConfig :=
  [{ name := "survey", criteria := [.taskingAvailable (some "survey"), .timeRange fun now => .ok [(now - 5, now + 50)]] },
    { name := "rest", state := .standby, criteria := [.afterActivity (.ok 40)] }]

theorem update_fixpoint_example :
    let s : Scheduler (lists ℤ) :=
      { modes := surveyConfigs.map (ModeConfig.mode (mergingLists ℤ)), programConfigs := .ofList [("survey", ⟨"survey", 5, false⟩)] }
    (s.update (.ofList [("survey", [(10, 20), (30, 45)])]) {"survey"} 15).toOption.isSome = true ∧
      Unchanged ((attempt (.ofList [("survey", [(10, 20), (30, 45)])]) {"survey"} 15)^[2] s)
        ((attempt (.ofList [("survey", [(10, 20), (30, 45)])]) {"survey"} 15)^[3]
          ((attempt (.ofList [("survey", [(10, 20), (30, 45)])]) {"survey"} 15)^[2] s)) :=
  ⟨rfl, update_fixpoint lawful_lists mergingLists_lawful _ ⟨surveyConfigs, rfl⟩ _ _ _ 3⟩

end Fixpoint

end SensorKit.Auto
