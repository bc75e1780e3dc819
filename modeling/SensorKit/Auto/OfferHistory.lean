import SensorKit.Auto.Scheduler

/-!
# The offer history

Each update adds the combined offers to the history, and a window that has disappeared in progress up to now; what
ended more than an hour ago is taken out. So within an hour the history has every window that was ever offered,
whether it was then withdrawn or not, and the after-activity criterion follows the ends of all of them.
-/

namespace SensorKit.Auto

open Lib Scheduler

variable {lib : IntervalTrees ℤ} {duration : ℤ}

/-- A combined offer window. -/
abbrev OfferWindow := Interval ℤ (List String)

/-- The intervals of an after-activity criterion: its duration, from the end of each window. None if it raises. -/
def AfterActivityCriterion.evaluate (duration : ℤ) (context : ModeContext lib) : Option (lib.Tree Unit) :=
  let offers :=
    if lib.intervals context.offerHistory ≠ [] then context.offerHistory else context.previousCombined
  (lib.intervals offers).foldlM (fun tree iv =>
    if h : iv.end < iv.end + duration then some (lib.add tree ⟨iv.end, iv.end + duration, (), h⟩) else none) lib.empty

/-! ## What an update leaves in the history -/

section History

variable {now : ℤ} {previous combined history : lib.Tree (List String)} {iv : OfferWindow}

/-- A loop that adds what each element gives. -/
theorem mem_foldl_iff {γ : Type} {f : lib.Tree (List String) → γ → lib.Tree (List String)}
    {gives : γ → Prop} (turn : ∀ tree x, iv ∈ lib.intervals (f tree x) ↔ iv ∈ lib.intervals tree ∨ gives x)
    (xs : List γ) : iv ∈ lib.intervals (xs.foldl f history) ↔ iv ∈ lib.intervals history ∨ ∃ x ∈ xs, gives x := by
  induction xs generalizing history with
  | nil => simp
  | cons x xs ih =>
    rw [List.foldl_cons, ih, turn]
    simp only [List.mem_cons, exists_eq_or_imp]
    rw [or_assoc]

theorem mem_remember (lawful : lib.Lawful) (x : OfferWindow) :
    iv ∈ lib.intervals (remember history x) ↔ iv ∈ lib.intervals history ∨ iv = x := by
  unfold remember
  split_ifs with there
  · rw [lawful.has] at there
    constructor
    · exact .inl
    · rintro (mem | rfl)
      · exact mem
      · exact there
  · rw [lawful.mem_add, or_comm]

/-- The window was in progress, and nothing is offered in its place. -/
def Vanishes (lib : IntervalTrees ℤ) (now : ℤ) (combined : lib.Tree (List String)) (window : OfferWindow) : Prop :=
  window.begin < now ∧ now < window.end ∧ lib.overlaps combined window.begin window.end = false

theorem mem_rememberTruncated (lawful : lib.Lawful) (window : OfferWindow) :
    iv ∈ lib.intervals (rememberTruncated now combined history window) ↔ iv ∈ lib.intervals history ∨
      Vanishes lib now combined window ∧ iv.PieceOf window window.begin now := by
  unfold rememberTruncated Vanishes
  split_ifs with inside overlaps
  · simp [overlaps]
  · rw [mem_remember lawful]
    unfold Interval.PieceOf
    cases iv
    simp [inside, overlaps]
  · simp only [← and_assoc, inside, false_and, or_false]

/-- What the history has after an update. -/
theorem mem_supportAfterActivity (lawful : lib.Lawful) :
    iv ∈ lib.intervals (supportAfterActivity now previous combined history) ↔
      (iv ∈ lib.intervals history ∨
        (∃ window ∈ lib.intervals previous, Vanishes lib now combined window ∧ iv.PieceOf window window.begin now) ∨
        iv ∈ lib.intervals combined) ∧ now - hour < iv.end := by
  have removed (xs : List OfferWindow) (tree : lib.Tree (List String)) :
      iv ∈ lib.intervals (xs.foldl lib.remove tree) ↔ iv ∈ lib.intervals tree ∧ iv ∉ xs := by
    induction xs generalizing tree with
    | nil => simp
    | cons x xs ih =>
      rw [List.foldl_cons, ih, lawful.mem_remove, List.mem_cons]
      tauto
  unfold supportAfterActivity
  dsimp only
  rw [removed, List.mem_filter, mem_foldl_iff fun tree x => mem_remember lawful x,
    mem_foldl_iff fun tree x => mem_rememberTruncated lawful x]
  simp only [exists_eq_right', decide_eq_true_eq, not_and, not_le]
  constructor
  · rintro ⟨mem, recent⟩
    exact ⟨or_assoc.1 mem, recent mem⟩
  · rintro ⟨mem, recent⟩
    exact ⟨or_assoc.2 mem, fun _ => recent⟩

end History

/-! ## Runs of updates -/

/-- The clock and the combined offers of each update so far. -/
abbrev UpdateLog (lib : IntervalTrees ℤ) :=
  List (ℤ × lib.Tree (List String))

/-- A scheduler after updates with a clock that does not go back. -/
inductive Updated (modes : List (Mode lib)) (configs : List ProgramConfig) : UpdateLog lib → Scheduler lib → Prop
  | created : Updated modes configs [] (create modes configs)
  | update {log : UpdateLog lib} {s s' : Scheduler lib} {now : ℤ} (before : Updated modes configs log s)
      (offers : Dict String OfferWindows) (enabled : Finset String) (clock : ∀ o ∈ log, o.1 ≤ now)
      (updates : s.update offers enabled now = .ok s') :
      Updated modes configs (log ++ [(now, s'.combinedOffers)]) s'

section Log

variable (lib) (log : UpdateLog lib)

/-- The window has been offered. -/
def Offered (window : OfferWindow) : Prop :=
  ∃ o ∈ log, window ∈ lib.intervals o.2

/-- The window was offered at the last update before its end. -/
def OfferedAtEnd (window : OfferWindow) : Prop :=
  ∃ (k : ℕ) (o : ℤ × lib.Tree (List String)), log[k]? = some o ∧ window ∈ lib.intervals o.2 ∧ o.1 < window.end ∧
    ∀ (j : ℕ) (o' : ℤ × lib.Tree (List String)), k < j → log[j]? = some o' → window.end ≤ o'.1

/-- An update found that a window had been withdrawn in progress. -/
def WithdrawnAt (window : OfferWindow) (instant : ℤ) : Prop :=
  ∃ (k : ℕ) (o o' : ℤ × lib.Tree (List String)), log[k]? = some o ∧ log[k + 1]? = some o' ∧
    window ∈ lib.intervals o.2 ∧ o'.1 = instant ∧ Vanishes lib instant o'.2 window

/-- A window completes at its end if it was still offered then, or at the update that found it withdrawn in progress. -/
def CompletesAt (window : OfferWindow) (instant : ℤ) : Prop :=
  instant = window.end ∧ OfferedAtEnd lib log window ∨ WithdrawnAt lib log window instant

/-- The window has been offered, but was not when its end passed. -/
def Stale (window : OfferWindow) : Prop :=
  Offered lib log window ∧ ¬ OfferedAtEnd lib log window

end Log

section Updated

variable {modes : List (Mode lib)} {configs : List ProgramConfig} {log : UpdateLog lib} {s s' : Scheduler lib}

theorem history_of_update {offers : Dict String OfferWindows} {enabled : Finset String} {now : ℤ}
    (h : s.update offers enabled now = .ok s') :
    s'.offerHistory = supportAfterActivity now s.combinedOffers s'.combinedOffers s.offerHistory := by
  unfold update at h
  simp only [bind_eq_ok, pure_eq_ok] at h
  obtain ⟨items, -, rfl⟩ := h
  rfl

theorem withdrawnAt_snoc {x : ℤ × lib.Tree (List String)} {window : OfferWindow} {instant : ℤ} :
    WithdrawnAt lib (log ++ [x]) window instant ↔ WithdrawnAt lib log window instant ∨
      ∃ o, log.getLast? = some o ∧ window ∈ lib.intervals o.2 ∧ x.1 = instant ∧ Vanishes lib instant x.2 window := by
  constructor
  · rintro ⟨k, o, o', first, second, mem, clock, vanishes⟩
    by_cases last : k + 1 < log.length
    · rw [List.getElem?_append_left (by omega)] at first
      rw [List.getElem?_append_left last] at second
      exact .inl ⟨k, o, o', first, second, mem, clock, vanishes⟩
    · have bound := (List.getElem?_eq_some_iff.1 second).1
      rw [List.length_append, List.length_singleton] at bound
      have here : k + 1 = log.length := by omega
      rw [here, List.getElem?_concat_length] at second
      cases second
      rw [List.getElem?_append_left (by omega)] at first
      refine .inr ⟨o, ?_, mem, clock, vanishes⟩
      rw [List.getLast?_eq_getElem?, ← here]
      exact first
  · rintro (⟨k, o, o', first, second, mem, clock, vanishes⟩ | ⟨o, last, mem, clock, vanishes⟩)
    · have bound := (List.getElem?_eq_some_iff.1 second).1
      refine ⟨k, o, o', ?_, ?_, mem, clock, vanishes⟩
      · rwa [List.getElem?_append_left (by omega)]
      · rwa [List.getElem?_append_left bound]
    · rw [List.getLast?_eq_getElem?] at last
      have bound := (List.getElem?_eq_some_iff.1 last).1
      refine ⟨log.length - 1, o, x, ?_, ?_, mem, clock, vanishes⟩
      · rwa [List.getElem?_append_left bound]
      · have here : log.length - 1 + 1 = log.length := by omega
        rw [here, List.getElem?_concat_length]

/-- The previous combined offers are those of the last update. -/
theorem Updated.mem_combinedOffers (lawful : lib.Lawful) (h : Updated modes configs log s) {iv : OfferWindow} :
    iv ∈ lib.intervals s.combinedOffers ↔ ∃ o, log.getLast? = some o ∧ iv ∈ lib.intervals o.2 := by
  cases h with
  | created =>
    have none : iv ∉ lib.intervals (create modes configs).combinedOffers := lawful.empty iv
    simp [none]
  | update before offers enabled clock updates => simp

/-- **What the history has.** Every window that was ever offered, and every one that was withdrawn in progress up to
the update that found it, unless it had ended an hour before some update. -/
theorem Updated.mem_offerHistory (lawful : lib.Lawful) (h : Updated modes configs log s) {iv : OfferWindow} :
    iv ∈ lib.intervals s.offerHistory ↔
      (Offered lib log iv ∨ ∃ window instant, WithdrawnAt lib log window instant ∧
        iv.PieceOf window window.begin instant) ∧ ∀ o ∈ log, o.1 - hour < iv.end := by
  induction h with
  | created =>
    have none : iv ∉ lib.intervals (create modes configs).offerHistory := lawful.empty iv
    simp [none, Offered, WithdrawnAt]
  | @update log s s' now before offers enabled clock updates ih =>
    rw [history_of_update updates, mem_supportAfterActivity lawful, ih]
    have offered : Offered lib (log ++ [(now, s'.combinedOffers)]) iv ↔
        Offered lib log iv ∨ iv ∈ lib.intervals s'.combinedOffers := by
      simp [Offered, or_and_right, exists_or]
    have withdrawn : (∃ window instant, WithdrawnAt lib (log ++ [(now, s'.combinedOffers)]) window instant ∧
        iv.PieceOf window window.begin instant) ↔
        (∃ window instant, WithdrawnAt lib log window instant ∧ iv.PieceOf window window.begin instant) ∨
        ∃ window ∈ lib.intervals s.combinedOffers, Vanishes lib now s'.combinedOffers window ∧
          iv.PieceOf window window.begin now := by
      simp only [withdrawnAt_snoc, before.mem_combinedOffers lawful]
      constructor
      · rintro ⟨window, instant, withdrawn | ⟨o, last, mem, rfl, vanishes⟩, piece⟩
        · exact .inl ⟨window, instant, withdrawn, piece⟩
        · exact .inr ⟨window, ⟨o, last, mem⟩, vanishes, piece⟩
      · rintro (⟨window, instant, withdrawn, piece⟩ | ⟨window, ⟨o, last, mem⟩, vanishes, piece⟩)
        · exact ⟨window, instant, .inl withdrawn, piece⟩
        · exact ⟨window, now, .inr ⟨o, last, mem, rfl, vanishes⟩, piece⟩
    have recent : (∀ o ∈ log ++ [(now, s'.combinedOffers)], o.1 - hour < iv.end) ↔ now - hour < iv.end := by
      constructor
      · intro all
        exact all (now, s'.combinedOffers) (by simp)
      · intro last o mem
        rcases mem_snoc.1 mem with mem | rfl
        · have := clock o mem
          omega
        · exact last
    rw [offered, withdrawn, recent]
    constructor
    · rintro ⟨⟨offered | withdrawn, -⟩ | vanished | here, recent⟩
      · exact ⟨.inl (.inl offered), recent⟩
      · exact ⟨.inr (.inl withdrawn), recent⟩
      · exact ⟨.inr (.inr vanished), recent⟩
      · exact ⟨.inl (.inr here), recent⟩
    · have earlier (recent : now - hour < iv.end) : ∀ o ∈ log, o.1 - hour < iv.end := by
        intro o mem
        have := clock o mem
        omega
      rintro ⟨(offered | here) | withdrawn | vanished, recent⟩
      · exact ⟨.inl ⟨.inl offered, earlier recent⟩, recent⟩
      · exact ⟨.inr (.inr here), recent⟩
      · exact ⟨.inl ⟨.inr withdrawn, earlier recent⟩, recent⟩
      · exact ⟨.inr (.inl vanished), recent⟩

/-- The windows whose ends the criterion follows. -/
def AfterActivityCriterion.offers (context : ModeContext lib) : List OfferWindow :=
  lib.intervals (if lib.intervals context.offerHistory ≠ [] then context.offerHistory else context.previousCombined)

/-- The criterion has an interval from the end of each window. -/
theorem AfterActivityCriterion.mem_evaluate (lawful : lib.Lawful) (pos : 0 < duration)
    (context : ModeContext lib) : ∃ tree, evaluate duration context = some tree ∧ ∀ iv, iv ∈ lib.intervals tree ↔
      ∃ window ∈ offers context, iv.begin = window.end ∧ iv.end = window.end + duration := by
  unfold evaluate offers
  dsimp only
  generalize lib.intervals (if lib.intervals context.offerHistory ≠ [] then context.offerHistory
    else context.previousCombined) = windows
  have all (windows : List OfferWindow) : ∀ tree : lib.Tree Unit, ∃ tree', windows.foldlM (fun tree iv =>
      if h : iv.end < iv.end + duration then some (lib.add tree ⟨iv.end, iv.end + duration, (), h⟩) else none) tree =
        some tree' ∧ ∀ iv, iv ∈ lib.intervals tree' ↔ iv ∈ lib.intervals tree ∨
          ∃ window ∈ windows, iv.begin = window.end ∧ iv.end = window.end + duration := by
    induction windows with
    | nil => exact fun tree => ⟨tree, rfl, by simp⟩
    | cons window windows ih =>
      intro tree
      have lt : window.end < window.end + duration := by omega
      obtain ⟨tree', adds, members⟩ := ih (lib.add tree ⟨window.end, window.end + duration, (), lt⟩)
      refine ⟨tree', ?_, fun iv => ?_⟩
      · rw [List.foldlM_cons, dif_pos lt]
        exact adds
      · have same : iv = ⟨window.end, window.end + duration, (), lt⟩ ↔
            iv.begin = window.end ∧ iv.end = window.end + duration := by
          cases iv
          simp
        rw [members, lawful.mem_add, same, List.exists_mem_cons_iff, or_comm (a := _ ∧ _), or_assoc]
  obtain ⟨tree, adds, members⟩ := all windows lib.empty
  refine ⟨tree, adds, fun iv => ?_⟩
  rw [members, or_iff_right (lawful.empty iv)]

/-- A duration that is not positive raises at the first window. -/
theorem AfterActivityCriterion.evaluate_eq_none (null : duration ≤ 0) {context : ModeContext lib} :
    evaluate duration context = if offers context = [] then some lib.empty else none := by
  unfold evaluate offers
  dsimp only
  generalize lib.intervals (if lib.intervals context.offerHistory ≠ [] then context.offerHistory
    else context.previousCombined) = windows
  cases windows with
  | nil => rfl
  | cons window windows =>
    rw [List.foldlM_cons, dif_neg (by omega)]
    rfl

/-- The criterion contains what is less than its duration after the end of a window. -/
theorem AfterActivityCriterion.covers (lawful : lib.Lawful) (pos : 0 < duration)
    (context : ModeContext lib) : ∃ tree, evaluate duration context = some tree ∧ ∀ t, lib.Covers tree t ↔
      ∃ iv ∈ lib.intervals (if lib.intervals context.offerHistory ≠ [] then context.offerHistory
        else context.previousCombined), iv.end ≤ t ∧ t < iv.end + duration := by
  obtain ⟨tree, evaluated, members⟩ := mem_evaluate lawful pos context
  refine ⟨tree, evaluated, fun t => ?_⟩
  constructor
  · rintro ⟨iv, mem, le, lt⟩
    obtain ⟨window, offered, begins, ends⟩ := (members iv).1 mem
    rw [begins] at le
    rw [ends] at lt
    exact ⟨window, offered, le, lt⟩
  · rintro ⟨window, offered, le, lt⟩
    have some_ : window.end < window.end + duration := by omega
    exact ⟨⟨window.end, window.end + duration, (), some_⟩, (members _).2 ⟨window, offered, rfl, rfl⟩, le, lt⟩

/-- Within the hour, the criterion contains an instant that follows the end of any window that was offered, or the
update that found one withdrawn in progress. -/
theorem Updated.covers_iff (lawful : lib.Lawful) (run : Updated modes configs log s) {now : ℤ}
    (clock : ∀ o ∈ log, o.1 ≤ now) (pos : 0 < duration) (within : duration ≤ hour) :
    ∃ tree, AfterActivityCriterion.evaluate duration (s.context now) = some tree ∧
      (lib.Covers tree now ↔
        (∃ window, Offered lib log window ∧ now - duration < window.end ∧ window.end ≤ now) ∨
        ∃ window instant, WithdrawnAt lib log window instant ∧ now - duration < instant ∧ instant ≤ now) := by
  obtain ⟨tree, evaluates, covers⟩ := AfterActivityCriterion.covers lawful pos (s.context now)
  have recent {e : ℤ} (after : now - duration < e) : ∀ o ∈ log, o.1 - hour < e := by
    intro o mem
    have := clock o mem
    omega
  -- What the history no longer has ended too long ago.
  have known : (∃ iv ∈ lib.intervals (if lib.intervals (s.context now).offerHistory ≠ [] then
      (s.context now).offerHistory else (s.context now).previousCombined), iv.end ≤ now ∧ now < iv.end + duration) ↔
      ∃ iv ∈ lib.intervals s.offerHistory, iv.end ≤ now ∧ now - duration < iv.end := by
    split_ifs with some
    · have shift (e : ℤ) : now < e + duration ↔ now - duration < e := by omega
      simp only [shift]
      rfl
    · have empty : lib.intervals s.offerHistory = [] := not_not.1 some
      rw [empty]
      constructor
      · rintro ⟨iv, mem, -, after⟩
        obtain ⟨o, last, listed⟩ := (run.mem_combinedOffers lawful).1 mem
        have there : iv ∈ lib.intervals s.offerHistory := (run.mem_offerHistory lawful).2
          ⟨.inl ⟨o, List.mem_of_getLast? last, listed⟩, recent (by omega)⟩
        rw [empty] at there
        exact absurd there List.not_mem_nil
      · rintro ⟨iv, mem, -⟩
        exact absurd mem List.not_mem_nil
  refine ⟨tree, evaluates, ?_⟩
  rw [covers, known]
  constructor
  · rintro ⟨iv, mem, le, after⟩
    rcases ((run.mem_offerHistory lawful).1 mem).1 with offered | ⟨window, instant, withdrawn, piece⟩
    · exact .inl ⟨iv, offered, after, le⟩
    · rw [piece.2.1] at le after
      exact .inr ⟨window, instant, withdrawn, after, le⟩
  · rintro (⟨window, offered, after, le⟩ | ⟨window, instant, withdrawn, after, le⟩)
    · exact ⟨window, (run.mem_offerHistory lawful).2 ⟨.inl offered, recent after⟩, le, after⟩
    · obtain ⟨k, o, o', -, -, -, -, began, -⟩ := id withdrawn
      refine ⟨⟨window.begin, instant, window.data, began⟩, ?_, le, after⟩
      exact (run.mem_offerHistory lawful).2 ⟨.inr ⟨window, instant, withdrawn, rfl, rfl, rfl⟩, recent after⟩

theorem OfferedAtEnd.offered {window : OfferWindow} (h : OfferedAtEnd lib log window) : Offered lib log window := by
  obtain ⟨k, o, here, mem, -⟩ := h
  exact ⟨o, List.mem_of_getElem? here, mem⟩

/-- **The criterion follows activity exactly when no stale window misleads it.** Where a window ended within the
duration without being offered any more, the criterion contains the instant all the same; that is right only if some
window did complete within the duration. -/
theorem afterActivity_iff (lawful : lib.Lawful) (run : Updated modes configs log s) {now duration : ℤ}
    (clock : ∀ o ∈ log, o.1 ≤ now) (pos : 0 < duration) (within : duration ≤ hour) :
    ∃ tree, AfterActivityCriterion.evaluate duration (s.context now) = some tree ∧
      ((lib.Covers tree now ↔
          ∃ window instant, CompletesAt lib log window instant ∧ now - duration < instant ∧ instant ≤ now) ↔
        ((∃ window, Stale lib log window ∧ now - duration < window.end ∧ window.end ≤ now) →
          ∃ window instant, CompletesAt lib log window instant ∧ now - duration < instant ∧ instant ≤ now)) := by
  obtain ⟨tree, evaluates, covers⟩ := run.covers_iff lawful clock pos within
  refine ⟨tree, evaluates, ?_⟩
  constructor
  · rintro exact_ ⟨window, stale, after, le⟩
    exact exact_.1 (covers.2 (.inl ⟨window, stale.1, after, le⟩))
  · intro misled
    rw [covers]
    constructor
    · rintro (⟨window, offered, after, le⟩ | ⟨window, instant, withdrawn, between⟩)
      · by_cases still : OfferedAtEnd lib log window
        · exact ⟨window, window.end, .inl ⟨rfl, still⟩, after, le⟩
        · exact misled ⟨window, ⟨offered, still⟩, after, le⟩
      · exact ⟨window, instant, .inr withdrawn, between⟩
    · rintro ⟨window, instant, ⟨rfl, still⟩ | withdrawn, between⟩
      · exact .inl ⟨window, still.offered, between⟩
      · exact .inr ⟨window, instant, withdrawn, between⟩

end Updated

/-- A scheduler with one program and no modes. -/
def surveyScheduler : Scheduler (IntervalTrees.lists ℤ) :=
  create [] [{ program := "survey" }]

/-- The program offers one window. -/
def oneOffer : Dict String OfferWindows :=
  .ofList [("survey", [(100, 200)])]

/-- The window is withdrawn before it begins; after what would have been its end the criterion contains the instant. -/
theorem withdrawn_covers : ∃ log s tree,
    Updated ([] : List (Mode (IntervalTrees.lists ℤ))) [{ program := "survey" }] log s ∧ (∀ o ∈ log, o.1 ≤ 210) ∧
    AfterActivityCriterion.evaluate 60 (s.context 210) = some tree ∧ (IntervalTrees.lists ℤ).Covers tree 210 ∧
    ¬ ∃ window instant, CompletesAt (IntervalTrees.lists ℤ) log window instant ∧ 210 - 60 < instant ∧ instant ≤ 210 := by
  have runs : (surveyScheduler.update oneOffer {"survey"} 0).toOption.bind (fun s => (s.update .empty {"survey"} 50).toOption.bind fun s' =>
        (AfterActivityCriterion.evaluate 60 (s'.context 210)).map fun tree =>
          (s.combinedOffers.1.map Interval.end, s'.combinedOffers.1.map Interval.end,
            decide ((IntervalTrees.lists ℤ).Covers tree 210))) = some ([200], [], true) := by
    decide +kernel
  obtain ⟨s, first, runs⟩ := Option.bind_eq_some_iff.1 runs
  obtain ⟨s', second, runs⟩ := Option.bind_eq_some_iff.1 runs
  obtain ⟨tree, evaluates, facts⟩ := Option.map_eq_some_iff.1 runs
  obtain ⟨offered, withdrawn, covers⟩ : _ ∧ _ ∧ _ := by simpa only [Prod.mk.injEq] using facts
  have run := (Updated.created.update oneOffer {"survey"} (by simp) (toOption_eq_some.1 first)).update .empty {"survey"}
    (by simp) (toOption_eq_some.1 second)
  refine ⟨_, s', tree, run, by simp, evaluates, of_decide_eq_true covers, ?_⟩
  rintro ⟨window, instant, completes, after, -⟩
  rcases completes with ⟨rfl, k, o, here, mem, -, later⟩ | ⟨k, o, o', -, next, -, rfl, -⟩
  · rcases k with _ | _ | k
    · cases here
      have ends : window.end ∈ [200] := offered ▸ List.mem_map_of_mem mem
      have passed := later 1 _ (by omega) rfl
      simp at ends passed
      omega
    · cases here
      have ends : window.end ∈ [] := withdrawn ▸ List.mem_map_of_mem mem
      exact absurd ends List.not_mem_nil
    · simp at here
  · rcases k with _ | k
    · cases next
      simp at after
    · simp at next

/-- The window is offered to its end. -/
theorem afterActivity_iff_example : ∃ log s tree,
    Updated ([] : List (Mode (IntervalTrees.lists ℤ))) [{ program := "survey" }] log s ∧
    AfterActivityCriterion.evaluate 60 (s.context 210) = some tree ∧ ((IntervalTrees.lists ℤ).Covers tree 210 ↔
      ∃ window instant, CompletesAt (IntervalTrees.lists ℤ) log window instant ∧ 210 - 60 < instant ∧ instant ≤ 210) := by
  have runs : (surveyScheduler.update oneOffer {"survey"} 0).toOption.map (fun s => s.combinedOffers.1.map Interval.end) = some [200] := by
    decide +kernel
  obtain ⟨s, first, offered⟩ := Option.map_eq_some_iff.1 runs
  have run := Updated.created.update oneOffer {"survey"} (by simp) (toOption_eq_some.1 first)
  have clock : ∀ o ∈ [] ++ [((0 : ℤ), s.combinedOffers)], o.1 ≤ 210 := by simp
  obtain ⟨tree, evaluates, exact_⟩ := afterActivity_iff IntervalTrees.lawful_lists run clock
    (show (0 : ℤ) < 60 by decide) (show (60 : ℤ) ≤ hour by decide)
  refine ⟨_, s, tree, run, evaluates, exact_.2 ?_⟩
  rintro ⟨window, ⟨⟨o, listed, mem⟩, stale⟩, -⟩
  obtain rfl := List.mem_singleton.1 listed
  have ends : window.end ∈ [200] := offered ▸ List.mem_map_of_mem mem
  refine absurd ⟨0, _, rfl, mem, ?_, fun j o' before found => ?_⟩ stale
  · rw [List.mem_singleton.1 ends]
    exact (by decide : (0 : ℤ) < 200)
  · have bound := (List.getElem?_eq_some_iff.1 found).1
    simp at bound
    omega

end SensorKit.Auto
