import SensorKit.Auto.ScheduleFixpoint
import SensorKit.Common.TimeRange

/-!
# Daily time ranges

A time range criterion yields the daily window that ends next, and the one after it. A day from any reference time on
has no instant of another window.
-/

namespace SensorKit.Auto

open Lib Common

/-- Satisfied during a configured daily time range. -/
structure TimeRangeCriterion where
  start : Option SpecMatch
  «end» : Option SpecMatch

/-- `evaluate`: what it yields, unless it raises. -/
def TimeRangeCriterion.evaluate (parsers : TimeParsers) (criterion : TimeRangeCriterion) (timeRef : ℤ) :
    Except TimeError (List (ℤ × ℤ)) := do
  let horizon := timeRef + day
  let (start, end_) ← parsers.parseTimeRange criterion.start criterion.end timeRef
  if horizon ≤ end_ then return [(start, end_)]
  else
    match parsers.parseTimeRange criterion.start criterion.end (start + day) with
    | .error e => if e.isTimeRangeError then return [(start, end_)] else .error e
    | .ok (nextStart, nextEnd) =>
      -- The endpoints evaluate to the same time.
      if nextEnd = end_ then return [(start, end_), (nextStart + day, nextEnd + day)]
      else return [(start, end_), (nextStart, nextEnd)]

/-- The criterion of a mode. -/
def TimeRangeCriterion.criterion (parsers : TimeParsers) (criterion : TimeRangeCriterion) : AnyCriterion :=
  .timeRange fun timeRef => (criterion.evaluate parsers timeRef).mapError fun _ => .criterion "TimeRangeError"

/-- A daily window runs from its start to the next occurrence of its end. -/
structure DailyWindow (first last : ParsedTime) (b e : ℤ) : Prop where
  begins : OccursAt first b
  ends : OccursAt last e
  lt : b < e
  next : ∀ e', OccursAt last e' → b < e' → e ≤ e'

section Daily

variable {parsers : TimeParsers} {criterion : TimeRangeCriterion} {first last : ParsedTime} {b e r t : ℤ}

/-- A daily window is a day long at most. -/
theorem DailyWindow.le_day (h : DailyWindow first last b e) : e ≤ b + day := by
  by_contra longer
  have earlier := h.next (e + -1 * day) (h.ends.add (-1)) (by omega)
  unfold day at earlier
  omega

theorem dailyWindow_of_le (begins : OccursAt first b) (ends : OccursAt last e) (lt : b < e) (le : e ≤ b + day) :
    DailyWindow first last b e := by
  refine ⟨begins, ends, lt, fun e' occurs after => ?_⟩
  by_contra earlier
  have same := ends.unique (r := b + 1) occurs (by omega) (by omega) (by omega) (by omega)
  omega

/-- What the criterion yields: the window that ends next, and the one a day later. -/
theorem evaluate_daily (starts : Parses parsers criterion.start first) (ends : Parses parsers criterion.end last)
    (r : ℤ) : ∃ b e, criterion.evaluate parsers r = .ok [(b, e), (b + day, e + day)] ∧ DailyWindow first last b e ∧
      r ≤ e ∧ e < r + day := by
  obtain ⟨b, e, parsed, begins, ends_, low, high, long, lt⟩ := parseTimeRange_spec starts ends r
  obtain ⟨b', e', parsed', begins', ends', low', high', long', lt'⟩ := parseTimeRange_spec starts ends (b + day)
  have later := begins.next_day
  have after := ends_.next_day
  refine ⟨b, e, ?_, dailyWindow_of_le begins ends_ lt (by omega), low, high⟩
  unfold TimeRangeCriterion.evaluate
  simp only [parsed, parsed', bind, Except.bind]
  rw [if_neg (by omega)]
  by_cases whole : b + day = e
  · -- The next start is the end itself.
    have same : e' = e := by
      refine ends'.unique (r := e) ends_ ?_ ?_ ?_ ?_ <;> unfold day at * <;> omega
    have start : b' = b := by
      refine begins'.unique (r := e - day) begins ?_ ?_ ?_ ?_ <;> omega
    rw [if_pos same, same, start]
    rfl
  · have next : e' = e + day := by
      refine ends'.unique (r := b + day) after ?_ ?_ ?_ ?_ <;> omega
    have start : b' = b + day := by
      refine begins'.unique (r := e) later ?_ ?_ ?_ ?_ <;> omega
    have other : e' ≠ e := by
      unfold day at next
      omega
    rw [if_neg other, next, start]
    rfl

/-- The day from a reference time on has instants of the window that ends next and of the one after it only. -/
theorem window_iff (window : DailyWindow first last b e) (low : r ≤ e) (high : e < r + day) (from_ : r ≤ t)
    (until_ : t < r + day) :
    (b ≤ t ∧ t < e ∨ b + day ≤ t ∧ t < e + day) ↔ ∃ b e, DailyWindow first last b e ∧ b ≤ t ∧ t < e := by
  have lt := window.lt
  have short := window.le_day
  have following : DailyWindow first last (b + day) (e + day) :=
    dailyWindow_of_le window.begins.next_day window.ends.next_day (by omega) (by omega)
  constructor
  · rintro (⟨le, lt⟩ | ⟨le, lt⟩)
    · exact ⟨b, e, window, le, lt⟩
    · exact ⟨b + day, e + day, following, le, lt⟩
  · rintro ⟨b', e', window', le', lt'⟩
    have short' := window'.le_day
    by_cases before : t < e
    · have ends_ : e' ≤ e := window'.next e window.ends (by omega)
      have same : e' = e := by
        refine window'.ends.unique (r := r) window.ends ?_ ?_ ?_ ?_ <;> omega
      have start : b' = b := by
        refine window'.begins.unique (r := e - day) window.begins ?_ ?_ ?_ ?_ <;> omega
      exact .inl ⟨start ▸ le', before⟩
    · have ends_ : e' ≤ e + day := window'.next (e + day) following.ends (by omega)
      have same : e' = e + day := by
        refine window'.ends.unique (r := e + 1) following.ends ?_ ?_ ?_ ?_ <;> omega
      have start : b' = b + day := by
        refine window'.begins.unique (r := e) following.begins ?_ ?_ ?_ ?_ <;> omega
      exact .inr ⟨start ▸ le', by omega⟩

/-- **A daily time range covers its horizon.** -/
theorem timeRange_covers_horizon (starts : Parses parsers criterion.start first)
    (ends : Parses parsers criterion.end last) (r : ℤ) : ∃ ivs, criterion.evaluate parsers r = .ok ivs ∧
      (∀ iv ∈ ivs, iv.1 < iv.2) ∧ ivs.Pairwise (fun iv iv' => iv.2 ≤ iv'.1) ∧ ∀ t, r ≤ t → t < r + day →
        ((∃ iv ∈ ivs, iv.1 ≤ t ∧ t < iv.2) ↔ ∃ b e, DailyWindow first last b e ∧ b ≤ t ∧ t < e) := by
  obtain ⟨b, e, evaluated, window, low, high⟩ := evaluate_daily starts ends r
  have lt := window.lt
  have short := window.le_day
  refine ⟨_, evaluated, ?_, by simpa using short, fun t from_ until_ => ?_⟩
  · simp only [List.forall_mem_cons, List.not_mem_nil, false_imp_iff, implies_true, and_true]
    omega
  · simp only [List.exists_mem_cons_iff, List.not_mem_nil, false_and, exists_false, or_false]
    exact window_iff window low high from_ until_

/-- Parses two times of day: eight in the evening, UTC, and six in the morning, five hours behind. -/
def nightParsers : TimeParsers where
  parseDatetime spec :=
    if spec = "8PM UTC" then .ok ⟨0, 72000000000, 0⟩
    else if spec = "6AM EST" then .ok ⟨0, 21600000000, -18000000000⟩
    else .error (.other "ParserError")

def nightCriterion : TimeRangeCriterion :=
  ⟨some (.timespec "8pm utc"), some (.timespec "6am est")⟩

theorem timeRange_covers_horizon_night : ∃ ivs, nightCriterion.evaluate nightParsers 1000000000000 = .ok ivs ∧
    (∀ iv ∈ ivs, iv.1 < iv.2) ∧ ivs.length = 2 := by
  have starts : Parses nightParsers nightCriterion.start ⟨0, 72000000000, 0⟩ :=
    ⟨⟨_, rfl, by decide +kernel⟩, rfl, by decide, by decide⟩
  have ends : Parses nightParsers nightCriterion.end ⟨0, 21600000000, -18000000000⟩ :=
    ⟨⟨_, rfl, by decide +kernel⟩, rfl, by decide, by decide⟩
  obtain ⟨ivs, evaluated, proper, -⟩ := timeRange_covers_horizon starts ends 1000000000000
  refine ⟨ivs, evaluated, proper, ?_⟩
  have two : (nightCriterion.evaluate nightParsers 1000000000000).toOption.map List.length = some 2 := by
    decide +kernel
  rw [evaluated] at two
  exact Option.some.inj two

end Daily

end SensorKit.Auto
