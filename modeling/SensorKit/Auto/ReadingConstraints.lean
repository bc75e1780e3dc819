import Mathlib.Data.List.ReduceOption
import SensorKit.Auto.Constraint
import SensorKit.Common.Condition

/-!
# Constraints on readings

`GenericConstraint` feeds the values of a keyword through a condition. `WeatherConstraint` compares weather readings with
limits: a value above its limit latches, and the field must then fall by the deadband.
-/

namespace SensorKit.Auto

open Lib Common

/-! ## Conditions on keywords -/

/-- Generic constraint driven by a condition that is evaluated against a keyword of an entity. -/
structure GenericConstraint (V : Type) where
  entity : String
  keyword : String
  field : Option String := none
  condition : Evaluate V

namespace GenericConstraint

variable {V : Type} (constraint : GenericConstraint V) (shown : V → String)

def label : String :=
  let label := constraint.entity ++ "." ++ constraint.keyword
  match constraint.field with
  | none => label
  | some field => if field = "" then label else label ++ "." ++ field

/-- A turn of `check_task`, and what it calls on the evaluator. A message that cannot be decoded is passed over, the first
value is only recorded. -/
def turn (watch : Option (Watch V)) (message : Option V) : Option (Watch V) × List EvaluatorCall :=
  match message, watch with
  | none, _ => (watch, [])
  | some current, none => (some { previous := current }, [])
  | some current, some watch =>
    let watch := watch.next constraint.condition current
    let reason := constraint.label ++ " = " ++ shown current
    (some watch, [if watch.active then .constrain reason none else .clear reason none, .ready])

/-- The state of `check_task` after the messages. -/
def after (messages : List (Option V)) : Option (Watch V) :=
  messages.foldl (fun watch message => (constraint.turn shown watch message).1) none

end GenericConstraint

/-! ## Limits on weather readings -/

/-- Ambient weather conditions, with all fields optional. -/
structure BasicWeather where
  temperature : Option ℚ := none
  humidity : Option ℚ := none
  pressure : Option ℚ := none
  cloudCover : Option ℚ := none
  dewPoint : Option ℚ := none
  rainRate : Option ℚ := none
  windDirection : Option ℚ := none
  windSpeed : Option ℚ := none
deriving DecidableEq, Repr

/-- `getattr(weather, name, None)`. -/
def BasicWeather.getattr (weather : BasicWeather) : String → Option ℚ
  | "temperature" => weather.temperature
  | "humidity" => weather.humidity
  | "pressure" => weather.pressure
  | "cloud_cover" => weather.cloudCover
  | "dew_point" => weather.dewPoint
  | "rain_rate" => weather.rainRate
  | "wind_direction" => weather.windDirection
  | "wind_speed" => weather.windSpeed
  | _ => none

structure WeatherFieldEvaluator where
  name : String
  threshold : ℚ
  deadband : ℚ
  exceeded : Bool := false
deriving DecidableEq, Repr

namespace WeatherFieldEvaluator

variable (field : WeatherFieldEvaluator) (shown : ℚ → String)

/-- The evaluator after a reading, and by how much the reading is too high. A missing value is infinitely too high. -/
def evalThreshold (weather : BasicWeather) : WeatherFieldEvaluator × Option ℚ :=
  match weather.getattr field.name with
  | none => (field, none)
  | some value =>
    let overThreshold := value - field.threshold
    let overDeadband := overThreshold + field.deadband
    let exceeded : Bool := (if field.exceeded then overDeadband else overThreshold) > 0
    ({ field with exceeded }, some (if exceeded then overDeadband else overThreshold))

/-- What `check_weather` reports for the field. -/
def error (weather : BasicWeather) : Option String :=
  match (field.evalThreshold weather).2 with
  | none => some (field.name ++ " data missing")
  | some delta => if 0 ≤ delta then some (field.name ++ " is " ++ shown delta ++ " too high") else none

/-- The field is reported too high. -/
def tooHigh (weather : BasicWeather) : Bool :=
  (field.evalThreshold weather).2.any (0 ≤ ·)

/-- The evaluator after the readings. -/
def after (history : List BasicWeather) : WeatherFieldEvaluator :=
  history.foldl (fun field weather => (field.evalThreshold weather).1) field

end WeatherFieldEvaluator

/-- Constraint that monitors a weather provider and activates when conditions exceed thresholds. -/
structure WeatherConstraint where
  provider : String
  humidityMax : Option ℚ := none
  humidityDeadband : ℚ := 0
  windMax : Option ℚ := none
  windDeadband : ℚ := 0
  rainMax : Option ℚ := none
  rainDeadband : ℚ := 0
deriving DecidableEq, Repr

namespace WeatherConstraint

variable (constraint : WeatherConstraint) (shown : ℚ → String)

/-- The evaluators of the limited fields. -/
def fieldEvaluators : List WeatherFieldEvaluator :=
  (constraint.humidityMax.map fun limit =>
    { name := "humidity", threshold := limit, deadband := constraint.humidityDeadband }).toList ++
  (constraint.windMax.map fun limit =>
    { name := "wind_speed", threshold := limit, deadband := constraint.windDeadband }).toList ++
  (constraint.rainMax.map fun limit =>
    { name := "rain_rate", threshold := limit, deadband := constraint.rainDeadband }).toList

/-- `check_weather`, on the cached evaluators. -/
def checkWeather (fields : List WeatherFieldEvaluator) (weather : BasicWeather) :
    List WeatherFieldEvaluator × List String :=
  (fields.map fun field => (field.evalThreshold weather).1, fields.filterMap fun field => field.error shown weather)

/-- The cached evaluators after the readings. -/
def after (history : List BasicWeather) : List WeatherFieldEvaluator :=
  history.foldl (fun fields weather => (checkWeather shown fields weather).1) constraint.fieldEvaluators

/-- What `check_weather` reports at a reading, after those before it. -/
def errors (history : List BasicWeather) (weather : BasicWeather) : List String :=
  (checkWeather shown (constraint.after shown history) weather).2

/-- A turn of `check_task`: a message that cannot be decoded is passed over. -/
def turn (fields : List WeatherFieldEvaluator) (message : Option BasicWeather) :
    List WeatherFieldEvaluator × List EvaluatorCall :=
  match message with
  | none => (fields, [])
  | some weather =>
    let (fields, errors) := checkWeather shown fields weather
    (fields, [if errors = [] then .clear "" none else .constrain (", ".intercalate errors) none, .ready])

end WeatherConstraint

/-! ## The latch of a field -/

section Field

variable {field : WeatherFieldEvaluator} {shown : ℚ → String} {history : List BasicWeather} {weather : BasicWeather}

/-- The values of the field in the readings that have it. -/
def readings (name : String) (history : List BasicWeather) : List ℚ :=
  history.filterMap fun weather => weather.getattr name

/-- The latch of a field, over its values. -/
def exceededBy (field : WeatherFieldEvaluator) : List ℚ → Bool :=
  latched (field.threshold < ·) (field.threshold - field.deadband < ·)

theorem readings_snoc {name : String} :
    readings name (history ++ [weather]) = readings name history ++ (weather.getattr name).toList := by
  unfold readings
  rw [List.filterMap_append]
  cases value : weather.getattr name <;> simp [value]

theorem after_snoc : field.after (history ++ [weather]) = ((field.after history).evalThreshold weather).1 := by
  unfold WeatherFieldEvaluator.after
  rw [List.foldl_append, List.foldl_cons, List.foldl_nil]

theorem evalThreshold_none (missing : weather.getattr field.name = none) :
    field.evalThreshold weather = (field, none) := by
  unfold WeatherFieldEvaluator.evalThreshold
  rw [missing]

theorem evalThreshold_some {v : ℚ} (value : weather.getattr field.name = some v) :
    (field.evalThreshold weather).1 = { field with
      exceeded := latch (field.threshold < ·) (field.threshold - field.deadband < ·) field.exceeded v } := by
  unfold WeatherFieldEvaluator.evalThreshold latch
  rw [value]
  have exceeds : 0 < v - field.threshold + field.deadband ↔ field.threshold - field.deadband < v := by
    constructor <;> intro less <;> linarith
  cases field.exceeded with
  | true => simp [exceeds]
  | false => simp

/-- The evaluator's flag is the latch over the field's values. A missing value leaves it alone. -/
theorem after_eq (fresh : field.exceeded = false) :
    field.after history = { field with exceeded := exceededBy field (readings field.name history) } := by
  induction history using List.reverseRecOn with
  | nil =>
    show field = _
    cases field
    cases fresh
    rfl
  | append_singleton history weather ih =>
    have name : (field.after history).name = field.name := by rw [ih]
    rw [after_snoc, readings_snoc]
    cases value : weather.getattr field.name with
    | none =>
      rw [evalThreshold_none (by rw [name, value]), Option.toList_none, List.append_nil, ih]
    | some v =>
      rw [evalThreshold_some (by rw [name, value]), Option.toList_some, ih]
      unfold exceededBy
      rw [latched_snoc]

/-- The field has fallen to `threshold - deadband` or lower since each of its earlier values that is as given. -/
def FallenSince (field : WeatherFieldEvaluator) (high : ℚ → Prop) (values : List ℚ) (current : ℚ) : Prop :=
  ∀ pre v post, values = pre ++ v :: post → high v →
    ∃ later ∈ post ++ [current], later ≤ field.threshold - field.deadband

/-- The field permits opening: it is present, below its limit, and has fallen to `threshold - deadband` or lower since each
earlier reading at which it was reported too high. -/
def Permits (field : WeatherFieldEvaluator) (history : List BasicWeather) (weather : BasicWeather) : Prop :=
  ∃ v, weather.getattr field.name = some v ∧ v < field.threshold ∧
    ∀ pre reported post, history = pre ++ reported :: post → (field.after pre).tooHigh reported = true →
      ∃ later ∈ readings field.name (post ++ [weather]), later ≤ field.threshold - field.deadband

variable {v : ℚ}

section

variable (nonneg : 0 ≤ field.deadband)
include nonneg

/-- A value is reported too high from the limit on, and by a latched field also within the deadband. -/
theorem exists_delta (value : weather.getattr field.name = some v) :
    ∃ delta, (field.evalThreshold weather).2 = some delta ∧
      (0 ≤ delta ↔ field.threshold ≤ v ∨ field.exceeded = true ∧ field.threshold - field.deadband < v) := by
  unfold WeatherFieldEvaluator.evalThreshold
  rw [value]
  refine ⟨_, rfl, ?_⟩
  by_cases exceeded : field.exceeded = true
  · by_cases exceeds : 0 < v - field.threshold + field.deadband
    · have high : field.threshold - field.deadband < v := by linarith
      simp [exceeded, exceeds, exceeds.le, high]
    · have low : ¬ field.threshold - field.deadband < v := fun less => exceeds (by linarith)
      simp [exceeded, exceeds, low]
  · by_cases exceeds : field.threshold < v
    · have high : 0 ≤ v - field.threshold + field.deadband := by linarith
      simp [exceeded, exceeds, exceeds.le, high]
    · simp [exceeded, exceeds]

theorem tooHigh_iff : field.tooHigh weather = true ↔
    ∃ v, weather.getattr field.name = some v ∧
      (field.threshold ≤ v ∨ field.exceeded = true ∧ field.threshold - field.deadband < v) := by
  unfold WeatherFieldEvaluator.tooHigh
  cases value : weather.getattr field.name with
  | none => simp [evalThreshold_none value]
  | some v =>
    obtain ⟨delta, evaluated, high⟩ := exists_delta nonneg value
    rw [evaluated]
    simpa using high

theorem error_eq_none : field.error shown weather = none ↔
    ∃ v, weather.getattr field.name = some v ∧ v < field.threshold ∧
      (field.exceeded = true → v ≤ field.threshold - field.deadband) := by
  unfold WeatherFieldEvaluator.error
  cases value : weather.getattr field.name with
  | none => simp [evalThreshold_none value]
  | some v =>
    obtain ⟨delta, evaluated, high⟩ := exists_delta nonneg value
    rw [evaluated]
    simp [high]

theorem over_inside (x : ℚ) (exceeds : decide (field.threshold < x) = true) :
    decide (field.threshold - field.deadband < x) = true := by
  have less := of_decide_eq_true exceeds
  exact decide_eq_true (by linarith)

/-- A latched field may clear where it has fallen since each value above the limit. -/
theorem fallen_iff {values : List ℚ} : (exceededBy field values = true →
    v ≤ field.threshold - field.deadband) ↔ FallenSince field (field.threshold < ·) values v := by
  unfold exceededBy FallenSince
  rw [latched_iff (over_inside nonneg)]
  unfold Sustained
  constructor
  · intro law pre x post eq exceeds
    by_contra none
    simp only [not_exists, not_and, not_le] at none
    have fallen := law ⟨pre, x, post, eq, decide_eq_true exceeds,
      fun y mem => decide_eq_true (none y (List.mem_append_left _ mem))⟩
    have high := none v (List.mem_append_right _ List.mem_cons_self)
    linarith
  · rintro law ⟨pre, x, post, eq, exceeds, held⟩
    obtain ⟨later, mem, low⟩ := law pre x post eq (of_decide_eq_true exceeds)
    rcases List.mem_append.1 mem with mem | mem
    · have high := of_decide_eq_true (held later mem)
      linarith
    · rw [← List.mem_singleton.1 mem]
      exact low

/-- Equivalently: the field is below its limit and has fallen since each value at or above it. -/
theorem permits_iff (fresh : field.exceeded = false) : Permits field history weather ↔
    ∃ v, weather.getattr field.name = some v ∧ v < field.threshold ∧
      FallenSince field (field.threshold ≤ ·) (readings field.name history) v := by
  have reports (pre : List BasicWeather) (reported : BasicWeather) : (field.after pre).tooHigh reported = true ↔
      ∃ v, reported.getattr field.name = some v ∧ (field.threshold ≤ v ∨
        exceededBy field (readings field.name pre) = true ∧ field.threshold - field.deadband < v) := by
    have high := @tooHigh_iff (field.after pre) reported (by rw [after_eq fresh]; exact nonneg)
    rw [after_eq fresh] at high ⊢
    exact high
  unfold Permits
  refine exists_congr fun v => and_congr_right fun value => and_congr_right fun low => ?_
  constructor
  · intro law pre x post eq high
    obtain ⟨before, rest, rfl, rfl, eq'⟩ := List.filterMap_eq_append_iff.1 eq
    obtain ⟨skipped, reported, after, rfl, -, here, rfl⟩ := List.filterMap_eq_cons_iff.1 eq'
    have tooHigh := (reports (before ++ skipped) reported).2 ⟨x, here, .inl high⟩
    obtain ⟨later, mem, fallen⟩ := law (before ++ skipped) reported after (by simp) tooHigh
    rw [readings_snoc, value] at mem
    exact ⟨later, mem, fallen⟩
  · rintro law pre reported post rfl tooHigh
    obtain ⟨v', here, high⟩ := (reports pre reported).1 tooHigh
    have split : readings field.name (pre ++ reported :: post) =
        readings field.name pre ++ v' :: readings field.name post := by
      simp [readings, here]
    rw [split] at law
    rw [readings_snoc, value]
    rcases high with high | ⟨exceeded, high⟩
    · exact law (readings field.name pre) v' (readings field.name post) rfl high
    · -- The field was latched by an earlier value, and has not fallen up to this reading.
      obtain ⟨earlier, x, since, eq, exceeds, held⟩ := (latched_iff (over_inside nonneg)).1 exceeded
      rw [eq, List.append_assoc, List.cons_append] at law
      obtain ⟨later, mem, fallen⟩ := law earlier x _ rfl (of_decide_eq_true exceeds).le
      rw [List.append_assoc, List.mem_append, List.cons_append, List.mem_cons] at mem
      rcases mem with mem | rfl | mem
      · have := of_decide_eq_true (held later mem)
        linarith
      · linarith
      · exact ⟨later, mem, fallen⟩

/-- The code's rule: the field is below its limit and has fallen since each value above it. -/
theorem errorAt_eq_none (fresh : field.exceeded = false) :
    (field.after history).error shown weather = none ↔ ∃ v, weather.getattr field.name = some v ∧
      v < field.threshold ∧ FallenSince field (field.threshold < ·) (readings field.name history) v := by
  have rule := @error_eq_none (field.after history) shown weather (by rw [after_eq fresh]; exact nonneg)
  rw [after_eq fresh] at rule ⊢
  simpa only [fallen_iff nonneg] using rule

end

end Field

/-! ## Weather limits -/

section Limits

variable {constraint : WeatherConstraint} {shown : ℚ → String} {history : List BasicWeather} {weather : BasicWeather}

theorem fresh_of_mem {field : WeatherFieldEvaluator} (mem : field ∈ constraint.fieldEvaluators) :
    field.exceeded = false := by
  simp only [WeatherConstraint.fieldEvaluators, List.mem_append, Option.mem_toList, Option.map_eq_some_iff] at mem
  rcases mem with (⟨_, _, rfl⟩ | ⟨_, _, rfl⟩) | ⟨_, _, rfl⟩ <;> rfl

/-- Each field is evaluated by itself. -/
theorem after_eq_map : constraint.after shown history = constraint.fieldEvaluators.map (·.after history) := by
  induction history using List.reverseRecOn with
  | nil => exact (List.map_id _).symm
  | append_singleton history weather ih =>
    unfold WeatherConstraint.after at ih ⊢
    rw [List.foldl_append, ih, List.foldl_cons, List.foldl_nil, WeatherConstraint.checkWeather, List.map_map]
    exact List.map_congr_left fun field _ => after_snoc.symm

theorem errors_eq_nil (nonneg : ∀ field ∈ constraint.fieldEvaluators, 0 ≤ field.deadband) :
    constraint.errors shown history weather = [] ↔ ∀ field ∈ constraint.fieldEvaluators,
      ∃ v, weather.getattr field.name = some v ∧ v < field.threshold ∧
        FallenSince field (field.threshold < ·) (readings field.name history) v := by
  unfold WeatherConstraint.errors WeatherConstraint.checkWeather
  rw [after_eq_map, List.filterMap_eq_nil_iff, List.forall_mem_map]
  exact forall₂_congr fun field mem => errorAt_eq_none (nonneg field mem) (fresh_of_mem mem)

/-- **Weather limits.** `check_weather` reports no error exactly where each limited field permits it, unless each is below
its limit and has fallen by the deadband since it exceeded it, and one has stood at its limit and has not fallen since. -/
theorem errors_eq_nil_iff (nonneg : ∀ field ∈ constraint.fieldEvaluators, 0 ≤ field.deadband) :
    (constraint.errors shown history weather = [] ↔
      ∀ field ∈ constraint.fieldEvaluators, Permits field history weather) ↔
    ¬ ((∀ field ∈ constraint.fieldEvaluators, ∃ v, weather.getattr field.name = some v ∧ v < field.threshold ∧
        FallenSince field (field.threshold < ·) (readings field.name history) v) ∧
      ∃ field ∈ constraint.fieldEvaluators, ∃ v, weather.getattr field.name = some v ∧
        ¬ FallenSince field (· = field.threshold) (readings field.name history) v) := by
  have fallen {field : WeatherFieldEvaluator} {values : List ℚ} {v : ℚ} :
      FallenSince field (field.threshold ≤ ·) values v ↔
        FallenSince field (field.threshold < ·) values v ∧ FallenSince field (· = field.threshold) values v := by
    constructor
    · intro law
      exact ⟨fun pre x post eq exceeds => law pre x post eq exceeds.le, fun pre x post eq here => law pre x post eq here.ge⟩
    · rintro ⟨above, here⟩ pre x post eq high
      rcases high.lt_or_eq with exceeds | same
      · exact above pre x post eq exceeds
      · exact here pre x post eq same.symm
  have permits (field : WeatherFieldEvaluator) (mem : field ∈ constraint.fieldEvaluators) :=
    @permits_iff field history weather (nonneg field mem) (fresh_of_mem mem)
  rw [errors_eq_nil nonneg]
  constructor
  · rintro law ⟨clear, field, mem, v, value, touched⟩
    obtain ⟨v', value', -, fallen'⟩ := (permits field mem).1 (law.1 clear field mem)
    rw [value] at value'
    cases value'
    exact touched (fallen.1 fallen').2
  · intro untouched
    constructor
    · intro clear field mem
      obtain ⟨v, value, low, above⟩ := clear field mem
      refine (permits field mem).2 ⟨v, value, low, fallen.2 ⟨above, ?_⟩⟩
      by_contra touched
      exact untouched ⟨clear, field, mem, v, value, touched⟩
    · intro all field mem
      obtain ⟨v, value, low, fallen'⟩ := (permits field mem).1 (all field mem)
      exact ⟨v, value, low, (fallen.1 fallen').1⟩

/-- Humidity at its limit is reported, and then cleared within the deadband. -/
theorem touched_limit_clears : ¬ ∀ (constraint : WeatherConstraint) (history : List BasicWeather) (weather : BasicWeather),
    (∀ field ∈ constraint.fieldEvaluators, 0 ≤ field.deadband) →
    (constraint.errors (fun _ => "") history weather = [] ↔
      ∀ field ∈ constraint.fieldEvaluators, Permits field history weather) := by
  intro law
  let constraint : WeatherConstraint := { provider := "wx", humidityMax := some 50, humidityDeadband := 5 }
  have cleared : constraint.errors (fun _ => "") [{ humidity := some 50 }] { humidity := some 47 } = [] := by
    decide +kernel
  have permits := (law constraint _ _ (by decide +kernel)).1 cleared _ (List.mem_singleton.2 rfl)
  obtain ⟨v, value, -, fallen⟩ := permits
  obtain ⟨later, mem, low⟩ := fallen [] { humidity := some 50 } [] rfl (by decide +kernel)
  have only : later = 47 := by simpa [readings, BasicWeather.getattr] using mem
  rw [only] at low
  norm_num at low

theorem errors_eq_nil_iff_example :
    let constraint : WeatherConstraint := { provider := "wx", humidityMax := some 50, humidityDeadband := 5 }
    let history : List BasicWeather := [{ humidity := some 60 }, { humidity := none }, { humidity := some 45 }]
    constraint.errors (fun _ => "") history { humidity := some 48 } = [] ∧
      ∀ field ∈ constraint.fieldEvaluators, Permits field history { humidity := some 48 } := by
  intro constraint history
  have cleared : constraint.errors (fun _ => "") history { humidity := some 48 } = [] := by decide +kernel
  have limits := @errors_eq_nil_iff constraint (fun _ => "") history { humidity := some 48 } (by decide +kernel)
  refine ⟨cleared, (limits.2 ?_).1 cleared⟩
  rintro ⟨-, field, mem, v, value, touched⟩
  obtain rfl := List.mem_singleton.1 mem
  refine touched fun pre x post eq here => ?_
  have never : ∀ x ∈ readings "humidity" history, x ≠ 50 := by decide +kernel
  exact absurd here (never x (eq ▸ List.mem_append_right _ List.mem_cons_self))

end Limits

end SensorKit.Auto