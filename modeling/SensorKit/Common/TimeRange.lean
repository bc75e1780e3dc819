import Mathlib.Data.Int.Order.Basic
import SensorKit.Lib.Dict
import SensorKit.Lib.Fallible

/-!
# Time specs

A time spec is a time of day, or a symbol with an offset that a handler resolves. Instants and durations are in
microseconds. Texts are parsed by `dateutil`, into a date, a time of day and the offset of a time zone.
-/

namespace SensorKit.Common

open Lib

/-- `DAILY_PERIOD`. -/
def day : ℤ := 86400000000

inductive TimeError where
  /-- `TimeRangeError`. -/
  | range (message : String)
  /-- `TimeRangeParseError`, which is one too. -/
  | parse (message : String)
  | other (kind : String)
deriving DecidableEq, Repr

def TimeError.isTimeRangeError : TimeError → Bool
  | .other _ => false
  | _ => true

/-- A parsed datetime: days after the reference date, the time of day and the UTC offset. -/
structure ParsedTime where
  date : ℤ
  time : ℤ
  offset : ℤ
deriving DecidableEq, Repr

/-- What the pattern matches in a spec. -/
inductive SpecMatch where
  | timespec (spec : String)
  /-- With a sign, negative or not, and a delta. -/
  | symbol (name : String) (delta : Option (Bool × String) := none)
deriving DecidableEq, Repr

/-- A symbol's handler: the instant between two instants, the latest one if asked for, or none. -/
abbrev SymbolParseHandler := ℤ → ℤ → Bool → Except TimeError (Option ℤ)

/-- How texts and symbols are resolved. -/
structure TimeParsers where
  parseDatetime : String → Except TimeError ParsedTime
  symbolHandlers : Dict String SymbolParseHandler := .empty

namespace TimeParsers

variable (parsers : TimeParsers)

/-- The first instant from the range's begin on at the time of day, in its zone. -/
def combine (parsed : ParsedTime) (rangeMin : ℤ) : ℤ :=
  -- The date that the range begins on, in the zone of the parsed time.
  let dt := (rangeMin + parsed.offset) / day * day + parsed.time - parsed.offset
  if dt < rangeMin then dt + day else dt

/-- `parse_time_of_day`: the first matching instant in the range. -/
def parseTimeOfDay (spec : String) (rangeMin rangeMax : ℤ) : Except TimeError ℤ := do
  let parsed ← parsers.parseDatetime spec
  if parsed.date ≠ 0 then .error (.parse "input must be time of day, not date")
  else
    let dt := combine parsed rangeMin
    if rangeMax < dt then .error (.range "input is outside allowed range") else return dt

/-- `parse_time_delta`: relative to midnight of the reference date. -/
def parseTimeDelta (spec : String) : Except TimeError ℤ := do
  let parsed ← parsers.parseDatetime spec
  if parsed.date ≠ 0 then .error (.parse "delta must be time of day, not date")
  else return parsed.time - parsed.offset

/-- The signed delta of a symbol. -/
def symbolDelta : Option (Bool × String) → Except TimeError ℤ
  | none => .ok 0
  | some (negative, spec) => do
    -- An empty text is no delta.
    if spec = "" then return 0
    else return (← parsers.parseTimeDelta spec.toLower) * if negative then -1 else 1

/-- `parse_spec`: an instant within a window of one day at most. -/
def parseSpec (spec : Option SpecMatch) (rangeMin rangeMax : ℤ) (latestMatch : Bool) : Except TimeError ℤ :=
  if day < rangeMax - rangeMin then .error (.other "AssertionError")
  else
    match spec with
    | none => .error (.parse "input not recognized")
    | some (.timespec spec) => parsers.parseTimeOfDay spec.toUpper rangeMin rangeMax
    | some (.symbol name delta) =>
      match parsers.symbolHandlers.get? name with
      | none => .error (.parse ("symbol '" ++ name ++ "' not recognized"))
      | some handler => do
        let delta ← parsers.symbolDelta delta
        match ← handler (rangeMin - delta) (rangeMax - delta) latestMatch with
        | none => .error (.range ("could not evaluate '" ++ name ++ "'"))
        | some dt => return dt + delta

/-- `parse_time_range`: the earliest end within a day after the reference time, and the latest start within a day
before that. -/
def parseTimeRange (startSpec endSpec : Option SpecMatch) (timeRef : ℤ) : Except TimeError (ℤ × ℤ) := do
  let endDt ← parsers.parseSpec endSpec timeRef (timeRef + day) false
  let startDt ← parsers.parseSpec startSpec (endDt - day) endDt true
  return (startDt, endDt)

end TimeParsers

/-! ## Times of day -/

/-- The instant is at the time of day, in its zone. -/
def OccursAt (parsed : ParsedTime) (x : ℤ) : Prop :=
  (x + parsed.offset) % day = parsed.time

/-- The spec is a time of day. -/
structure Parses (parsers : TimeParsers) (spec : Option SpecMatch) (parsed : ParsedTime) : Prop where
  is : ∃ text, spec = some (.timespec text) ∧ parsers.parseDatetime text.toUpper = .ok parsed
  time_of_day : parsed.date = 0
  nonneg : 0 ≤ parsed.time
  lt_day : parsed.time < day

section Times

variable {parsers : TimeParsers} {spec startSpec endSpec : Option SpecMatch} {parsed first last : ParsedTime}
  {x y r rangeMin rangeMax : ℤ} {latest : Bool}

/-- Occurrences of a time of day are whole days apart. -/
theorem OccursAt.add (h : OccursAt parsed x) (k : ℤ) : OccursAt parsed (x + k * day) := by
  unfold OccursAt at *
  rw [Int.add_right_comm, Int.add_mul_emod_self_right, h]

theorem OccursAt.next_day (h : OccursAt parsed x) : OccursAt parsed (x + day) := by
  have shifted := h.add 1
  rwa [Int.one_mul] at shifted

/-- A day has one occurrence. -/
theorem OccursAt.unique (h : OccursAt parsed x) (h' : OccursAt parsed y) (low : r ≤ x) (high : x < r + day)
    (low' : r ≤ y) (high' : y < r + day) : x = y := by
  unfold OccursAt at *
  unfold day at *
  omega

/-- **The combined instant** is the first occurrence from the range's begin on. -/
theorem combine_spec (rangeMin : ℤ) (nonneg : 0 ≤ parsed.time) (lt_day : parsed.time < day) :
    OccursAt parsed (TimeParsers.combine parsed rangeMin) ∧ rangeMin ≤ TimeParsers.combine parsed rangeMin ∧
      TimeParsers.combine parsed rangeMin < rangeMin + day := by
  unfold TimeParsers.combine OccursAt
  dsimp only
  unfold day at *
  split_ifs
  · omega
  · omega

/-- A day's range always has the time of day. -/
theorem Parses.parseSpec (h : Parses parsers spec parsed) (latest : Bool) (whole : rangeMax = rangeMin + day) :
    ∃ dt, parsers.parseSpec spec rangeMin rangeMax latest = .ok dt ∧ OccursAt parsed dt ∧ rangeMin ≤ dt ∧
      dt < rangeMin + day := by
  obtain ⟨text, rfl, parses⟩ := h.is
  obtain ⟨occurs, low, high⟩ := combine_spec rangeMin h.nonneg h.lt_day
  refine ⟨_, ?_, occurs, low, high⟩
  have fits : ¬ day < rangeMax - rangeMin := by omega
  have inside : ¬ rangeMax < TimeParsers.combine parsed rangeMin := by omega
  unfold TimeParsers.parseSpec TimeParsers.parseTimeOfDay
  rw [if_neg fits]
  simp only [parses, bind, Except.bind, h.time_of_day, ne_eq, not_true_eq_false, if_false, inside]
  rfl

/-- **A parsed range** ends at the first occurrence of its end from the reference time on, and starts at the last
occurrence of its start before that. -/
theorem parseTimeRange_spec (starts : Parses parsers startSpec first) (ends : Parses parsers endSpec last) (r : ℤ) :
    ∃ b e, parsers.parseTimeRange startSpec endSpec r = .ok (b, e) ∧ OccursAt first b ∧ OccursAt last e ∧
      r ≤ e ∧ e < r + day ∧ e - day ≤ b ∧ b < e := by
  obtain ⟨e, parsed, occurs, low, high⟩ := ends.parseSpec false (rfl : r + day = r + day)
  obtain ⟨b, parsed', occurs', low', high'⟩ := starts.parseSpec true (by omega : e = e - day + day)
  refine ⟨b, e, ?_, occurs', occurs, low, high, low', by omega⟩
  unfold TimeParsers.parseTimeRange
  simp only [parsed, parsed', bind, Except.bind]
  rfl

end Times

end SensorKit.Common
