import Mathlib.Data.Int.Order.Basic
import SensorKit.Lib.Raises

/-!
# Predicates over values

A predicate asks a static question about a value that was read from a path, or about nothing. A value that is absent and
one that is `None` are the same thing here. What values are, and how they compare, is left to the host.
-/

namespace SensorKit.Common

open Lib

/-- The operators of `_COMPARISONS`. -/
inductive Comparison where
  | eq
  | ne
  | lt
  | le
  | gt
  | ge
deriving DecidableEq, Repr

/-- What an operator raises. -/
inductive Raised where
  | typeError
  | other (kind : String)
deriving DecidableEq, Repr

/-- The values that predicates meet, and what the language answers about them. -/
structure Host (V : Type) where
  isNone : V → Bool
  /-- The elements of a collection that is not a text, bytes or a mapping. -/
  elements : V → Option (List V)
  elements_of_isNone : ∀ v, isNone v = true → elements v = none
  operator : Comparison → V → V → Except Raised Bool
  getattr : V → String → Option V
  tuple : List V → V

namespace Host

variable {V : Type} (host : Host V)

/-- `is_collection`, of a read value. -/
def isCollection (v : V) : Bool := (host.elements v).isSome

/-- What a read value carries: nothing, where it is missing or `None`. -/
def carried (value : Option V) : Option V := value.filter fun v => !host.isNone v

/-- `no_value`: whether a read value carries nothing to compare against. -/
def noValue (value : Option V) : Bool := (host.carried value).isNone

/-- `_apply`: a missing or incomparable value is no match. -/
def apply (fn : Comparison) (value : Option V) (operand : V) : Except Raised Bool :=
  match host.carried value with
  | none => .ok false
  | some v =>
    match host.operator fn v operand with
    | .error .typeError => .ok false
    | answer => answer

/-- What one segment of a path reads, and whether the walk crossed a collection. -/
def readSegment (read : List V × Bool) (segment : String) : List V × Bool :=
  (read.1.flatMap fun v => ((host.elements v).getD [v]).filterMap (host.getattr · segment),
    read.2 || read.1.any host.isCollection)

/-- `read_path`: none is `MISSING`. -/
def readPath (obj : V) (path : List String) : Option V :=
  let (values, projected) := path.foldl host.readSegment ([obj], false)
  if projected then some (host.tuple values) else values.head?

end Host

inductive Predicate (V : Type) where
  | compare (op : Comparison) (value : V)
  | between (low high : V)
  /-- `In`. -/
  | among (values : List V)
  | contains (values : List V)
  /-- `Exists`. -/
  | present (present : Bool)
  | allOf (predicates : List (Predicate V))
  | anyOf (predicates : List (Predicate V))
  /-- `Not`. -/
  | negated (predicate : Predicate V)

variable {V : Type}

mutual

/-- Evaluate against a value read from a path, none for a missing one. -/
def Predicate.test (host : Host V) (value : Option V) : Predicate V → Except Raised Bool
  | .compare op operand => host.apply op value operand
  | .between low high => do if ← host.apply .ge value low then host.apply .le value high else return false
  | .among values =>
    match host.carried value with
    | none => .ok false
    | some v => values.anyM (host.operator .eq v)
  | .contains values =>
    match value.bind host.elements with
    | none => .ok false
    | some items => values.allM fun operand => items.anyM fun item => host.operator .eq item operand
  | .present present =>
    let found := match host.carried value with
      | none => false
      | some v => ((host.elements v).map (!·.isEmpty)).getD true
    .ok (found = present)
  | .allOf predicates => testAll host value predicates
  | .anyOf predicates => testAny host value predicates
  | .negated predicate => do if host.noValue value then return false else return !(← predicate.test host value)

def testAll (host : Host V) (value : Option V) : List (Predicate V) → Except Raised Bool
  | [] => .ok true
  | p :: predicates => do if ← p.test host value then testAll host value predicates else return false

def testAny (host : Host V) (value : Option V) : List (Predicate V) → Except Raised Bool
  | [] => .ok false
  | p :: predicates => do if ← p.test host value then return true else testAny host value predicates

end

/-- A predicate at a dot path, or about the object itself. -/
structure FieldMatch (V : Type) where
  field : Option (List String) := none
  predicate : Predicate V

def FieldMatch.test (host : Host V) (m : FieldMatch V) (obj : V) : Except Raised Bool :=
  m.predicate.test host (match m.field with
    | none => some obj
    | some path => host.readPath obj path)

/-! ## Absence -/

mutual

/-- No predicate in it is `exists(False)`. -/
def Predicate.ForValues : Predicate V → Prop
  | .present present => present = true
  | .allOf predicates => allForValues predicates
  | .anyOf predicates => allForValues predicates
  | .negated predicate => predicate.ForValues
  | _ => True

def allForValues : List (Predicate V) → Prop
  | [] => True
  | p :: predicates => p.ForValues ∧ allForValues predicates

end

mutual

/-- Comes down to an `all_of` without members: its members are all hollow, or it is an `any_of` with a hollow one. -/
def Predicate.hollow : Predicate V → Bool
  | .allOf predicates => allHollow predicates
  | .anyOf predicates => anyHollow predicates
  | _ => false

def allHollow : List (Predicate V) → Bool
  | [] => true
  | p :: predicates => p.hollow && allHollow predicates

def anyHollow : List (Predicate V) → Bool
  | [] => false
  | p :: predicates => p.hollow || anyHollow predicates

end

section Absence

variable {host : Host V} {value : Option V}

theorem carried_of_noValue (absent : host.noValue value = true) : host.carried value = none :=
  Option.isNone_iff_eq_none.1 absent

/-- Nothing that is absent is a collection. -/
theorem elements_of_noValue (absent : host.noValue value = true) : value.bind host.elements = none := by
  cases value with
  | none => rfl
  | some v =>
    have gone := carried_of_noValue absent
    unfold Host.carried at gone
    exact host.elements_of_isNone v (by simpa using gone)

theorem apply_of_noValue (absent : host.noValue value = true) (fn : Comparison) (operand : V) :
    host.apply fn value operand = .ok false := by
  unfold Host.apply
  rw [carried_of_noValue absent]

mutual

/-- **What a predicate for values answers about nothing**: that it is hollow. -/
theorem test_of_noValue (absent : host.noValue value = true) :
    ∀ p : Predicate V, p.ForValues → p.test host value = .ok p.hollow
  | .compare op operand, _ => apply_of_noValue absent op operand
  | .between low high, _ => by
    rw [Predicate.test, apply_of_noValue absent]
    rfl
  | .among values, _ => by
    rw [Predicate.test, carried_of_noValue absent]
    rfl
  | .contains values, _ => by
    rw [Predicate.test, elements_of_noValue absent]
    rfl
  | .present present, sees => by
    rw [Predicate.ForValues] at sees
    rw [Predicate.test, carried_of_noValue absent, sees]
    rfl
  | .allOf predicates, sees => by
    rw [Predicate.test, Predicate.hollow]
    exact testAll_of_noValue absent predicates sees
  | .anyOf predicates, sees => by
    rw [Predicate.test, Predicate.hollow]
    exact testAny_of_noValue absent predicates sees
  | .negated predicate, _ => by
    rw [Predicate.test, if_pos absent]
    rfl

theorem testAll_of_noValue (absent : host.noValue value = true) :
    ∀ predicates : List (Predicate V), allForValues predicates → testAll host value predicates = .ok (allHollow predicates)
  | [], _ => rfl
  | p :: predicates, ⟨first, rest⟩ => by
    have others := testAll_of_noValue absent predicates rest
    rw [testAll, test_of_noValue absent p first, allHollow]
    cases p.hollow with
    | true => exact others
    | false => rfl

theorem testAny_of_noValue (absent : host.noValue value = true) :
    ∀ predicates : List (Predicate V), allForValues predicates → testAny host value predicates = .ok (anyHollow predicates)
  | [], _ => rfl
  | p :: predicates, ⟨first, rest⟩ => by
    have others := testAny_of_noValue absent predicates rest
    rw [testAny, test_of_noValue absent p first, anyHollow]
    cases p.hollow with
    | true => rfl
    | false => exact others

end

/-- **Absence never matches** a predicate for values, unless it is hollow. -/
theorem absence_never_matches_iff (host : Host V) (p : Predicate V) (sees : p.ForValues) :
    (∀ value, host.noValue value = true → p.test host value = .ok false) ↔ p.hollow = false := by
  constructor
  · intro never
    have missing : host.noValue none = true := rfl
    have answer := never none missing
    rw [test_of_noValue missing p sees] at answer
    exact Except.ok.inj answer
  · intro solid value absent
    rw [test_of_noValue absent p sees, solid]

/-- Integers, of which `none` is `None`. -/
def integers : Host (Option ℤ) where
  isNone := Option.isNone
  elements _ := none
  elements_of_isNone _ _ := rfl
  operator
    | .eq, v, operand => .ok (v = operand)
    | .ne, v, operand => .ok (v ≠ operand)
    | .lt, some v, some operand => .ok (v < operand)
    | .le, some v, some operand => .ok (v ≤ operand)
    | .gt, some v, some operand => .ok (operand < v)
    | .ge, some v, some operand => .ok (operand ≤ v)
    | _, _, _ => .error .typeError
  getattr _ _ := none
  tuple _ := none

theorem absence_never_matches_iff_ne :
    (∀ value, integers.noValue value = true →
      (Predicate.negated (.allOf [.compare .ne (some 3), .anyOf []])).test integers value = .ok false) ↔
    (Predicate.negated (.allOf [.compare .ne (some (3 : ℤ)), .anyOf []])).hollow = false :=
  absence_never_matches_iff integers _ ⟨trivial, trivial, trivial⟩

/-- An `all_of` without members matches what was not read. -/
theorem absence_matches_hollow : ¬ ∀ p : Predicate (Option ℤ), p.ForValues →
    ∀ value, integers.noValue value = true → p.test integers value = .ok false := by
  intro never
  have answer := never (.allOf []) trivial none rfl
  cases answer

end Absence

/-! ## Never raising -/

section Returns

variable {host : Host V} {value : Option V}

/-- Values always compare as equal or not, and raise no more than that they cannot be ordered. -/
structure Host.Orderly (host : Host V) : Prop where
  eq : ∀ v operand, Returns (host.operator .eq v operand)
  order : ∀ fn v operand, RaisesOnly (· = .typeError) (host.operator fn v operand)

theorem Host.Orderly.apply (orderly : host.Orderly) (fn : Comparison) (operand : V) :
    Returns (host.apply fn value operand) := by
  unfold Host.apply
  cases host.carried value with
  | none => exact raisesOnly_ok false
  | some v =>
    rcases (orderly.order fn v operand).cases with ⟨b, answer⟩ | ⟨e, raised, rfl⟩
    · simp only [answer]
      exact raisesOnly_ok b
    · simp only [raised]
      exact raisesOnly_ok false

mutual

/-- **A predicate never raises** over values that compare. -/
theorem test_returns (orderly : host.Orderly) : ∀ p : Predicate V, Returns (p.test host value)
  | .compare op operand => orderly.apply op operand
  | .between low high => by
    refine (orderly.apply .ge low).bind fun above _ => ?_
    cases above with
    | true => exact orderly.apply .le high
    | false => exact raisesOnly_pure false
  | .among values => by
    rw [Predicate.test]
    cases host.carried value with
    | none => exact raisesOnly_ok false
    | some v => exact raisesOnly_anyM fun operand _ => orderly.eq v operand
  | .contains values => by
    rw [Predicate.test]
    cases value.bind host.elements with
    | none => exact raisesOnly_ok false
    | some items => exact raisesOnly_allM fun operand _ => raisesOnly_anyM fun item _ => orderly.eq item operand
  | .present present => raisesOnly_ok _
  | .allOf predicates => by
    rw [Predicate.test]
    exact testAll_returns orderly predicates
  | .anyOf predicates => by
    rw [Predicate.test]
    exact testAny_returns orderly predicates
  | .negated predicate => by
    rw [Predicate.test]
    split_ifs
    · exact raisesOnly_pure false
    · exact (test_returns orderly predicate).bind fun b _ => raisesOnly_pure _

theorem testAll_returns (orderly : host.Orderly) :
    ∀ predicates : List (Predicate V), Returns (testAll host value predicates)
  | [] => raisesOnly_ok true
  | p :: predicates => by
    rw [testAll]
    refine (test_returns orderly p).bind fun b _ => ?_
    cases b with
    | true => exact testAll_returns orderly predicates
    | false => exact raisesOnly_pure false

theorem testAny_returns (orderly : host.Orderly) :
    ∀ predicates : List (Predicate V), Returns (testAny host value predicates)
  | [] => raisesOnly_ok false
  | p :: predicates => by
    rw [testAny]
    refine (test_returns orderly p).bind fun b _ => ?_
    cases b with
    | true => exact raisesOnly_pure true
    | false => exact testAny_returns orderly predicates

end

end Returns

end SensorKit.Common
