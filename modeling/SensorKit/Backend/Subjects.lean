import SensorKit.Lib.Fallible
import SensorKit.Lib.Separated

/-!
# Subjects over NATS

A subject is the path of an entity with a property. Special properties are strings, and equal to the ordinary properties
of the same spelling. On the wire the path and the property are one text, joined by dots.
-/

namespace SensorKit.Backend

open Lib

/-! ## Subjects -/

namespace SpecialProperty

def allProperties : String := "$ALL$"

def allDescendants : String := "$WILDCARD$"

def events : String := "$EVENT$"

def none : String := "$NONE$"

end SpecialProperty

/-- An addressable entity identified by its path segments. -/
structure Entity where
  path : List String
deriving DecidableEq, Repr

structure Subject where
  path : List String
  prop : String
deriving DecidableEq, Repr

def Entity.subject (entity : Entity) (name : String) : Subject :=
  ⟨entity.path, name⟩

/-- The complete path including the property segment. -/
def Subject.fullPath (subject : Subject) : List String :=
  subject.path ++ [subject.prop]

/-! ## Their NATS subjects -/

inductive Method
  | req
  | str
  | kv
deriving DecidableEq, Repr

def Method.value : Method → String
  | .req => "request"
  | .str => "stream"
  | .kv => "kv"

def subjectPrefix : String := "sensorkit"

/-- The fully-qualified NATS subject prefix for a method. -/
def Method.withPrefix (method : Method) : String :=
  subjectPrefix ++ "." ++ method.value

/-- The tokens of a property. -/
def propertyTokens (prop : String) : List String :=
  if prop = SpecialProperty.allDescendants then [">"]
  else if prop = SpecialProperty.allProperties then ["*"]
  else if prop = SpecialProperty.events then ["_EVENTS"]
  else if prop = SpecialProperty.none then []
  else [prop]

/-- `_subject_to_nats`. -/
def subjectToNats (method : Method) (target : Subject) : String :=
  joinDots ([method.withPrefix] ++ target.path ++ propertyTokens target.prop)

inductive NatsError
  | value
  | index
deriving DecidableEq, Repr

/-- The property of a token. -/
def propertyOf (token : String) : String :=
  if token = "_EVENTS" then SpecialProperty.events else token

/-- `_subject_from_nats`. -/
def subjectFromNats (method : Method) (subject : String) : Except NatsError Subject :=
  match splitDots subject with
  | first :: second :: rest =>
    if first ≠ subjectPrefix ∨ second ≠ method.value then .error .value
    -- without further tokens, the last one is the second
    else .ok ⟨rest.dropLast, propertyOf (rest.getLastD second)⟩
  | [first] => .error (if first ≠ subjectPrefix then .value else .index)
  | [] => .error .index

/-! ## Which subjects are read back -/

/-- Neither the path nor the property holds a dot, and the property is not spelled like a token of another one. -/
structure Subject.Plain (subject : Subject) : Prop where
  path : ∀ name ∈ subject.path, DotFree name
  prop : DotFree subject.prop
  ordinary : subject.prop ∉ [SpecialProperty.allProperties, SpecialProperty.allDescendants, SpecialProperty.none, "_EVENTS"]

instance : DecidablePred Subject.Plain := fun subject =>
  decidable_of_iff ((∀ name ∈ subject.path, DotFree name) ∧ DotFree subject.prop ∧
    subject.prop ∉ [SpecialProperty.allProperties, SpecialProperty.allDescendants, SpecialProperty.none, "_EVENTS"])
    ⟨fun ⟨path, prop, ordinary⟩ => ⟨path, prop, ordinary⟩, fun plain => ⟨plain.path, plain.prop, plain.ordinary⟩⟩

variable {method : Method} {subject other : Subject}

theorem splitDots_withPrefix : splitDots method.withPrefix = [subjectPrefix, method.value] := by
  cases method <;> decide +kernel

/-- The tokens on the wire: names that hold dots are several. -/
theorem splitDots_subjectToNats : splitDots (subjectToNats method subject) =
    subjectPrefix :: method.value :: (subject.path ++ propertyTokens subject.prop).flatMap splitDots := by
  unfold subjectToNats
  rw [splitDots_joinDots (by simp), List.append_assoc, List.flatMap_append, List.flatMap_singleton, splitDots_withPrefix]
  rfl

theorem subjectFromNats_subjectToNats : subjectFromNats method (subjectToNats method subject) =
    .ok ⟨((subject.path ++ propertyTokens subject.prop).flatMap splitDots).dropLast,
      propertyOf (((subject.path ++ propertyTokens subject.prop).flatMap splitDots).getLastD method.value)⟩ := by
  unfold subjectFromNats
  rw [splitDots_subjectToNats]
  dsimp only
  rw [if_neg (by simp)]

theorem splitDots_propertyTokens (plain : subject.Plain) : (propertyTokens subject.prop).flatMap splitDots =
    [if subject.prop = SpecialProperty.events then "_EVENTS" else subject.prop] := by
  have ordinary := plain.ordinary
  simp only [List.mem_cons, List.not_mem_nil, or_false, not_or] at ordinary
  obtain ⟨all, descendants, none_, -⟩ := ordinary
  unfold propertyTokens
  rw [if_neg descendants, if_neg all, if_neg none_]
  split
  · decide +kernel
  · rw [List.flatMap_singleton, splitDots_eq_singleton plain.prop]

/-- A plain subject is read back from the wire. -/
theorem Subject.Plain.reads (plain : subject.Plain) (method : Method) :
    subjectFromNats method (subjectToNats method subject) = .ok subject := by
  have ordinary : subject.prop ≠ "_EVENTS" := fun same => plain.ordinary (by simp [same])
  rw [subjectFromNats_subjectToNats, List.flatMap_append, flatMap_splitDots plain.path, splitDots_propertyTokens plain,
    List.dropLast_concat, List.getLastD_concat]
  unfold propertyOf
  split
  · rename_i events
    rw [if_pos rfl, ← events]
  · rfl

/-- A property that has one token, from which it is read back, is an ordinary one. -/
theorem ordinary_of_token {prop token : String} (one : (propertyTokens prop).flatMap splitDots = [token])
    (reads : propertyOf token = prop) : DotFree prop ∧
      prop ∉ [SpecialProperty.allProperties, SpecialProperty.allDescendants, SpecialProperty.none, "_EVENTS"] := by
  by_cases descendants : prop = SpecialProperty.allDescendants
  · rw [descendants] at one reads
    cases (show [">"] = [token] from one)
    exact absurd reads (by decide +kernel)
  by_cases all : prop = SpecialProperty.allProperties
  · rw [all] at one reads
    cases (show ["*"] = [token] from one)
    exact absurd reads (by decide +kernel)
  by_cases none_ : prop = SpecialProperty.none
  · rw [none_] at one
    cases (show [] = [token] from one)
  have notEvents : prop ≠ "_EVENTS" := by
    rintro rfl
    unfold propertyOf at reads
    split at reads
    · exact absurd reads (by decide +kernel)
    · rename_i other
      exact other reads
  refine ⟨?_, by simp [descendants, all, none_, notEvents]⟩
  by_cases events : prop = SpecialProperty.events
  · rw [events]
    decide +kernel
  · have parts : splitDots prop = [token] := by
      unfold propertyTokens at one
      rwa [if_neg descendants, if_neg all, if_neg events, if_neg none_, List.flatMap_singleton] at one
    have free : DotFree token := dotFree_of_mem (parts ▸ List.mem_singleton_self token : token ∈ splitDots prop)
    unfold propertyOf at reads
    split at reads
    · exact absurd reads.symm events
    · exact reads ▸ free

/-- A subject that is read back is plain. -/
theorem plain_of_reads (reads : subjectFromNats method (subjectToNats method subject) = .ok subject) : subject.Plain := by
  rw [subjectFromNats_subjectToNats, Except.ok.injEq] at reads
  have path := congrArg Subject.path reads
  have prop := congrArg Subject.prop reads
  dsimp only at path prop
  have free : ∀ name ∈ subject.path, DotFree name := by
    intro name mem
    rw [← path] at mem
    exact dotFree_of_mem_flatMap ((List.dropLast_sublist _).subset mem)
  rw [List.flatMap_append, flatMap_splitDots free] at path prop
  rcases List.eq_nil_or_concat ((propertyTokens subject.prop).flatMap splitDots) with noToken | ⟨init, token, tokens⟩
  · -- without a token for the property, the path is empty and the method is read
    rw [noToken, List.append_nil] at path prop
    have empty : subject.path = [] := by
      have lengths := congrArg List.length path
      rw [List.length_dropLast] at lengths
      exact List.length_eq_zero_iff.1 (by omega)
    rw [empty] at prop
    have short := @length_le_flatMap (propertyTokens subject.prop)
    rw [noToken, ← prop] at short
    cases method <;> exact absurd short (by decide +kernel)
  · rw [List.concat_eq_append] at tokens
    rw [tokens, ← List.append_assoc, List.dropLast_concat] at path
    rw [tokens, ← List.append_assoc, List.getLastD_concat] at prop
    have one : init = [] := List.append_right_eq_self.1 path
    rw [one, List.nil_append] at tokens
    obtain ⟨dotFree, ordinary⟩ := ordinary_of_token tokens prop
    exact ⟨free, dotFree, ordinary⟩

end SensorKit.Backend
