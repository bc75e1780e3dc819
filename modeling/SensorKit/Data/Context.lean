import SensorKit.Lib.Dict

/-!
# Contexts

A context is a dictionary of keyword objects. As a composite enters it, the keywords that it composes are made available
under their own keys. Objects are known by their numbers: those that a composite composes may be shared, or lead back to it.
-/

namespace SensorKit.Data

open Lib

/-- A keyword object, with what `composed_keywords` yields if it is a composite. -/
structure KeywordObject (V : Type) where
  key : String
  content : V
  composed : Option (List ℕ) := none
deriving DecidableEq, Repr

/-- The keyword objects there are. -/
structure KeywordObjects (V : Type) where
  objects : List (KeywordObject V)

/-- What a `KeywordDict` keeps: the object at each key. -/
abbrev KeywordDict := Dict String ℕ

namespace KeywordObjects

variable {V : Type} (heap : KeywordObjects V)

def key (obj : ℕ) : String :=
  (heap.objects[obj]?).elim "" (·.key)

def isComposite (obj : ℕ) : Bool :=
  ((heap.objects[obj]?).bind (·.composed)).isSome

def composedKeywords (obj : ℕ) : List ℕ :=
  ((heap.objects[obj]?).bind (·.composed)).getD []

/-- What a lookup finds: the content of an object. -/
def content (obj : ℕ) : Option V :=
  (heap.objects[obj]?).map (·.content)

/-! ## Keyword dictionaries -/

/-- `KeywordDict.set_keyword`. -/
def insertKeyword (dict : KeywordDict) (obj : ℕ) : KeywordDict :=
  dict.insert (heap.key obj) obj

/-- The bare `KeywordDict` in which the objects have been set. -/
def bare (objs : List ℕ) : KeywordDict :=
  objs.foldl heap.insertKeyword .empty

/-- `KeywordDict.update`. -/
def copyInto (dict other : KeywordDict) : KeywordDict :=
  other.entries.foldl (fun dict entry => dict.insert entry.1 entry.2) dict

/-! ## Contexts -/

/-- Traverse composed keywords, storing each under its own key. The state has the numbers that have been visited; a
traversal does not go deeper than there are objects. -/
def expand : ℕ → KeywordDict × List ℕ → ℕ → KeywordDict × List ℕ
  | 0, state, _ => state
  | fuel + 1, state, obj => (heap.composedKeywords obj).foldl (fun state composed =>
      if composed ∈ state.2 then state
      else
        let state := (state.1, composed :: state.2)
        let state := if heap.isComposite composed then expand fuel state composed else state
        (heap.insertKeyword state.1 composed, state.2)) state

/-- Expand a value that has entered. -/
def expandValue (dict : KeywordDict) (value : ℕ) : KeywordDict :=
  if heap.isComposite value then (heap.expand heap.objects.length (dict, [value]) value).1 else dict

/-- `_expand_values`, on a copy of the values. -/
def expandValues (dict : KeywordDict) (values : List ℕ) : KeywordDict :=
  values.foldl heap.expandValue dict

/-- `Context.set_keyword`. -/
def setKeyword (context : KeywordDict) (obj : ℕ) : KeywordDict :=
  heap.insertKeyword (heap.expandValue context obj) obj

/-- `Context.set`. -/
def set (context : KeywordDict) (objs : List ℕ) : KeywordDict :=
  objs.foldl heap.setKeyword context

/-- `Context.update` with a dictionary that is not a context. -/
def update (context other : KeywordDict) : KeywordDict :=
  heap.expandValues (copyInto context other) other.values

/-- `Context(arg)` for a bare `KeywordDict`: `KeywordDict.__init__` calls the update of the context. -/
def ofDict (arg : KeywordDict) : KeywordDict :=
  let context := heap.update .empty arg
  heap.expandValues context context.values

/-- `Context(arg)` for a mapping or its items, as for a dictionary that has been deserialized. -/
def ofItems (items : List (String × ℕ)) : KeywordDict :=
  let context : KeywordDict := items.foldl (fun dict entry => dict.insert entry.1 entry.2) .empty
  heap.expandValues context context.values

/-- What a context finds at a key. -/
def lookup (context : KeywordDict) (key : String) : Option (Option V) :=
  (context.get? key).map heap.content

/-- What a keyword becomes that is serialized and validated again: an object of the same content, which composes copies
of what the keyword composes. -/
inductive Copied (heap copies : KeywordObjects V) : ℕ → ℕ → Prop
  | copy (obj copied : ℕ) (key : copies.key copied = heap.key obj) (content : copies.content copied = heap.content obj)
      (composite : copies.isComposite copied = heap.isComposite obj)
      (composed : List.Forall₂ (Copied heap copies) (heap.composedKeywords obj) (copies.composedKeywords copied)) :
      Copied heap copies obj copied

/-- The items into which a context is serialized, with their values validated again. -/
def Validated (copies : KeywordObjects V) (context : KeywordDict) (items : List (String × ℕ)) : Prop :=
  List.Forall₂ (fun entry item => item.1 = entry.1 ∧ heap.Copied copies entry.2 item.2) context.entries items

variable {heap} {dict other context : KeywordDict} {objs values written visited : List ℕ} {obj composed fuel more : ℕ}
  {key : String} {state : KeywordDict × List ℕ}

/-! ## How deep a traversal goes -/

/-- What one composed keyword does to a traversal. -/
def expandStep (heap : KeywordObjects V) (fuel : ℕ) (state : KeywordDict × List ℕ) (composed : ℕ) : KeywordDict × List ℕ :=
  if composed ∈ state.2 then state
  else
    let state := (state.1, composed :: state.2)
    let state := if heap.isComposite composed then heap.expand fuel state composed else state
    (heap.insertKeyword state.1 composed, state.2)

theorem expand_succ : heap.expand (fuel + 1) state obj = (heap.composedKeywords obj).foldl (heap.expandStep fuel) state := rfl

theorem subset_expandStep (later : ∀ state : KeywordDict × List ℕ, state.2 ⊆ (heap.expand fuel state composed).2) :
    state.2 ⊆ (heap.expandStep fuel state composed).2 := by
  unfold expandStep
  split_ifs with seen composite
  · exact List.Subset.refl _
  · exact List.Subset.trans (List.subset_cons_self _ _) (later (state.1, composed :: state.2))
  · exact List.subset_cons_self _ _

/-- What has been visited stays so. -/
theorem subset_expand : state.2 ⊆ (heap.expand fuel state obj).2 := by
  induction fuel generalizing state obj with
  | zero => exact List.Subset.refl _
  | succ fuel ih =>
    rw [expand_succ]
    induction heap.composedKeywords obj generalizing state with
    | nil => exact List.Subset.refl _
    | cons composed rest step =>
      rw [List.foldl_cons]
      exact List.Subset.trans (subset_expandStep fun state => ih) step

/-- How many objects a traversal has not visited. -/
def unvisited (heap : KeywordObjects V) (visited : List ℕ) : ℕ :=
  (List.range heap.objects.length).countP (· ∉ visited)

theorem unvisited_mono (sub : visited ⊆ values) : heap.unvisited values ≤ heap.unvisited visited := by
  refine List.countP_mono_left fun obj _ fresh => ?_
  simp only [decide_eq_true_eq] at fresh ⊢
  exact fun seen => fresh (sub seen)

theorem lt_of_isComposite (composite : heap.isComposite obj = true) : obj < heap.objects.length := by
  by_contra beyond
  unfold isComposite at composite
  rw [List.getElem?_eq_none (by omega)] at composite
  simp at composite

theorem unvisited_cons (inside : obj < heap.objects.length) (fresh : obj ∉ visited) :
    heap.unvisited (obj :: visited) < heap.unvisited visited := by
  unfold unvisited
  rw [List.countP_eq_length_filter, List.countP_eq_length_filter]
  have sub : (List.range heap.objects.length).filter (· ∉ obj :: visited) =
      ((List.range heap.objects.length).filter (· ∉ visited)).filter (· ≠ obj) := by
    rw [List.filter_filter]
    refine List.filter_congr fun other _ => ?_
    simp
  rw [sub]
  exact List.length_filter_lt_length_iff_exists.2 ⟨obj, by simp [inside, fresh], by simp⟩

/-- A traversal that has as much depth as there are objects left is not cut. -/
theorem expand_of_le (enough : heap.unvisited state.2 < fuel) (le : fuel ≤ more) :
    heap.expand more state obj = heap.expand fuel state obj := by
  induction fuel generalizing state obj more with
  | zero => omega
  | succ fuel ih =>
    obtain ⟨more, rfl⟩ : ∃ less, more = less + 1 := ⟨more - 1, by omega⟩
    rw [expand_succ, expand_succ]
    induction heap.composedKeywords obj generalizing state with
    | nil => rfl
    | cons composed rest step =>
      have same : heap.expandStep more state composed = heap.expandStep fuel state composed := by
        unfold expandStep
        split_ifs with seen composite
        · rfl
        · have less := unvisited_cons (lt_of_isComposite composite) seen
          dsimp only
          rw [ih (by dsimp only; omega) (by omega)]
        · rfl
      have sub : state.2 ⊆ (heap.expandStep fuel state composed).2 := subset_expandStep fun state => subset_expand
      rw [List.foldl_cons, List.foldl_cons, same]
      exact step (lt_of_le_of_lt (unvisited_mono sub) enough)

/-- So the depth to which values are expanded cuts nothing. -/
theorem expandValue_of_le (composite : heap.isComposite obj = true) (le : heap.objects.length ≤ more) :
    heap.expandValue dict obj = (heap.expand more (dict, [obj]) obj).1 := by
  unfold expandValue
  rw [if_pos composite]
  have none : heap.unvisited [] ≤ heap.objects.length := by
    unfold unvisited
    exact List.countP_le_length.trans_eq List.length_range
  have less := unvisited_cons (lt_of_isComposite composite) (List.not_mem_nil (a := obj))
  rw [expand_of_le (by dsimp only; omega) le]

/-- Two composites that compose each other. -/
def entwined : KeywordObjects ℕ :=
  ⟨[⟨"site", 0, some [1]⟩, ⟨"mount", 1, some [0]⟩]⟩

theorem expandValue_of_le_entwined : entwined.expandValue .empty 0 = (entwined.expand 5 (.empty, [0]) 0).1 :=
  expandValue_of_le rfl (by decide)

/-! ## What an object carries -/

/-- What a traversal stores, in order. -/
def carry (heap : KeywordObjects V) : ℕ → List ℕ × List ℕ → ℕ → List ℕ × List ℕ
  | 0, state, _ => state
  | fuel + 1, state, obj => (heap.composedKeywords obj).foldl (fun state composed =>
      if composed ∈ state.2 then state
      else
        let state := (state.1, composed :: state.2)
        let state := if heap.isComposite composed then carry heap fuel state composed else state
        (state.1 ++ [composed], state.2)) state

/-- The keywords that come in with an object. -/
def carried (heap : KeywordObjects V) (obj : ℕ) : List ℕ :=
  if heap.isComposite obj then (heap.carry heap.objects.length ([], [obj]) obj).1 else []

/-- Set objects as they are. -/
def writes (heap : KeywordObjects V) (dict : KeywordDict) (objs : List ℕ) : KeywordDict :=
  objs.foldl heap.insertKeyword dict

theorem writes_append : heap.writes dict (written ++ objs) = heap.writes (heap.writes dict written) objs := List.foldl_append

theorem writes_singleton : heap.writes dict [obj] = heap.insertKeyword dict obj := rfl

/-- A traversal stores what the object carries. -/
theorem expand_writes : heap.expand fuel (heap.writes dict written, visited) obj =
    (heap.writes dict (heap.carry fuel (written, visited) obj).1, (heap.carry fuel (written, visited) obj).2) := by
  induction fuel generalizing obj written visited with
  | zero => rfl
  | succ fuel ih =>
    unfold expand carry
    induction heap.composedKeywords obj generalizing written visited with
    | nil => rfl
    | cons composed rest step =>
      rw [List.foldl_cons, List.foldl_cons]
      by_cases seen : composed ∈ visited
      · rw [if_pos seen, if_pos seen]
        exact step
      · rw [if_neg seen, if_neg seen]
        dsimp only
        split_ifs with composite
        · rw [ih, ← writes_singleton, ← writes_append]
          exact step
        · rw [← writes_singleton, ← writes_append]
          exact step

theorem expandValue_eq : heap.expandValue dict obj = heap.writes dict (heap.carried obj) := by
  unfold expandValue carried
  split_ifs with composite
  · have expanded : heap.expand heap.objects.length (heap.writes dict [], [obj]) obj = _ := expand_writes
    exact congrArg Prod.fst expanded
  · rfl

theorem expandValues_eq : heap.expandValues dict values = heap.writes dict (values.flatMap heap.carried) := by
  induction values generalizing dict with
  | nil => rfl
  | cons value values ih =>
    rw [List.flatMap_cons, writes_append, ← expandValue_eq, ← ih]
    rfl

theorem set_eq : heap.set context objs = heap.writes context (objs.flatMap fun obj => heap.carried obj ++ [obj]) := by
  induction objs generalizing context with
  | nil => rfl
  | cons obj objs ih =>
    rw [List.flatMap_cons, writes_append, writes_append, ← expandValue_eq, writes_singleton, ← ih]
    rfl

/-- The last object that has been set at a key is the one that is found. -/
theorem get?_writes : (heap.writes dict objs).get? key = (lastOf (heap.key · = key) objs).or (dict.get? key) := by
  induction objs using List.reverseRecOn with
  | nil => rfl
  | append_singleton objs obj ih =>
    rw [writes_append, writes_singleton, insertKeyword, Dict.get?_insert, lastOf_snoc, ih]
    by_cases here : heap.key obj = key
    · rw [if_pos here.symm, if_pos (by simpa using here), Option.some_or]
    · rw [if_neg (Ne.symm here), if_neg (by simpa using here)]

end KeywordObjects

end SensorKit.Data
