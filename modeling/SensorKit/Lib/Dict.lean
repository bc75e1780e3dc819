import SensorKit.Lib.Trace

/-!
# Dictionaries that keep their order

A dictionary lists its entries in the order in which the keys were first inserted. A key that is
inserted again keeps its place. That no key is listed twice is part of the type.
-/

namespace SensorKit.Lib

structure Dict (κ υ : Type*) where
  entries : List (κ × υ)
  nodup : (entries.map Prod.fst).Nodup

namespace Dict

variable {κ υ : Type*} {l : List (κ × υ)}

def empty : Dict κ υ := ⟨[], .nil⟩

def keys (d : Dict κ υ) : List κ := d.entries.map Prod.fst

def values (d : Dict κ υ) : List υ := d.entries.map Prod.snd

theorem eq_of_mem {d : Dict κ υ} {k : κ} {v w : υ} (hv : (k, v) ∈ d.entries) (hw : (k, w) ∈ d.entries) : v = w :=
  congrArg Prod.snd (List.inj_on_of_nodup_map d.nodup hv hw rfl)

variable [DecidableEq κ]

def get? (d : Dict κ υ) (k : κ) : Option υ :=
  (d.entries.find? (·.1 = k)).map Prod.snd

/-- Set the value of a key, in its place if it has one. -/
def insert (d : Dict κ υ) (k : κ) (v : υ) : Dict κ υ :=
  if h : k ∈ d.keys then
    ⟨d.entries.map fun e => if e.1 = k then (k, v) else e, by
      have same : (d.entries.map fun e => if e.1 = k then (k, v) else e).map Prod.fst = d.entries.map Prod.fst := by
        rw [List.map_map]
        refine List.map_congr_left fun e _ => ?_
        by_cases here : e.1 = k <;> simp [here]
      rw [same]
      exact d.nodup⟩
  else ⟨d.entries ++ [(k, v)], by simpa using d.nodup.append (List.nodup_singleton k) (by simpa [keys] using h)⟩

/-- Change each value, with its key. -/
def mapValues (d : Dict κ υ) (f : κ → υ → υ) : Dict κ υ :=
  ⟨d.entries.map fun e => (e.1, f e.1 e.2), by simpa [List.map_map, Function.comp_def] using d.nodup⟩

/-- Take a key out. -/
def erase (d : Dict κ υ) (k : κ) : Dict κ υ :=
  ⟨d.entries.filter (·.1 ≠ k), (List.filter_sublist.map Prod.fst).nodup d.nodup⟩

/-- The dictionary of a list of entries, in which later ones replace earlier ones. -/
def ofList (entries : List (κ × υ)) : Dict κ υ :=
  entries.foldl (fun d e => d.insert e.1 e.2) empty

variable {d : Dict κ υ} {k k' : κ} {v w : υ}

theorem get?_eq_some : d.get? k = some v ↔ (k, v) ∈ d.entries := by
  simp only [get?, Option.map_eq_some_iff]
  constructor
  · rintro ⟨⟨k', w⟩, found, rfl⟩
    obtain rfl : k' = k := by simpa using List.find?_some found
    exact List.mem_of_find?_eq_some found
  · intro mem
    cases found : d.entries.find? (·.1 = k) with
    | none => simpa using List.find?_eq_none.1 found _ mem
    | some e =>
      obtain ⟨k', w⟩ := e
      obtain rfl : k' = k := by simpa using List.find?_some found
      exact ⟨_, rfl, eq_of_mem (List.mem_of_find?_eq_some found) mem⟩

theorem get?_eq_none : d.get? k = none ↔ k ∉ d.keys := by
  simp only [get?, Option.map_eq_none_iff, List.find?_eq_none, keys, List.mem_map, not_exists, not_and]
  constructor
  · rintro none e mem rfl
    simpa using none e mem
  · intro absent e mem
    simpa using absent e mem

theorem mem_keys : k ∈ d.keys ↔ ∃ v, d.get? k = some v := by
  rw [← not_iff_not, ← get?_eq_none]
  cases d.get? k <;> simp

theorem mem_values : v ∈ d.values ↔ ∃ k, d.get? k = some v := by
  simp only [values, List.mem_map, get?_eq_some, Prod.exists, exists_eq_right]

@[simp] theorem get?_empty : (empty : Dict κ υ).get? k = none := rfl

@[simp] theorem get?_insert_self : (d.insert k v).get? k = some v := by
  rw [get?_eq_some, insert]
  split
  · rename_i here
    obtain ⟨e, mem, rfl⟩ := List.mem_map.1 here
    exact List.mem_map.2 ⟨e, mem, by simp⟩
  · simp

theorem get?_insert_of_ne (other : k' ≠ k) : (d.insert k v).get? k' = d.get? k' := by
  ext w
  simp only [get?_eq_some, insert]
  split
  · simp only [List.mem_map]
    constructor
    · rintro ⟨e, mem, eq⟩
      split_ifs at eq with here
      · exact absurd (congrArg Prod.fst eq).symm other
      · exact eq ▸ mem
    · exact fun mem => ⟨(k', w), mem, by simp [other]⟩
  · simp [other]

theorem get?_insert : (d.insert k v).get? k' = if k' = k then some v else d.get? k' := by
  split_ifs with same
  · rw [same, get?_insert_self]
  · exact get?_insert_of_ne same

@[simp] theorem mem_keys_insert : k' ∈ (d.insert k v).keys ↔ k' = k ∨ k' ∈ d.keys := by
  simp only [mem_keys, get?_insert]
  by_cases same : k' = k <;> simp [same]

/-- A new key comes last. -/
theorem entries_insert (fresh : k ∉ d.keys) : (d.insert k v).entries = d.entries ++ [(k, v)] := by
  rw [insert, dif_neg fresh]

theorem keys_insert (fresh : k ∉ d.keys) : (d.insert k v).keys = d.keys ++ [k] := by
  simp [keys, entries_insert fresh]

/-- A key that is there keeps its place. -/
theorem keys_insert_of_mem (here : k ∈ d.keys) : (d.insert k v).keys = d.keys := by
  rw [insert, dif_pos here]
  unfold keys
  rw [List.map_map]
  refine List.map_congr_left fun e _ => ?_
  by_cases same : e.1 = k <;> simp [same]

theorem get?_mapValues {f : κ → υ → υ} : (d.mapValues f).get? k = (d.get? k).map (f k) := by
  ext w
  rw [get?_eq_some, Option.map_eq_some_iff]
  unfold mapValues
  rw [List.mem_map]
  constructor
  · rintro ⟨⟨key, v⟩, mem, eq⟩
    cases eq
    exact ⟨v, get?_eq_some.2 mem, rfl⟩
  · rintro ⟨v, found, rfl⟩
    exact ⟨(k, v), get?_eq_some.1 found, rfl⟩

theorem get?_erase : (d.erase k).get? k' = if k' = k then none else d.get? k' := by
  ext w
  rw [get?_eq_some, erase, List.mem_filter]
  split_ifs with same
  · simp [same]
  · simp [same, get?_eq_some]

@[simp] theorem mem_keys_erase : k' ∈ (d.erase k).keys ↔ k' ≠ k ∧ k' ∈ d.keys := by
  simp only [mem_keys, get?_erase]
  by_cases same : k' = k <;> simp [same]

/-- The keys of a list of entries are those of its dictionary. -/
theorem mem_keys_ofList : k ∈ (ofList l).keys ↔ k ∈ l.map Prod.fst := by
  have all (l : List (κ × υ)) : ∀ d : Dict κ υ,
      k ∈ (l.foldl (fun d e => d.insert e.1 e.2) d).keys ↔ k ∈ d.keys ∨ k ∈ l.map Prod.fst := by
    induction l with
    | nil => simp
    | cons e l ih =>
      intro d
      rw [List.foldl_cons, ih, mem_keys_insert, List.map_cons, List.mem_cons]
      tauto
  have none : k ∉ (empty : Dict κ υ).keys := List.not_mem_nil
  rw [ofList, all]
  simp [none]

/-- Entries without repeated keys are the entries of their dictionary. -/
theorem get?_ofList (nodup : (l.map Prod.fst).Nodup) (mem : (k, v) ∈ l) :
    (ofList l).get? k = some v := by
  have keep (l : List (κ × υ)) : ∀ d : Dict κ υ, k ∉ l.map Prod.fst →
      (l.foldl (fun d e => d.insert e.1 e.2) d).get? k = d.get? k := by
    induction l with
    | nil => exact fun _ _ => rfl
    | cons e l ih =>
      intro d absent
      obtain ⟨other, absent⟩ := not_or.1 (List.mem_cons.not.1 absent)
      rw [List.foldl_cons, ih _ absent, get?_insert_of_ne other]
  have all (l : List (κ × υ)) : ∀ d : Dict κ υ, (l.map Prod.fst).Nodup → (k, v) ∈ l →
      (l.foldl (fun d e => d.insert e.1 e.2) d).get? k = some v := by
    induction l with
    | nil => exact fun _ _ mem => absurd mem List.not_mem_nil
    | cons e l ih =>
      intro d nodup mem
      obtain ⟨fresh, nodup⟩ := List.nodup_cons.1 nodup
      rcases List.mem_cons.1 mem with rfl | mem
      · rw [List.foldl_cons, keep _ _ fresh, get?_insert_self]
      · exact ih _ nodup mem
  exact all l empty nodup mem

/-- Entries without repeated keys are kept as they are. -/
theorem entries_ofList (nodup : (l.map Prod.fst).Nodup) : (ofList l).entries = l := by
  induction l using List.reverseRecOn with
  | nil => rfl
  | append_singleton l e ih =>
    rw [List.map_append, List.map_singleton, List.nodup_append'] at nodup
    have snoc : ofList (l ++ [e]) = (ofList l).insert e.1 e.2 := List.foldl_append
    have fresh : e.1 ∉ (ofList l).keys := by
      rw [mem_keys_ofList]
      exact fun mem => nodup.2.2 mem (List.mem_singleton_self _)
    rw [snoc, entries_insert fresh, ih nodup.1]

theorem ofList_entries : ofList d.entries = d := by
  have same := entries_ofList d.nodup
  cases h : ofList d.entries with
  | mk entries nodup =>
    rw [h] at same
    cases d
    subst same
    rfl

/-! ## Grouping -/

/-- The elements of a list by key, in first-seen order. -/
def group {α : Type*} (f : α → κ) (xs : List α) : Dict κ (List α) :=
  xs.foldl (fun d x => d.insert (f x) ((d.get? (f x)).getD [] ++ [x])) empty

variable {α : Type*} {f : α → κ} {xs : List α}

/-- A group lists the elements of its key in their order. -/
theorem get?_group : (group f xs).get? k =
    if xs.filter (f · = k) = [] then none else some (xs.filter (f · = k)) := by
  induction xs using List.reverseRecOn generalizing k with
  | nil => rfl
  | append_singleton xs x ih =>
    have snoc : group f (xs ++ [x]) =
        (group f xs).insert (f x) (((group f xs).get? (f x)).getD [] ++ [x]) := by
      unfold group
      rw [List.foldl_append]
      rfl
    rw [snoc, get?_insert, ih, ih]
    by_cases same : k = f x
    · subst same
      by_cases none_ : xs.filter (f · = f x) = [] <;> simp [none_]
    · simp [same, Ne.symm same]

/-- At most one entry is at a key. -/
theorem flatMap_entries {β : Type*} (g : υ → List β) :
    (d.entries.flatMap fun e => if e.1 = k then g e.2 else []) = ((d.get? k).map g).getD [] := by
  have all (l : List (κ × υ)) (nodup : (l.map Prod.fst).Nodup) : (l.flatMap fun e => if e.1 = k then g e.2 else []) =
      ((l.find? (·.1 = k)).map fun e => g e.2).getD [] := by
    induction l with
    | nil => rfl
    | cons e l ih =>
      obtain ⟨fresh, nodup⟩ := List.nodup_cons.1 nodup
      rw [List.flatMap_cons, ih nodup]
      by_cases here : e.1 = k
      · have absent : l.find? (·.1 = k) = none := by
          refine List.find?_eq_none.2 fun e' mem => ?_
          have other : e'.1 ≠ e.1 := fun same => fresh (same ▸ List.mem_map_of_mem mem)
          simpa [← here] using other
        simp [here, absent]
      · simp [here]
  rw [all d.entries d.nodup, get?, Option.map_map]
  rfl

/-- Grouping keeps the order of the elements of a key. -/
theorem filter_entries_group : ((group f xs).entries.flatMap fun e => e.2.filter (f · = k)) = xs.filter (f · = k) := by
  have split : (group f xs).entries.flatMap (fun e => e.2.filter (f · = k)) =
      (group f xs).entries.flatMap fun e => if e.1 = k then e.2 else [] := by
    refine List.flatMap_congr fun e mem => ?_
    have found := get?_eq_some.2 (show (e.1, e.2) ∈ _ from mem)
    rw [get?_group] at found
    split_ifs at found with some_
    rw [← Option.some.inj found, List.filter_filter]
    split_ifs with same
    · simp [same]
    · refine List.filter_eq_nil_iff.2 fun x _ both => same ?_
      simp only [Bool.and_eq_true, decide_eq_true_eq] at both
      exact both.2.symm.trans both.1
  rw [split, flatMap_entries (fun v => v), get?_group]
  split_ifs with none_
  · exact none_.symm
  · rfl

end Dict

/-- What is left without repetitions has none. -/
theorem nodup_eraseDups {α : Type*} [BEq α] [LawfulBEq α] : ∀ xs : List α, xs.eraseDups.Nodup
  | [] => by simp
  | x :: xs => by
    have rest := nodup_eraseDups (xs.filter fun y => !y == x)
    rw [List.eraseDups_cons, List.nodup_cons, List.mem_eraseDups]
    exact ⟨by simp, rest⟩
termination_by xs => xs.length
decreasing_by exact Nat.lt_succ_of_le (List.length_filter_le _ _)

end SensorKit.Lib
