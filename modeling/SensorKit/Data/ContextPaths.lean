import SensorKit.Data.Context

/-!
# How the write paths of a context agree

Objects that are set one after the other and objects that come in together, from a dictionary or its items, are expanded
at different moments. What each path writes is a list of objects, of which the last one at a key is found.
-/

namespace SensorKit.Data.KeywordObjects

open Lib

variable {V : Type} {heap copies : KeywordObjects V} {dict context : KeywordDict} {objs pre post : List ℕ} {obj : ℕ}
  {key : String} {items : List (String × ℕ)}

/-- What the given objects and then all that they carry give: the writes of an update. -/
def together (heap : KeywordObjects V) (objs : List ℕ) : List ℕ :=
  objs ++ objs.flatMap heap.carried

theorem bare_eq (distinct : (objs.map heap.key).Nodup) :
    (heap.bare objs).entries = objs.map fun obj => (heap.key obj, obj) := by
  have fold : heap.bare objs = Dict.ofList (objs.map fun obj => (heap.key obj, obj)) := by
    unfold bare Dict.ofList
    rw [List.foldl_map]
    rfl
  rw [fold, Dict.entries_ofList (by simpa [Function.comp_def] using distinct)]

theorem values_bare (distinct : (objs.map heap.key).Nodup) : (heap.bare objs).values = objs := by
  unfold Dict.values
  rw [bare_eq distinct, List.map_map]
  exact List.map_id _

theorem ofItems_eq : heap.ofItems dict.entries = heap.writes dict (dict.values.flatMap heap.carried) := by
  have same : dict.entries.foldl (fun dict entry => dict.insert entry.1 entry.2) .empty = dict := Dict.ofList_entries
  unfold ofItems
  rw [same, expandValues_eq]

theorem update_eq (distinct : (objs.map heap.key).Nodup) :
    heap.update .empty (heap.bare objs) = heap.bare (heap.together objs) := by
  have same : copyInto .empty (heap.bare objs) = heap.bare objs := Dict.ofList_entries
  unfold update
  rw [same, expandValues_eq, values_bare distinct]
  exact writes_append.symm

theorem ofItems_bare (distinct : (objs.map heap.key).Nodup) :
    heap.ofItems (heap.bare objs).entries = heap.bare (heap.together objs) := by
  rw [ofItems_eq, values_bare distinct]
  exact writes_append.symm

/-- The entries carry nothing that is not found: the last keyword of a key that they carry has the content of the entry
there. -/
def Settled (heap : KeywordObjects V) (entries : List (String × ℕ)) : Prop :=
  ∀ key composed, lastOf (heap.key · = key) (entries.flatMap (heap.carried ·.2)) = some composed →
    ∃ obj, (key, obj) ∈ entries ∧ heap.content obj = heap.content composed

/-- To expand a dictionary into itself changes no lookup exactly if it is settled. -/
theorem expanded_iff : (∀ key, heap.lookup (heap.writes dict (dict.values.flatMap heap.carried)) key = heap.lookup dict key) ↔
    heap.Settled dict.entries := by
  have flat : dict.values.flatMap heap.carried = dict.entries.flatMap (heap.carried ·.2) := by
    unfold Dict.values
    rw [List.flatMap_map]
  unfold Settled lookup
  refine forall_congr' fun key => ?_
  rw [get?_writes, flat]
  cases lastOf (heap.key · = key) (dict.entries.flatMap (heap.carried ·.2)) with
  | none => simp
  | some composed =>
    rw [Option.some_or, Option.map_some, eq_comm, Option.map_eq_some_iff]
    constructor
    · rintro ⟨obj, found, same⟩ other eq
      cases eq
      exact ⟨obj, Dict.get?_eq_some.1 found, same⟩
    · intro settled
      obtain ⟨obj, mem, same⟩ := settled composed rfl
      exact ⟨obj, Dict.get?_eq_some.2 mem, same⟩

/-- An object that is given stands, unless one given after it carries its key: nothing that it carries itself, or that
one given before it carries, has its key and another content. -/
def Stands (heap : KeywordObjects V) (objs : List ℕ) : Prop :=
  ∀ pre obj post, objs = pre ++ obj :: post → (∀ composed ∈ post.flatMap heap.carried, heap.key composed ≠ heap.key obj) →
    ∀ composed, lastOf (heap.key · = heap.key obj) ((pre ++ [obj]).flatMap heap.carried) = some composed →
      heap.content composed = heap.content obj

theorem get?_bare : (heap.bare objs).get? key = lastOf (heap.key · = key) objs := by
  refine get?_writes.trans ?_
  rw [Dict.get?_empty, Option.or_none]

theorem get?_set : (heap.set .empty objs).get? key =
    lastOf (heap.key · = key) (objs.flatMap fun obj => heap.carried obj ++ [obj]) := by
  rw [set_eq]
  exact get?_bare

/-- At a key that no given object has, only what they carry counts. -/
theorem get?_set_of_absent (absent : ∀ obj ∈ objs, heap.key obj ≠ key) :
    (heap.set .empty objs).get? key = (heap.bare (heap.together objs)).get? key := by
  have none : lastOf (heap.key · = key) objs = none := lastOf_eq_none.2 fun obj mem => by simpa using absent obj mem
  rw [get?_set, get?_bare, together, lastOf_append, none, Option.or_none]
  refine lastOf_flatMap_congr fun obj mem => ?_
  rw [lastOf_snoc_of_neg (by simpa using absent obj mem)]

theorem get?_set_split (distinct : ((pre ++ obj :: post).map heap.key).Nodup) :
    (heap.set .empty (pre ++ obj :: post)).get? (heap.key obj) =
      (lastOf (heap.key · = heap.key obj) (post.flatMap heap.carried)).or (some obj) := by
  have after : ∀ other ∈ post, heap.key other ≠ heap.key obj := by
    intro other mem same
    simp only [List.map_append, List.map_cons, List.nodup_append', List.nodup_cons] at distinct
    exact distinct.2.1.1 (same ▸ List.mem_map_of_mem mem)
  have last : lastOf (heap.key · = heap.key obj) (heap.carried obj ++ [obj]) = some obj :=
    lastOf_snoc_of_pos (by simp)
  rw [get?_set, List.flatMap_append, List.flatMap_cons, lastOf_append, lastOf_append, last, Option.or_assoc, Option.some_or]
  congr 1
  refine lastOf_flatMap_congr fun other mem => ?_
  rw [lastOf_snoc_of_neg (by simpa using after other mem)]

theorem get?_together_split (distinct : ((pre ++ obj :: post).map heap.key).Nodup) :
    (heap.bare (heap.together (pre ++ obj :: post))).get? (heap.key obj) =
      (lastOf (heap.key · = heap.key obj) (post.flatMap heap.carried)).or
        ((lastOf (heap.key · = heap.key obj) ((pre ++ [obj]).flatMap heap.carried)).or (some obj)) := by
  have mem : (heap.key obj, obj) ∈ (heap.bare (pre ++ obj :: post)).entries := by
    rw [bare_eq distinct]
    exact List.mem_map.2 ⟨obj, by simp, rfl⟩
  have found := get?_bare.symm.trans (Dict.get?_eq_some.2 mem)
  have split : (pre ++ obj :: post).flatMap heap.carried = (pre ++ [obj]).flatMap heap.carried ++ post.flatMap heap.carried := by
    simp
  rw [get?_bare, together, lastOf_append, found, split, lastOf_append, Option.or_assoc]

/-- Setting the objects in order and updating with all of them agree exactly if each one stands. -/
theorem set_iff_stands (distinct : (objs.map heap.key).Nodup) :
    (∀ key, heap.lookup (heap.set .empty objs) key = heap.lookup (heap.bare (heap.together objs)) key) ↔
      heap.Stands objs := by
  constructor
  · rintro same pre obj post rfl later composed carried
    have none : lastOf (heap.key · = heap.key obj) (post.flatMap heap.carried) = none :=
      lastOf_eq_none.2 fun composed mem => by simpa using later composed mem
    have here := same (heap.key obj)
    unfold lookup at here
    rw [get?_set_split distinct, get?_together_split distinct, none, carried] at here
    exact (Option.some.inj here).symm
  · intro stands key
    by_cases given : ∃ obj ∈ objs, heap.key obj = key
    · obtain ⟨obj, mem, rfl⟩ := given
      obtain ⟨pre, post, rfl⟩ := List.append_of_mem mem
      unfold lookup
      rw [get?_set_split distinct, get?_together_split distinct]
      cases later : lastOf (heap.key · = heap.key obj) (post.flatMap heap.carried) with
      | some composed => rfl
      | none =>
        rw [Option.none_or, Option.none_or]
        cases before : lastOf (heap.key · = heap.key obj) ((pre ++ [obj]).flatMap heap.carried) with
        | none => rfl
        | some composed =>
          have none : ∀ composed ∈ post.flatMap heap.carried, heap.key composed ≠ heap.key obj := fun composed mem => by
            simpa using lastOf_eq_none.1 later composed mem
          rw [Option.some_or, Option.map_some, Option.map_some, stands pre obj post rfl none composed before]
    · unfold lookup
      rw [get?_set_of_absent fun obj mem here => given ⟨obj, mem, here⟩]

/-! ## The round trip -/

section

variable (valid : heap.Validated copies context items)
include valid

theorem keys_validated : items.map Prod.fst = context.keys := by
  refine Eq.symm (List.forall₂_eq_eq_eq ▸ List.forall₂_map_left_iff.2 (List.forall₂_map_right_iff.2 ?_))
  exact valid.imp fun entry item h => h.1.symm

theorem entries_validated : (Dict.ofList items).entries = items := by
  refine Dict.entries_ofList ?_
  rw [keys_validated valid]
  exact context.nodup

/-- The copies are found where the values were. -/
theorem lookup_validated : copies.lookup (Dict.ofList items) key = heap.lookup context key := by
  have found (entries : List (String × ℕ)) (items : List (String × ℕ))
      (valid : List.Forall₂ (fun entry item => item.1 = entry.1 ∧ heap.Copied copies entry.2 item.2) entries items) :
      (items.find? (·.1 = key)).map (copies.content ·.2) = (entries.find? (·.1 = key)).map (heap.content ·.2) := by
    induction valid with
    | nil => rfl
    | @cons entry item entries items here valid ih =>
      obtain ⟨same, copied⟩ := here
      rw [List.find?_cons, List.find?_cons, same]
      cases entry.1 = key |> decide with
      | false => exact ih
      | true =>
        obtain ⟨-, -, -, content, -, -⟩ := copied
        exact congrArg some content
  unfold lookup Dict.get?
  rw [entries_validated valid, Option.map_map, Option.map_map]
  exact found _ _ valid

/-- Building a context from what another one was serialized into preserves every lookup exactly if the copies are
settled. -/
theorem validated_iff :
    (∀ key, copies.lookup (copies.ofItems items) key = heap.lookup context key) ↔ copies.Settled items := by
  have built : copies.ofItems items =
      copies.writes (Dict.ofList items) ((Dict.ofList items).values.flatMap copies.carried) := by
    rw [← ofItems_eq, entries_validated valid]
  have settled : copies.Settled (Dict.ofList items).entries = copies.Settled items := by rw [entries_validated valid]
  rw [built, ← settled, ← expanded_iff]
  refine forall_congr' fun key => ?_
  rw [lookup_validated valid]

end

/-! ## The write paths together -/

/-- The write paths agree on objects with distinct keys exactly if each object stands, and what they and all that they
carry give is settled. A round trip keeps every lookup exactly if the copies are settled. -/
theorem write_paths_agree_iff {V : Type} (heap : KeywordObjects V) :
    (∀ objs : List ℕ, (objs.map heap.key).Nodup →
      ((∀ key, heap.lookup (heap.ofDict (heap.bare objs)) key = heap.lookup (heap.set .empty objs) key ∧
          heap.lookup (heap.update .empty (heap.bare objs)) key = heap.lookup (heap.set .empty objs) key ∧
          heap.lookup (heap.ofItems (heap.bare objs).entries) key = heap.lookup (heap.set .empty objs) key) ↔
        heap.Stands objs ∧ heap.Settled (heap.bare (heap.together objs)).entries)) ∧
    ∀ (copies : KeywordObjects V) (context : KeywordDict) (items : List (String × ℕ)),
      heap.Validated copies context items →
        ((∀ key, copies.lookup (copies.ofItems items) key = heap.lookup context key) ↔ copies.Settled items) := by
  refine ⟨fun objs distinct => ?_, fun copies context items valid => validated_iff valid⟩
  have twice : heap.ofDict (heap.bare objs) = heap.writes (heap.bare (heap.together objs))
      ((heap.bare (heap.together objs)).values.flatMap heap.carried) := by
    unfold ofDict
    rw [update_eq distinct, expandValues_eq]
  rw [ofItems_bare distinct, update_eq distinct, ← set_iff_stands distinct, ← expanded_iff, ← twice]
  constructor
  · intro same
    exact ⟨fun key => (same key).2.1.symm, fun key => (same key).1.trans (same key).2.1.symm⟩
  · rintro ⟨set, twice⟩ key
    exact ⟨(twice key).trans (set key).symm, (set key).symm, (set key).symm⟩

end SensorKit.Data.KeywordObjects

namespace SensorKit.Data

open Lib

/-- A whole that composes a part, the part, and another part to take its place. -/
def overridden : KeywordObjects ℕ where
  objects := [⟨"Whole", 42, some [1]⟩, ⟨"Part", 42, none⟩, ⟨"Part", 7, none⟩]

theorem copied_part : overridden.Copied overridden 1 1 := .copy 1 1 rfl rfl rfl .nil

theorem copied_whole : overridden.Copied overridden 0 0 := .copy 0 0 rfl rfl rfl (.cons copied_part .nil)

/-- All agree on the whole alone. -/
theorem write_paths_agree_iff_example :
    (∀ key, overridden.lookup (overridden.ofDict (overridden.bare [0])) key =
        overridden.lookup (overridden.set .empty [0]) key) ∧
      ∀ key, overridden.lookup (overridden.ofItems [("Part", 1), ("Whole", 0)]) key =
        overridden.lookup (overridden.set .empty [0]) key := by
  have paths := overridden.write_paths_agree_iff
  have part {key : String} {composed : ℕ} (found : lastOf (overridden.key · = key) [1] = some composed) :
      key = "Part" ∧ composed = 1 := by
    obtain ⟨here, -⟩ := exists_append_of_lastOf found
    obtain rfl : composed = 1 := by simpa using List.mem_reverse.1 (List.mem_of_find?_eq_some found)
    exact ⟨(of_decide_eq_true here).symm, rfl⟩
  constructor
  · refine fun key => ((paths.1 [0] (by decide)).2 ⟨?_, ?_⟩ key).1
    · intro pre obj post split _ composed found
      obtain ⟨rfl, same⟩ | ⟨rfl, same⟩ := List.append_eq_singleton_iff.1 split.symm
      · obtain ⟨rfl, rfl⟩ := List.cons_eq_cons.1 same
        obtain ⟨other, -⟩ := part found
        exact absurd other (by decide)
      · simp at same
    · intro key composed found
      obtain ⟨rfl, rfl⟩ := part found
      exact ⟨1, by decide, rfl⟩
  · refine (paths.2 overridden _ _ ?_).2 ?_
    · exact .cons ⟨rfl, copied_part⟩ (.cons ⟨rfl, copied_whole⟩ .nil)
    · intro key composed found
      obtain ⟨rfl, rfl⟩ := part found
      exact ⟨1, by decide, rfl⟩

/-- A part given after the whole replaces the composed one where the objects are set in order. It gets lost where they
come in together, and on the round trip of the context in which it was set. -/
theorem later_part_lost :
    ([0, 2].map overridden.key).Nodup ∧
      overridden.lookup (overridden.set .empty [0, 2]) "Part" = some (some 7) ∧
      overridden.lookup (overridden.update .empty (overridden.bare [0, 2])) "Part" = some (some 42) ∧
      overridden.lookup (overridden.ofDict (overridden.bare [0, 2])) "Part" = some (some 42) ∧
      overridden.Validated overridden (overridden.set .empty [0, 2]) [("Part", 2), ("Whole", 0)] ∧
      overridden.lookup (overridden.ofItems [("Part", 2), ("Whole", 0)]) "Part" = some (some 42) := by
  refine ⟨by decide, by decide +kernel, by decide +kernel, by decide +kernel, ?_, by decide +kernel⟩
  exact .cons ⟨rfl, .copy 2 2 rfl rfl rfl .nil⟩ (.cons ⟨rfl, copied_whole⟩ .nil)

end SensorKit.Data
