import Mathlib.Data.List.Dedup
import Mathlib.Data.List.Infix
import SensorKit.Lib.Dict

/-!
# Maps with paths as keys

A key is a path. Such a map finds what stands at the prefixes of a key, and the keys below one. What a program may rely on
is what each operation finds; the order of the keys below a key is the map's own.
-/

namespace SensorKit.Lib

/-- An implementation of maps with paths of `σ` as keys. -/
structure PrefixMaps (σ : Type) where
  Map : Type → Type
  empty {ε : Type} : Map ε
  get? {ε : Type} : Map ε → List σ → Option ε
  set {ε : Type} : Map ε → List σ → ε → Map ε
  /-- What stands at the prefixes of a key, from the shortest. -/
  prefixes {ε : Type} : Map ε → List σ → List ε
  /-- The nodes right below a key, with what stands there. A node that stands for no key of its own leads to one. -/
  nodes {ε : Type} : Map ε → List σ → List (List σ × Option ε)
  /-- The keys that a key is a prefix of, itself among them. -/
  keysFrom {ε : Type} : Map ε → List σ → List (List σ)

/-- The operations as documented. -/
structure PrefixMaps.Lawful {σ : Type} (lib : PrefixMaps σ) : Prop where
  get?_empty {ε : Type} (key : List σ) : lib.get? (lib.empty : lib.Map ε) key = none
  get?_set_self {ε : Type} (map : lib.Map ε) (key : List σ) (e : ε) : lib.get? (lib.set map key e) key = some e
  get?_set_of_ne {ε : Type} (map : lib.Map ε) (key other : List σ) (e : ε) (ne : other ≠ key) :
    lib.get? (lib.set map key e) other = lib.get? map other
  prefixes {ε : Type} (map : lib.Map ε) (key : List σ) : lib.prefixes map key = key.inits.filterMap (lib.get? map)
  mem_nodes {ε : Type} (map : lib.Map ε) (key node : List σ) (value : Option ε) : (node, value) ∈ lib.nodes map key ↔
    (∃ x, node = key ++ [x]) ∧ value = lib.get? map node ∧ ∃ below, node <+: below ∧ (lib.get? map below).isSome = true
  nodup_nodes {ε : Type} (map : lib.Map ε) (key : List σ) : ((lib.nodes map key).map Prod.fst).Nodup
  mem_keysFrom {ε : Type} (map : lib.Map ε) (key other : List σ) :
    other ∈ lib.keysFrom map key ↔ key <+: other ∧ (lib.get? map other).isSome = true
  nodup_keysFrom {ε : Type} (map : lib.Map ε) (key : List σ) : (lib.keysFrom map key).Nodup

/-- The prefixes of a path that are shorter than it, from the shortest. -/
def properInits {σ : Type*} (key : List σ) : List (List σ) :=
  key.inits.dropLast

section Inits

variable {σ : Type*} {key other : List σ}

theorem inits_eq : key.inits = properInits key ++ [key] := by
  rcases List.eq_nil_or_concat key with rfl | ⟨init, x, rfl⟩
  · rfl
  · rw [List.concat_eq_append, properInits, List.inits_append]
    simp

theorem nodup_inits : key.inits.Nodup := by
  induction key with
  | nil => exact List.nodup_singleton _
  | cons x key ih =>
    rw [List.inits_cons, List.nodup_cons]
    exact ⟨by simp, ih.map (List.cons_injective)⟩

theorem mem_properInits : other ∈ properInits key ↔ other <+: key ∧ other ≠ key := by
  have nodup := @nodup_inits σ key
  rw [← List.mem_inits]
  rw [inits_eq] at nodup ⊢
  obtain ⟨-, -, apart⟩ := List.nodup_append.1 nodup
  constructor
  · intro mem
    exact ⟨List.mem_append_left _ mem, fun same => apart other mem key List.mem_cons_self same⟩
  · rintro ⟨mem, ne⟩
    rcases List.mem_append.1 mem with mem | mem
    · exact mem
    · exact absurd (List.mem_singleton.1 mem) ne

theorem length_lt_of_mem (mem : other ∈ properInits key) : other.length < key.length := by
  obtain ⟨isPrefix, ne⟩ := mem_properInits.1 mem
  by_contra long
  exact ne (isPrefix.eq_of_length_le (by omega))

/-- The prefixes stand in the order of their lengths. -/
theorem pairwise_properInits : (properInits key).Pairwise fun shorter longer => shorter.length < longer.length := by
  induction key using List.reverseRecOn with
  | nil => exact .nil
  | append_singleton init x ih =>
    have inits : properInits (init ++ [x]) = init.inits := by
      unfold properInits
      rw [List.inits_append]
      simp
    rw [inits, inits_eq, List.pairwise_append]
    refine ⟨ih, List.pairwise_singleton _ _, fun other mem last last_mem => ?_⟩
    rw [List.mem_singleton.1 last_mem]
    exact length_lt_of_mem mem

end Inits

/-! ## Dictionaries -/

section Dictionaries

variable {σ : Type} [DecidableEq σ]

/-- The map that searches the keys of a dictionary. -/
def PrefixMaps.dictionary : PrefixMaps σ where
  Map := Dict (List σ)
  empty := .empty
  get? map := map.get?
  set map := map.insert
  prefixes map key := key.inits.filterMap map.get?
  nodes map key :=
    let below := map.keys.filter fun k => key <+: k ∧ k ≠ key
    (below.map (·.take (key.length + 1))).dedup.map fun node => (node, map.get? node)
  keysFrom map key := map.keys.filter fun k => key <+: k

omit [DecidableEq σ] in
theorem take_below {key below : List σ} (isPrefix : key <+: below) (ne : below ≠ key) :
    ∃ x, below.take (key.length + 1) = key ++ [x] := by
  obtain ⟨rest, rfl⟩ := isPrefix
  cases rest with
  | nil => exact absurd (List.append_nil key) ne
  | cons x rest => exact ⟨x, by simp [List.take_append]⟩

theorem isSome_get? {ε : Type} (map : Dict (List σ) ε) (key : List σ) :
    (map.get? key).isSome = true ↔ key ∈ map.keys := by
  rw [Dict.mem_keys, Option.isSome_iff_exists]

theorem lawful_dictionary : (PrefixMaps.dictionary : PrefixMaps σ).Lawful where
  get?_empty key := rfl
  get?_set_self map key e := Dict.get?_insert_self
  get?_set_of_ne map key other e ne := Dict.get?_insert_of_ne ne
  prefixes map key := rfl
  mem_nodes map key node value := by
    simp only [PrefixMaps.dictionary, List.mem_map, List.mem_dedup, List.mem_filter, decide_eq_true_eq, Prod.mk.injEq]
    constructor
    · rintro ⟨node, ⟨below, ⟨here, isPrefix, ne⟩, rfl⟩, rfl, rfl⟩
      exact ⟨take_below isPrefix ne, rfl, below, List.take_prefix _ _, (isSome_get? map below).2 here⟩
    · rintro ⟨⟨x, rfl⟩, rfl, below, ⟨rest, rfl⟩, here⟩
      refine ⟨key ++ [x], ⟨key ++ [x] ++ rest, ⟨(isSome_get? map _).1 here, ⟨x :: rest, by simp⟩, by simp⟩, ?_⟩, rfl, rfl⟩
      simp [List.take_append]
  nodup_nodes map key := by
    simp only [PrefixMaps.dictionary, List.map_map, Function.comp_def, List.map_id']
    exact List.nodup_dedup _
  mem_keysFrom map key other := by
    simp only [PrefixMaps.dictionary, List.mem_filter, decide_eq_true_eq]
    exact and_comm.trans (and_congr_right fun _ => (isSome_get? map other).symm)
  nodup_keysFrom map key := List.Nodup.filter _ map.nodup

end Dictionaries

end SensorKit.Lib
