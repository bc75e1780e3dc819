import SensorKit.Common.DagOrder
import SensorKit.Sensor.Lifecycle

/-!
# The symbolic check of a table

A table is checked without facts about devices: its names, its references, and the dependencies of its phases and
entries, which may have no cycle. An entry's row of dependencies stands under its id, or under a name made of its phase
and position. Later rows replace earlier ones of the same name, so that the check sees each entry's dependencies but
for those of an entry whose row is taken.
-/

namespace SensorKit.Sensor

open Lib Common

/-! ## The check -/

inductive NodeKind where
  | entry
  | phase
deriving DecidableEq, Repr

def NodeKind.name : NodeKind → String
  | .entry => "entry"
  | .phase => "phase"

/-- A symbolic phase or entry node. -/
abbrev CheckNode := NodeKind × String

/-- The order of the nodes as pairs of texts. -/
def CheckNode.le (x y : CheckNode) : Prop :=
  x.1.name < y.1.name ∨ x.1 = y.1 ∧ x.2 ≤ y.2

instance : DecidableRel CheckNode.le := fun x y =>
  inferInstanceAs (Decidable (x.1.name < y.1.name ∨ x.1 = y.1 ∧ x.2 ≤ y.2))

/-- What the check raises: a value error, or the key error of a node that has no row. -/
inductive CheckError where
  | value (message : String)
  | key (node : CheckNode)
deriving DecidableEq, Repr

/-- `_unique`: reject repeated names in a namespace. -/
def unique (names : List String) (what : String) : Except CheckError Unit :=
  let dupes := (names.filter fun n => 1 < names.count n).dedup.insertionSort (· ≤ ·)
  if dupes = [] then .ok () else .error (.value (what ++ ": " ++ ", ".intercalate dupes))

/-- `_disjoint`: require phase names and entry ids to occupy separate namespaces. -/
def disjoint (phases ids : List String) : Except CheckError Unit :=
  let shared := (phases.filter (· ∈ ids)).dedup.insertionSort (· ≤ ·)
  if shared = [] then .ok ()
  else .error (.value ("a phase and an entry share a name: " ++ ", ".intercalate shared))

/-- `_resolves`: check that each referenced name is declared. -/
def resolves (names known : List String) (what : String) : Except CheckError Unit :=
  let unknown := (names.filter (· ∉ known)).insertionSort (· ≤ ·)
  if unknown = [] then .ok () else .error (.value (what ++ " names nothing: " ++ ", ".intercalate unknown))

/-- The node that a clause's name refers to. -/
def referred (ids : List String) (name : String) : CheckNode :=
  if name ∈ ids then (.entry, name) else (.phase, name)

/-- `_required`: resolve requirement names to symbolic phase or entry nodes. -/
def required (entry : Entry) (known ids : List String) : Except CheckError (List CheckNode) := do
  let named := entry.require.map Join.name
  resolves named known "require"
  return (named.map (referred ids)).dedup

/-- Symbolic dependencies. -/
abbrev Rows := Dict CheckNode (List CheckNode)

/-- An entry in its place, in a phase or a cleanup. -/
structure Site where
  /-- What the path of a phase or cleanup begins with. -/
  lead : List PathPart := []
  owner : String
  entry : Entry
  position : ℕ

namespace Site

/-- What names the row of an entry. -/
def row (s : Site) : String :=
  match s.entry.id with
  | none => s.owner ++ "[" ++ toString s.position ++ "]"
  | some id => if id = "" then s.owner ++ "[" ++ toString s.position ++ "]" else id

/-- The path of an entry in the origins of its operations. -/
def path (s : Site) : List PathPart :=
  s.lead ++ [.name s.owner, s.entry.part s.position]

end Site

def Phase.sites (phase : Phase) : List Site :=
  phase.entries.zipIdx.map fun (entry, position) => { owner := phase.name, entry, position }

def CleanupSpec.sites (spec : CleanupSpec) : List Site :=
  spec.entries.zipIdx.map fun (entry, position) =>
    { lead := [.name "cleanup"], owner := spec.name, entry, position }

/-- The entries of a table's phases. -/
def LifecycleWorkflow.sites (table : LifecycleWorkflow) : List Site :=
  table.phases.flatMap Phase.sites

/-- One turn of the inner loop of `_dependencies`. -/
def addRow (follows known ids : List String) (deps : Rows) (s : Site) : Except CheckError Rows := do
  let node : CheckNode := (.phase, s.owner)
  let deps := deps.insert node ((deps.get? node).getD [] ∪ [(.entry, s.row)])
  let needs ← required s.entry known ids
  return deps.insert (.entry, s.row) (follows.map (Prod.mk .phase) ∪ needs)

/-- `_dependencies`: build symbolic phase and entry dependencies, validating references. -/
def LifecycleWorkflow.dependencies (table : LifecycleWorkflow) (known ids : List String) : Except CheckError Rows :=
  table.phases.zipIdx.foldlM (fun (deps : Rows) (phase, index) => do
    let follows := table.follows index
    resolves follows (table.phases.map Phase.name) ("phase '" ++ phase.name ++ "' after")
    phase.sites.foldlM (addRow follows known ids) (deps.insert (.phase, phase.name) [])) .empty

/-- The nodes of the symbolic graph, with their numbers. -/
def numberedNodes (deps : Rows) : GraphBuilder Unit × Dict CheckNode ℕ :=
  (deps.keys.insertionSort CheckNode.le).foldl (fun (builder, ids) node =>
    (builder.add (node.1.name ++ " '" ++ node.2 ++ "'") node.1.name () .stop false 0 none,
      ids.insert node builder.nodes.length)) ({}, .empty)

/-- `_acyclic`: check symbolic dependencies with the graph builder, without device facts. -/
def acyclic (deps : Rows) : Except CheckError Unit := do
  let (builder, ids) := numberedNodes deps
  let builder ← deps.entries.foldlM (fun (builder : GraphBuilder Unit) (node, following) => do
    let after ← following.mapM fun f => match ids.get? f with
      | some id => .ok id
      | none => .error (.key f)
    return builder.order ((ids.get? node).getD 0) after) builder
  match builder.build with
  | .ok _ => .ok ()
  | .error message => .error (.value message)

/-- `_check_cleanup`: validate a cleanup's local references and main-workflow trigger ids. -/
def checkCleanup (armable : List String) (spec : CleanupSpec) : Except CheckError Unit := do
  let ids := spec.entries.filterMap Entry.id
  let named := (spec.entries.flatMap Entry.require).map Join.name
  unique ids ("cleanup '" ++ spec.name ++ "' uses an entry id twice")
  resolves (spec.armedBy.getD []) armable ("cleanup '" ++ spec.name ++ "' armed_by")
  let outside := (named.filter (· ∉ ids)).dedup.insertionSort (· ≤ ·)
  if outside = [] then
    acyclic (spec.sites.foldl (fun (deps : Rows) s =>
      deps.insert (.entry, s.row) ((s.entry.require.map fun clause => (NodeKind.entry, clause.name)).dedup)) .empty)
  else .error (.value ("cleanup '" ++ spec.name ++ "' require names entries outside it: " ++ ", ".intercalate outside))

/-- `_check`: validate phase, entry and cleanup namespaces and dependencies. -/
def LifecycleWorkflow.checkNames (table : LifecycleWorkflow) : Except CheckError Unit := do
  let phases := table.phases.map Phase.name
  let ids := (table.phases.flatMap Phase.entries).filterMap Entry.id
  unique phases "a phase is named twice"
  unique (table.cleanup.map CleanupSpec.name) "a cleanup is named twice"
  unique ids "an entry id is used twice"
  disjoint phases ids
  acyclic (← table.dependencies (phases ++ ids) ids)
  table.cleanup.forM (checkCleanup ids)

/-- Check names, references and symbolic cycles without device facts. A value error comes with the table's name. -/
def LifecycleWorkflow.check (table : LifecycleWorkflow) : Except CheckError Unit :=
  table.checkNames.mapError fun
    | .value message => .value ("table '" ++ table.name ++ "': " ++ message)
    | .key node => .key node

/-! ## What passes -/

section Acyclic

variable {deps : Rows} {x y : CheckNode}

/-- The row of a node lists the other. -/
def Lists (deps : Rows) (x y : CheckNode) : Prop :=
  ∃ following, deps.get? x = some following ∧ y ∈ following

/-- Nodes are numbered in their order, and have no edges yet. -/
structure Numbers (pre : List CheckNode) (state : GraphBuilder Unit × Dict CheckNode ℕ) : Prop where
  made : state.1.Made
  length : state.1.nodes.length = pre.length
  bare : ∀ n, state.1.soft n = [] ∧ state.1.hard n = []
  keys : state.2.keys = pre
  bound : ∀ x i, state.2.get? x = some i → i < pre.length

theorem numberedNodes_spec (deps : Rows) :
    Numbers (deps.keys.insertionSort CheckNode.le) (numberedNodes deps) := by
  have nodup : (deps.keys.insertionSort CheckNode.le).Nodup := (List.perm_insertionSort _ _).nodup_iff.2 deps.nodup
  unfold numberedNodes
  generalize deps.keys.insertionSort CheckNode.le = sorted at nodup
  induction sorted using List.reverseRecOn with
  | nil => exact ⟨.empty, rfl, fun _ => ⟨rfl, rfl⟩, rfl, by simp⟩
  | append_singleton pre node ih =>
    rw [List.foldl_append, List.foldl_cons, List.foldl_nil]
    have inv := ih nodup.of_append_left
    generalize pre.foldl (fun (state : GraphBuilder Unit × Dict CheckNode ℕ) node =>
      (state.1.add (node.1.name ++ " '" ++ node.2 ++ "'") node.1.name () .stop false 0 none,
        state.2.insert node state.1.nodes.length)) ({}, .empty) = state at inv
    have fresh : node ∉ state.2.keys := by
      rw [inv.keys]
      have := List.nodup_append.1 nodup
      exact fun mem => this.2.2 node mem node (by simp) rfl
    refine ⟨.add inv.made _ _ _ _ _ _ _, ?_, inv.bare, ?_, fun x i found => ?_⟩
    · simp [GraphBuilder.add, inv.length]
    · rw [Dict.keys_insert fresh, inv.keys]
    · dsimp only at found
      rw [Dict.get?_insert] at found
      rw [List.length_append, List.length_singleton]
      split_ifs at found with same
      · have := inv.length
        simp only [Option.some.injEq] at found
        omega
      · have := inv.bound x i found
        omega

/-- **What `_acyclic` accepts** has no cycle, and lists nodes that have rows. -/
theorem acyclic_eq_ok (h : acyclic deps = .ok ()) :
    ¬ Cyclic (Lists deps) ∧ ∀ x y, Lists deps x y → y ∈ deps.keys := by
  have numbers := numberedNodes_spec deps
  unfold acyclic at h
  generalize numberedNodes deps = state at h numbers
  obtain ⟨builder, ids⟩ := state
  simp only [bind_eq_ok] at h
  obtain ⟨edged, loop, builds⟩ := h
  have known (x : CheckNode) : x ∈ ids.keys ↔ x ∈ deps.keys := by
    rw [numbers.keys, List.mem_insertionSort]
  have spec := foldlM_invariant_prefix (fun pre (b : GraphBuilder Unit) => b.Made ∧
    b.nodes.length = builder.nodes.length ∧ ∀ row ∈ pre, ∀ y ∈ row.2, ∃ j, ids.get? y = some j ∧
      j ∈ b.soft ((ids.get? row.1).getD 0)) loop ⟨numbers.made, rfl, by simp⟩ ?_
  · obtain ⟨made, -, edges⟩ := spec
    have numbered (x y : CheckNode) (lists : Lists deps x y) : ∃ j, ids.get? y = some j ∧
        j ∈ edged.frozen.deps ((ids.get? x).getD 0) := by
      obtain ⟨following, found, mem⟩ := lists
      obtain ⟨j, at_, edge⟩ := edges (x, following) (Dict.get?_eq_some.1 found) y mem
      exact ⟨j, at_, List.mem_union_left edge _⟩
    refine ⟨fun cyclic => ?_, fun x y lists => ?_⟩
    · cases built : edged.build with
      | error message => simp [built] at builds
      | ok graph =>
        have valid := made.valid built
        obtain rfl := GraphBuilder.build_eq_ok built
        refine not_cyclic_of_acc valid.acyclic.apply (cyclic.map (fun x => (ids.get? x).getD 0) fun x y lists => ?_)
        obtain ⟨j, at_, edge⟩ := numbered x y lists
        rw [at_]
        exact .single edge
    · obtain ⟨j, at_, -⟩ := numbered x y lists
      exact (known y).1 (Dict.mem_keys.2 ⟨j, at_⟩)
  · rintro pre ⟨node, following⟩ post b b' eq ⟨made, length, edges⟩ turn
    simp only [bind_eq_ok, pure_eq_ok] at turn
    obtain ⟨after, traversed, rfl⟩ := turn
    have here : node ∈ ids.keys := by
      rw [known]
      exact List.mem_map.2 ⟨(node, following), by simp [eq], rfl⟩
    obtain ⟨i, at_⟩ := Dict.mem_keys.1 here
    have inside : (ids.get? node).getD 0 < b.nodes.length := by
      rw [at_, Option.getD_some, length]
      have := numbers.bound node i at_
      have := numbers.length
      dsimp only at *
      omega
    refine ⟨.order made inside after, length, fun row mem y listed => ?_⟩
    rcases mem_snoc.1 mem with mem | rfl
    · obtain ⟨j, found, edge⟩ := edges row mem y listed
      exact ⟨j, found, GraphBuilder.mem_order.2 (.inr edge)⟩
    · obtain ⟨j, numbered, found⟩ := exists_right_of_forall₂ (mapM_eq_ok.1 traversed) listed
      refine ⟨j, ?_, ?_⟩
      · split at found
        · rename_i there
          rw [there, Except.ok.inj found]
        · cases found
      · exact GraphBuilder.mem_order.2 (.inl ⟨rfl, numbered⟩)

end Acyclic

section Names

variable {names known : List String} {what : String}

theorem sorted_eq_nil {r : String → String → Prop} [DecidableRel r] {l : List String} :
    l.insertionSort r = [] ↔ l = [] := by
  rw [← List.length_eq_zero_iff, List.length_insertionSort, List.length_eq_zero_iff]

theorem unique_eq_ok (h : unique names what = .ok ()) : names.Nodup := by
  unfold unique at h
  dsimp only at h
  split_ifs at h with none
  rw [sorted_eq_nil, List.dedup_eq_nil] at none
  rw [List.nodup_iff_count_le_one]
  intro n
  by_cases mem : n ∈ names
  · have := List.filter_eq_nil_iff.1 none n mem
    simpa using this
  · rw [List.count_eq_zero_of_not_mem mem]
    omega

theorem disjoint_eq_ok {ids : List String} (h : disjoint names ids = .ok ()) : ∀ n ∈ names, n ∉ ids := by
  unfold disjoint at h
  dsimp only at h
  split_ifs at h with none
  rw [sorted_eq_nil, List.dedup_eq_nil] at none
  intro n mem
  simpa using List.filter_eq_nil_iff.1 none n mem

end Names

/-! ## Rows -/

section Rowed

variable {sites : List Site} {deps deps' : Rows} {node : String → CheckNode} {s t : Site} {ids : List String}

theorem Site.row_ne (s : Site) : s.row ≠ "" := by
  unfold Site.row
  split
  · intro empty
    have := congrArg String.toList empty
    simp [String.toList_append] at this
  · split_ifs with unnamed
    · intro empty
      have := congrArg String.toList empty
      simp [String.toList_append] at this
    · exact unnamed

/-- A later entry's row takes the place of this one's. -/
def Overwritten (sites : List Site) (s : Site) : Prop :=
  ∃ later, [s, later].Sublist sites ∧ later.row = s.row

/-- Each entry's row lists what its clauses refer to, unless it is overwritten. -/
structure Rowed (node : String → CheckNode) (sites : List Site) (deps : Rows) : Prop where
  lists : ∀ s ∈ sites, ¬ Overwritten sites s → ∀ clause ∈ s.entry.require,
    Lists deps (.entry, s.row) (node clause.name)
  keys : ∀ name, (.entry, name) ∈ deps.keys → ∃ s ∈ sites, s.row = name

/-- **A row is added.** -/
theorem Rowed.snoc {following : List CheckNode} (h : Rowed node sites deps)
    (at_ : deps'.get? (.entry, t.row) = some following) (all : ∀ clause ∈ t.entry.require, node clause.name ∈ following)
    (others : ∀ name, name ≠ t.row → deps'.get? (.entry, name) = deps.get? (.entry, name)) :
    Rowed node (sites ++ [t]) deps' := by
  refine ⟨fun s mem free clause asked => ?_, fun name mem => ?_⟩
  · rcases mem_snoc.1 mem with mem | rfl
    · have other : s.row ≠ t.row := by
        intro same
        apply free
        exact ⟨t, (List.singleton_sublist.2 mem).append (List.Sublist.refl [t]), same.symm⟩
      have before : ¬ Overwritten sites s := by
        rintro ⟨later, sublist, same⟩
        exact free ⟨later, sublist.trans (List.sublist_append_left _ _), same⟩
      obtain ⟨following', found, listed⟩ := h.lists s mem before clause asked
      exact ⟨following', by rw [others _ other, found], listed⟩
    · exact ⟨following, at_, all clause asked⟩
  · by_cases same : name = t.row
    · exact ⟨t, by simp, same.symm⟩
    · obtain ⟨following', found⟩ := Dict.mem_keys.1 mem
      rw [others _ same] at found
      obtain ⟨s, mem, eq⟩ := h.keys name (Dict.mem_keys.2 ⟨following', found⟩)
      exact ⟨s, List.mem_append_left _ mem, eq⟩

/-- The rows of the phases list those of their entries. -/
def PhaseRows (sites : List Site) (deps : Rows) : Prop :=
  ∀ s ∈ sites, Lists deps (.phase, s.owner) (.entry, s.row)

theorem required_eq_ok {entry : Entry} {known : List String} {needs : List CheckNode}
    (h : required entry known ids = .ok needs) : ∀ clause ∈ entry.require, referred ids clause.name ∈ needs := by
  unfold required at h
  simp only [bind_eq_ok, pure_eq_ok] at h
  obtain ⟨-, -, rfl⟩ := h
  intro clause asked
  rw [List.mem_dedup, List.map_map]
  exact List.mem_map_of_mem asked

theorem addRow_eq_ok {follows known : List String} (rowed : Rowed (referred ids) sites deps)
    (phases : PhaseRows sites deps) (h : addRow follows known ids deps t = .ok deps') :
    Rowed (referred ids) (sites ++ [t]) deps' ∧ PhaseRows (sites ++ [t]) deps' := by
  unfold addRow at h
  simp only [bind_eq_ok, pure_eq_ok] at h
  obtain ⟨needs, requires, rfl⟩ := h
  refine ⟨?_, fun s mem => ?_⟩
  · refine rowed.snoc Dict.get?_insert_self (fun clause asked => ?_) fun name other => ?_
    · exact List.mem_union_iff.2 (.inr (required_eq_ok requires clause asked))
    · rw [Dict.get?_insert_of_ne (by simpa using other), Dict.get?_insert_of_ne (by simp)]
  · unfold Lists
    rw [Dict.get?_insert_of_ne (by simp), Dict.get?_insert]
    rcases mem_snoc.1 mem with mem | rfl
    · obtain ⟨rows, found, listed⟩ := phases s mem
      split_ifs with same
      · rw [← same, found, Option.getD_some]
        exact ⟨_, rfl, List.mem_union_iff.2 (.inl listed)⟩
      · exact ⟨rows, found, listed⟩
    · rw [if_pos rfl]
      exact ⟨_, rfl, List.mem_union_iff.2 (.inr (List.mem_singleton_self _))⟩

theorem Phase.owner_of_mem {phase : Phase} (mem : s ∈ phase.sites) : s.owner = phase.name := by
  obtain ⟨_, _, rfl⟩ := List.mem_map.1 mem
  rfl

/-- **The symbolic dependencies of a table.** -/
theorem dependencies_eq_ok {table : LifecycleWorkflow} {known : List String}
    (names : (table.phases.map Phase.name).Nodup) (h : table.dependencies known ids = .ok deps) :
    Rowed (referred ids) table.sites deps ∧ PhaseRows table.sites deps := by
  have split (pre : List (Phase × ℕ)) : (pre.map Prod.fst).flatMap Phase.sites = pre.flatMap (·.1.sites) := by
    rw [List.flatMap_map]
  unfold LifecycleWorkflow.dependencies at h
  have all := foldlM_invariant_prefix (fun pre (deps : Rows) => Rowed (referred ids) (pre.flatMap (·.1.sites)) deps ∧
    PhaseRows (pre.flatMap (·.1.sites)) deps) h ⟨⟨by simp, fun name mem => ?_⟩, fun s mem => by simp at mem⟩ ?_
  · rw [← split, List.zipIdx_map_fst] at all
    exact all
  · obtain ⟨_, found⟩ := Dict.mem_keys.1 mem
    simp at found
  · rintro pre ⟨phase, index⟩ post deps deps' eq ⟨rowed, phases⟩ turn
    simp only [bind_eq_ok] at turn
    obtain ⟨-, -, turn⟩ := turn
    have fresh (s : Site) (mem : s ∈ pre.flatMap (·.1.sites)) : s.owner ≠ phase.name := by
      obtain ⟨⟨phase', _⟩, before, here⟩ := List.mem_flatMap.1 mem
      have order := congrArg (List.map fun p => p.1.name) eq
      have fst : (table.phases.zipIdx.map fun p => p.1.name) = table.phases.map Phase.name := by
        rw [← Function.comp_def Phase.name Prod.fst, ← List.map_map, List.zipIdx_map_fst]
      rw [fst] at order
      rw [order, List.map_append, List.map_cons] at names
      rw [Phase.owner_of_mem here]
      exact (List.nodup_append.1 names).2.2 _ (List.mem_map_of_mem (f := fun p => p.1.name) before) _ (by simp)
    have declared : Rowed (referred ids) (pre.flatMap (·.1.sites)) (deps.insert (.phase, phase.name) []) ∧
        PhaseRows (pre.flatMap (·.1.sites)) (deps.insert (.phase, phase.name) []) := by
      refine ⟨⟨fun s mem free clause asked => ?_, fun name mem => ?_⟩, fun s mem => ?_⟩
      · unfold Lists
        rw [Dict.get?_insert_of_ne (by simp)]
        exact rowed.lists s mem free clause asked
      · rw [Dict.mem_keys_insert] at mem
        exact rowed.keys name (mem.resolve_left (by simp))
      · unfold Lists
        rw [Dict.get?_insert_of_ne (by simpa using fresh s mem)]
        exact phases s mem
    have done := foldlM_invariant_prefix (fun done (deps : Rows) =>
      Rowed (referred ids) (pre.flatMap (·.1.sites) ++ done) deps ∧
        PhaseRows (pre.flatMap (·.1.sites) ++ done) deps) turn (by simpa using declared)
      fun done s rest deps deps' _ inv turn => by
        rw [← List.append_assoc]
        exact addRow_eq_ok inv.1 inv.2 turn
    simpa using done

end Rowed

/-! ## What entries need -/

/-- The placements are related as the clause asks. -/
def Join.Relates (clause : Join) (p q : Placement) : Prop :=
  match clause.join with
  | .all => True
  | .sameDevice => q.device = p.device
  | .sameChain => p.path.take q.path.length = q.path

namespace Site

/-- The entry selects the placement. -/
def Selects (sensor : BoundSensor) (s : Site) (p : Placement) : Prop :=
  ∃ targets, s.entry.targets sensor = .ok targets ∧ p ∈ targets

def Identified (s : Site) (name : String) : Prop :=
  s.entry.id = some name

/-- The name is that of the entry, or of its phase. -/
def Called (s : Site) (name : String) : Prop :=
  s.Identified name ∨ s.owner = name

end Site

/-- An entry at a placement requires an entry at a placement. -/
structure Needs (sensor : BoundSensor) (sites : List Site) (called : Site → String → Prop) (x y : Site × Placement) :
    Prop where
  left : x.1 ∈ sites
  right : y.1 ∈ sites
  selects : x.1.Selects sensor x.2
  selects' : y.1.Selects sensor y.2
  asks : ∃ clause ∈ x.1.entry.require, called y.1 clause.name ∧ clause.Relates x.2 y.2

/-- No entry whose row is overwritten needs itself in a circle. -/
def Unhidden (sensor : BoundSensor) (sites : List Site) (called : Site → String → Prop) : Prop :=
  ∀ x, Overwritten sites x.1 → ¬ Relation.TransGen (Needs sensor sites called) x x

section Checked

variable {table : LifecycleWorkflow} {sensor : BoundSensor} {sites : List Site} {deps : Rows}
  {node : String → CheckNode} {called : Site → String → Prop}

/-- **Rows without a cycle** come of entries that do not need themselves in a circle, but for hidden ones. -/
theorem Rowed.not_cyclic (rowed : Rowed node sites deps) (acyclic : ¬ Cyclic (Lists deps))
    (follows : ∀ x ∈ sites, ∀ y ∈ sites, ∀ clause ∈ x.entry.require, called y clause.name →
      Lists deps (.entry, x.row) (node clause.name) →
        Relation.TransGen (Lists deps) (.entry, x.row) (.entry, y.row))
    (unhidden : Unhidden sensor sites called) : ¬ Cyclic (Needs sensor sites called) := by
  intro cyclic
  refine acyclic (cyclic.within.map (fun x => (.entry, x.1.row)) fun x y ⟨needs, cycle, _⟩ => ?_)
  obtain ⟨clause, asked, calls, -⟩ := needs.asks
  have seen : ¬ Overwritten sites x.1 := fun hidden => unhidden x hidden cycle
  exact follows _ needs.left _ needs.right clause asked calls (rowed.lists _ needs.left seen clause asked)

/-- The id of an entry that is referred to names its row. -/
theorem Rowed.row_of_id (rowed : Rowed node sites deps) {s : Site} {name : String} (has : s.entry.id = some name)
    (key : (.entry, name) ∈ deps.keys) : s.row = name := by
  obtain ⟨t, -, same⟩ := rowed.keys name key
  have inhabited : name ≠ "" := same ▸ t.row_ne
  unfold Site.row
  rw [has]
  exact if_neg inhabited

/-- What a table's check has found. -/
structure Checked (table : LifecycleWorkflow) : Prop where
  names : (table.phases.map Phase.name).Nodup
  ids : ((table.phases.flatMap Phase.entries).filterMap Entry.id).Nodup
  apart : ∀ name ∈ table.phases.map Phase.name, name ∉ (table.phases.flatMap Phase.entries).filterMap Entry.id
  rows : ∀ sensor, Unhidden sensor table.sites Site.Called → ¬ Cyclic (Needs sensor table.sites Site.Called)
  cleanup : ∀ spec ∈ table.cleanup, ∀ sensor, Unhidden sensor spec.sites Site.Identified →
    ¬ Cyclic (Needs sensor spec.sites Site.Identified)

theorem LifecycleWorkflow.mem_ids {s : Site} {name : String} (mem : s ∈ table.sites) (has : s.entry.id = some name) :
    name ∈ (table.phases.flatMap Phase.entries).filterMap Entry.id := by
  obtain ⟨phase, mem', here⟩ := List.mem_flatMap.1 mem
  obtain ⟨⟨entry, position⟩, listed, rfl⟩ := List.mem_map.1 here
  refine List.mem_filterMap.2 ⟨entry, List.mem_flatMap.2 ⟨phase, mem', ?_⟩, has⟩
  exact List.fst_mem_of_mem_zipIdx listed

theorem LifecycleWorkflow.owner_mem {s : Site} (mem : s ∈ table.sites) : s.owner ∈ table.phases.map Phase.name := by
  obtain ⟨phase, mem', here⟩ := List.mem_flatMap.1 mem
  rw [Phase.owner_of_mem here]
  exact List.mem_map_of_mem mem'

theorem checkCleanup_eq_ok {armable : List String} {spec : CleanupSpec} (h : checkCleanup armable spec = .ok ()) :
    Unhidden sensor spec.sites Site.Identified → ¬ Cyclic (Needs sensor spec.sites Site.Identified) := by
  unfold checkCleanup at h
  simp only [bind_eq_ok] at h
  obtain ⟨-, -, -, -, h⟩ := h
  split_ifs at h
  have rowed (sites : List Site) : Rowed (Prod.mk NodeKind.entry) sites (sites.foldl (fun (deps : Rows) s =>
      deps.insert (.entry, s.row) ((s.entry.require.map fun clause => (NodeKind.entry, clause.name)).dedup)) .empty) := by
    induction sites using List.reverseRecOn with
    | nil =>
      refine ⟨by simp, fun name mem => ?_⟩
      obtain ⟨_, found⟩ := Dict.mem_keys.1 mem
      simp at found
    | append_singleton sites s ih =>
      rw [List.foldl_append, List.foldl_cons, List.foldl_nil]
      refine ih.snoc Dict.get?_insert_self (fun clause asked => ?_) fun name other => ?_
      · rw [List.mem_dedup]
        exact List.mem_map_of_mem (f := fun clause : Join => (NodeKind.entry, clause.name)) asked
      · exact Dict.get?_insert_of_ne (by simpa using other)
  obtain ⟨acyclic, closed⟩ := acyclic_eq_ok h
  refine (rowed spec.sites).not_cyclic acyclic fun x _ y _ clause _ calls lists => ?_
  rw [(rowed spec.sites).row_of_id calls (closed _ _ lists)]
  exact .single lists

/-- **What `check` accepts.** -/
theorem check_eq_ok (h : table.check = .ok ()) : Checked table := by
  unfold LifecycleWorkflow.check at h
  rw [mapError_eq_ok] at h
  unfold LifecycleWorkflow.checkNames at h
  simp only [bind_eq_ok] at h
  obtain ⟨⟨⟩, names, -, -, ⟨⟩, ids, ⟨⟩, apart, deps, depends, ⟨⟩, rows, cleanup⟩ := h
  have names := unique_eq_ok names
  have apart := disjoint_eq_ok apart
  refine ⟨names, unique_eq_ok ids, apart, fun sensor => ?_, fun spec mem sensor => ?_⟩
  · obtain ⟨rowed, phases⟩ := dependencies_eq_ok names depends
    obtain ⟨acyclic, closed⟩ := acyclic_eq_ok rows
    refine rowed.not_cyclic acyclic fun x _ y mem' clause _ calls lists => ?_
    rcases calls with has | owner
    · -- The clause names the entry.
      have listed := table.mem_ids mem' has
      unfold referred at lists
      rw [if_pos listed] at lists
      rw [rowed.row_of_id has (closed _ _ lists)]
      exact .single lists
    · -- The clause names the phase, and the row of the phase lists the entry's.
      have phase : clause.name ∉ (table.phases.flatMap Phase.entries).filterMap Entry.id :=
        owner ▸ apart _ (table.owner_mem mem')
      unfold referred at lists
      rw [if_neg phase, ← owner] at lists
      exact .tail (.single lists) (phases y mem')
  · exact checkCleanup_eq_ok (forM_eq_ok.1 cleanup spec mem)

end Checked

end SensorKit.Sensor
