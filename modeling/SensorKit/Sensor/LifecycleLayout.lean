import SensorKit.Sensor.LifecycleCheck
import SensorKit.Sensor.LifecycleCompile
import SensorKit.Sensor.Lowering

/-!
# The dependencies of a compiled table

The steps of a block depend on the one before them. The first depends on steps of earlier phases and on those that
clauses ask for, which are of earlier phases or of the same one. So a cycle of steps is one of blocks, and it stays in
a phase, where the clauses of entries lead around it.
-/

namespace SensorKit.Sensor

open Lib Common

/-! ## Blocks and cycles -/

section Awaits

variable {bs : List Block} {b b' : Block} {joined : String → List Dependency} {table : LifecycleWorkflow} {n m : String}

/-- The first step of a block depends on the step. -/
def Block.DependsOn (joined : String → List Dependency) (b : Block) (n : String) : Prop :=
  n ∈ b.soft ∨ ∃ dep ∈ joined (b.name 0), dep.on = n

/-- The first step of a block depends on a step of another. -/
def Awaits (bs : List Block) (joined : String → List Dependency) (b b' : Block) : Prop :=
  b ∈ bs ∧ b' ∈ bs ∧ ∃ n ∈ b'.names, b.DependsOn joined n

/-- Blocks depend on one another only. -/
def Closed (bs : List Block) (joined : String → List Dependency) : Prop :=
  ∀ b ∈ bs, ∀ n, b.DependsOn joined n → ∃ b' ∈ bs, n ∈ b'.names

/-- **What the steps of blocks declare.** -/
theorem declares_iff : Declares (blockSteps table joined bs) n m ↔ ∃ b ∈ bs,
    (∃ k, k + 1 < b.entry.ops.length ∧ n = b.name (k + 1) ∧ m = b.name k) ∨ n = b.name 0 ∧ b.DependsOn joined m := by
  unfold Declares
  constructor
  · rintro ⟨step, mem, rfl, dep, listed, rfl⟩
    obtain ⟨b, here, k, op, at_, rfl⟩ := mem_blockSteps.1 mem
    refine ⟨b, here, ?_⟩
    cases k with
    | zero =>
      refine .inr ⟨rfl, ?_⟩
      rcases List.mem_append.1 listed with soft | asked
      · obtain ⟨n, inherited, rfl⟩ := List.mem_map.1 soft
        exact .inl inherited
      · exact .inr ⟨dep, asked, rfl⟩
    | succ k =>
      obtain rfl := List.mem_singleton.1 listed
      exact .inl ⟨k, (List.getElem?_eq_some_iff.1 at_).1, rfl, rfl⟩
  · rintro ⟨b, here, ⟨k, lt, rfl, rfl⟩ | ⟨rfl, depends⟩⟩
    · exact ⟨_, mem_blockSteps.2 ⟨b, here, k + 1, _, List.getElem?_eq_getElem lt, rfl⟩, rfl, _,
        List.mem_singleton_self _, rfl⟩
    · refine ⟨_, mem_blockSteps.2 ⟨b, here, 0, _, List.getElem?_eq_getElem b.ops_pos, rfl⟩, rfl, ?_⟩
      rcases depends with soft | ⟨dep, asked, rfl⟩
      · exact ⟨_, List.mem_append_left _ (List.mem_map_of_mem soft), rfl⟩
      · exact ⟨dep, List.mem_append_right _ asked, rfl⟩

theorem mem_names_of_declares (closed : Closed bs joined) (declares : Declares (blockSteps table joined bs) n m) :
    ∃ b ∈ bs, m ∈ b.names := by
  obtain ⟨b, here, ⟨k, lt, -, rfl⟩ | ⟨-, depends⟩⟩ := declares_iff.1 declares
  · exact ⟨b, here, Block.mem_names.2 ⟨k, by omega, rfl⟩⟩
  · exact closed b here m depends

/-- Where steps lead: down their block, or through blocks that await one another. -/
theorem leads_of_declares (apart : Apart bs) (closed : Closed bs joined)
    (leads : Relation.TransGen (Declares (blockSteps table joined bs)) n m) :
    ∃ b ∈ bs, ∃ k < b.entry.ops.length, n = b.name k ∧ ∃ b' ∈ bs, ∃ k' < b'.entry.ops.length, m = b'.name k' ∧
      (b = b' ∧ k' < k ∨ Relation.TransGen (Awaits bs joined) b b') := by
  have one {n m : String} (edge : Declares (blockSteps table joined bs) n m) :
      ∃ b ∈ bs, ∃ k < b.entry.ops.length, n = b.name k ∧ ∃ b' ∈ bs, ∃ k' < b'.entry.ops.length, m = b'.name k' ∧
        (b = b' ∧ k' < k ∨ Awaits bs joined b b') := by
    obtain ⟨b, here, ⟨k, lt, rfl, rfl⟩ | ⟨rfl, depends⟩⟩ := declares_iff.1 edge
    · exact ⟨b, here, k + 1, lt, rfl, b, here, k, by omega, rfl, .inl ⟨rfl, by omega⟩⟩
    · obtain ⟨b', here', mem⟩ := closed b here m depends
      obtain ⟨k', lt', rfl⟩ := Block.mem_names.1 mem
      exact ⟨b, here, 0, b.ops_pos, rfl, b', here', k', lt', rfl, .inr ⟨here, here', _, mem, depends⟩⟩
  induction leads with
  | single edge =>
    obtain ⟨b, here, k, lt, rfl, b', here', k', lt', rfl, way⟩ := one edge
    exact ⟨b, here, k, lt, rfl, b', here', k', lt', rfl, way.imp_right .single⟩
  | tail _ edge ih =>
    obtain ⟨b, here, k, lt, rfl, b₁, here₁, k₁, lt₁, rfl, way⟩ := ih
    obtain ⟨b₂, here₂, k₂, lt₂, same, b', here', k', lt', rfl, way'⟩ := one edge
    obtain ⟨rfl, rfl⟩ := apart.name_inj here₁ here₂ lt₁ lt₂ same
    refine ⟨b, here, k, lt, rfl, b', here', k', lt', rfl, ?_⟩
    rcases way with ⟨rfl, less⟩ | way
    · rcases way' with ⟨rfl, less'⟩ | edge
      · exact .inl ⟨rfl, by omega⟩
      · exact .inr (.single edge)
    · rcases way' with ⟨rfl, -⟩ | edge
      · exact .inr way
      · exact .inr (.tail way edge)

/-- **A cycle of steps is one of blocks.** -/
theorem cyclic_declares_iff (apart : Apart bs) (closed : Closed bs joined) :
    Cyclic (Declares (blockSteps table joined bs)) ↔ Cyclic (Awaits bs joined) := by
  constructor
  · rintro ⟨n, cycle⟩
    obtain ⟨b, here, k, lt, rfl, b', here', k', lt', same, way⟩ := leads_of_declares apart closed cycle
    obtain ⟨rfl, rfl⟩ := apart.name_inj here here' lt lt' same
    rcases way with ⟨-, less⟩ | cycle
    · omega
    · exact ⟨b, cycle⟩
  · intro cyclic
    refine cyclic.map (fun b => b.name 0) fun b b' ⟨here, here', n, mem, depends⟩ => ?_
    obtain ⟨k, lt, rfl⟩ := Block.mem_names.1 mem
    have down (k : ℕ) (lt : k < b'.entry.ops.length) :
        Relation.ReflTransGen (Declares (blockSteps table joined bs)) (b'.name k) (b'.name 0) := by
      induction k with
      | zero => exact .refl
      | succ k ih =>
        exact .head (declares_iff.2 ⟨b', here', .inl ⟨k, lt, rfl, rfl⟩⟩) (ih (by omega))
    exact .trans_left (.single (declares_iff.2 ⟨b, here, .inr ⟨rfl, depends⟩⟩)) (down k lt)

end Awaits

/-! ## Blocks and entries -/

section Housed

variable {sensor : BoundSensor} {sites : List Site} {bs new : List Block} {b b' : Block} {s : Site} {c : TableCompiler}
  {p : Block → Bool}

/-- The block is of an entry, at a placement that it selects. -/
structure Block.Of (sensor : BoundSensor) (s : Site) (b : Block) : Prop where
  runs : b.entry = s.entry
  group : b.group = s.owner
  origin : b.origin = s.path
  selects : s.Selects sensor b.target

/-- The blocks are those of the entries at their placements. -/
structure Housed (sensor : BoundSensor) (sites : List Site) (bs : List Block) : Prop where
  blocks : ∀ b ∈ bs, ∃ s ∈ sites, b.Of sensor s
  covers : ∀ s ∈ sites, ∀ p, s.Selects sensor p → ∃ b ∈ bs, b.Of sensor s ∧ b.target = p

theorem Housed.nil : Housed sensor [] [] :=
  ⟨by simp, by simp⟩

/-- An entry is emitted at its targets. -/
theorem Housed.snoc {targets : List Placement} {soft : List String} {stated : Option Bool}
    (h : Housed sensor sites bs) (selects : s.entry.targets sensor = .ok targets)
    (of : BlocksOf s.entry targets soft s.owner s.path stated new) : Housed sensor (sites ++ [s]) (bs ++ new) := by
  have own (b : Block) (mem : b ∈ new) : b.Of sensor s := by
    refine ⟨of.entry b mem, of.group b mem, of.origin b mem, targets, selects, ?_⟩
    rw [← of.targets]
    exact List.mem_map_of_mem mem
  refine ⟨fun b mem => ?_, fun s' mem p selected => ?_⟩
  · rcases List.mem_append.1 mem with mem | mem
    · obtain ⟨s', listed, rest⟩ := h.blocks b mem
      exact ⟨s', List.mem_append_left _ listed, rest⟩
    · exact ⟨s, by simp, own b mem⟩
  · rcases mem_snoc.1 mem with mem | rfl
    · obtain ⟨b, here, rest⟩ := h.covers s' mem p selected
      exact ⟨b, List.mem_append_left _ here, rest⟩
    · obtain ⟨targets', selects', target⟩ := selected
      cases selects.symm.trans selects'
      rw [← of.targets] at target
      obtain ⟨b, here, rfl⟩ := List.mem_map.1 target
      exact ⟨b, List.mem_append_right _ here, own b here, rfl⟩

/-- A clause of the block's entry names the other's entry, or its group, and relates their placements. -/
def Block.Asks (b b' : Block) : Prop :=
  ∃ clause ∈ b.entry.require, (b'.entry.id = some clause.name ∨ b'.group = clause.name) ∧
    clause.Relates b.target b'.target

/-- A clause narrows the steps that it names to those at related placements. -/
theorem mem_narrowed {clause : Join} {named : List String} {p : Placement} {k : ℕ} (places : Places c bs)
    (mem : b ∈ bs) (lt : k < b.entry.ops.length) :
    b.name k ∈ c.narrowed clause named p ↔ b.name k ∈ named ∧ clause.Relates p b.target := by
  have at_ := places b mem k lt
  unfold TableCompiler.narrowed Join.Relates
  cases clause.join with
  | all => simp
  | sameDevice => simp [at_]
  | sameChain => simp [at_]

theorem narrowed_subset {clause : Join} {named : List String} {p : Placement} {n : String}
    (mem : n ∈ c.narrowed clause named p) : n ∈ named := by
  unfold TableCompiler.narrowed at mem
  cases kind : clause.join with
  | all => simpa [kind] using mem
  | sameDevice =>
    rw [kind] at mem
    exact (List.mem_filter.1 mem).1
  | sameChain =>
    rw [kind] at mem
    exact (List.mem_filter.1 mem).1

end Housed

/-! ## Phases -/

/-- The place of a phase in the table. -/
def LifecycleWorkflow.rank (table : LifecycleWorkflow) (name : String) : ℕ :=
  (table.phases.map Phase.name).idxOf name

section Rank

variable {table : LifecycleWorkflow} {done rest : List Phase} {phase : Phase} {name : String}

theorem rank_lt (split : table.phases = done ++ rest) (mem : name ∈ done.map Phase.name) :
    table.rank name < done.length := by
  unfold LifecycleWorkflow.rank
  rw [split, List.map_append, List.idxOf_append_of_mem mem]
  simpa using List.idxOf_lt_length_iff.2 mem

theorem rank_next (split : table.phases = done ++ phase :: rest) (fresh : phase.name ∉ done.map Phase.name) :
    table.rank phase.name = done.length := by
  unfold LifecycleWorkflow.rank
  rw [split, List.map_append, List.idxOf_append_of_notMem fresh]
  simp

end Rank

/-- What the compiler knows of the phases that it has declared, and of the entries there that it has expanded. -/
structure Laid (table : LifecycleWorkflow) (sensor : BoundSensor) (done : List Phase) (sites : List Site)
    (c : TableCompiler) (bs : List Block) (joined : String → List Dependency) : Prop where
  whole : c.table = table
  bound : c.sensor = sensor
  split : ∃ rest, table.phases = done ++ rest
  emits : Emits c c.steps bs joined
  places : Places c bs
  housed : Housed sensor sites bs
  owners : ∀ s ∈ sites, s.owner ∈ done.map Phase.name
  keys : c.phaseSteps.keys = done.map Phase.name
  after : ∀ name, name ∈ c.phaseAfter.keys → name ∈ done.map Phase.name
  earlier : ∀ name follows, c.phaseAfter.get? name = some follows → ∀ other ∈ follows,
    other ∈ done.map Phase.name ∧ table.rank other < table.rank name
  steps : ∀ name ∈ done.map Phase.name, c.phaseSteps.get? name = some (namesWhere bs (·.group = name))
  entrySteps : ∀ id, (c.entrySteps.get? id).getD [] = namesWhere bs (·.entry.id = some id)
  owned : ∀ id, id ∈ c.entryPhase.keys ↔ id ∈ (done.flatMap Phase.entries).filterMap Entry.id
  soft : ∀ b ∈ bs, ∀ n ∈ b.soft, ∃ b' ∈ bs, n ∈ b'.names ∧ table.rank b'.group < table.rank b.group
  asked : ∀ b ∈ bs, ∀ clause ∈ b.entry.require,
    clause.name ∈ c.entryPhase.keys ∨ clause.name ∈ done.map Phase.name

section Laid

variable {table : LifecycleWorkflow} {sensor : BoundSensor} {done rest : List Phase} {sites : List Site} {phase : Phase}
  {c c' : TableCompiler} {bs new : List Block} {joined joined' : String → List Dependency} {b b' : Block}
  {n name «where» : String} {after : List String} {entries : List Entry} {chosen : List (List Placement)}

namespace Laid

/-- Nothing is declared yet. -/
theorem start : Laid table sensor [] [] { table, sensor } [] fun _ => [] := by
  refine ⟨rfl, rfl, ⟨_, rfl⟩, ⟨rfl, by simp, List.Pairwise.nil, by simp⟩, by simp [Places], .nil, by simp, rfl,
    fun name mem => ?_, fun name follows found => ?_, by simp, fun id => rfl, fun id => ?_, by simp, by simp⟩
  · obtain ⟨_, found⟩ := Dict.mem_keys.1 mem
    simp at found
  · simp at found
  · simp [Dict.keys, Dict.empty]

section

variable (h : Laid table sensor done sites c bs joined)
include h

theorem group_mem (mem : b ∈ bs) : b.group ∈ done.map Phase.name := by
  obtain ⟨s, listed, of⟩ := h.housed.blocks b mem
  rw [of.group]
  exact h.owners s listed

/-- The steps that stand for a phase are its own, or of earlier phases. -/
theorem of_mem_effective (fuel : ℕ) : ∀ name ∈ done.map Phase.name, ∀ n ∈ c.effectiveSteps fuel name,
      ∃ b ∈ bs, n ∈ b.names ∧ (b.group = name ∨ table.rank b.group < table.rank name) := by
  induction fuel with
  | zero =>
    intro name _ n mem
    exact absurd mem List.not_mem_nil
  | succ fuel ih =>
    intro name declared n mem
    unfold TableCompiler.effectiveSteps at mem
    dsimp only at mem
    rw [h.steps name declared, Option.getD_some] at mem
    split_ifs at mem with inhabited
    · obtain ⟨b, here, group, named⟩ := mem_namesWhere.1 mem
      exact ⟨b, here, named, .inl (by simpa using group)⟩
    · rw [List.mem_eraseDups] at mem
      obtain ⟨other, follows, mem⟩ := List.mem_flatMap.1 mem
      cases found : c.phaseAfter.get? name with
      | none => simp [found] at follows
      | some names =>
        rw [found, Option.getD_some] at follows
        obtain ⟨before, less⟩ := h.earlier name names found other follows
        obtain ⟨b, here, named, way⟩ := ih other before n mem
        refine ⟨b, here, named, .inr ?_⟩
        rcases way with rfl | less'
        · exact less
        · omega

/-- A phase that has steps stands for them. -/
theorem effective_of_group (mem : b ∈ bs) (named : n ∈ b.names) : n ∈ c.effective b.group := by
  have declared := h.group_mem mem
  have listed : n ∈ namesWhere bs (·.group = b.group) := mem_namesWhere.2 ⟨b, mem, by simp, named⟩
  have fuel : c.phaseSteps.keys.length = c.phaseSteps.keys.length - 1 + 1 := by
    have := List.length_pos_of_mem declared
    rw [h.keys]
    omega
  unfold TableCompiler.effective
  rw [fuel]
  unfold TableCompiler.effectiveSteps
  dsimp only
  rw [h.steps _ declared, Option.getD_some, if_pos (List.ne_nil_of_mem listed)]
  exact listed

/-- **Declaration of a phase.** -/
theorem declarePhase {previous : Option String} (split : table.phases = done ++ phase :: rest)
    (declares : c.declarePhase phase previous = .ok (c', after)) :
    Laid table sensor (done ++ [phase]) sites c' bs joined ∧ phase.name ∉ done.map Phase.name ∧
      ∀ name ∈ after, name ∈ done.map Phase.name := by
  unfold TableCompiler.declarePhase at declares
  split_ifs at declares with taken
  dsimp only at declares
  split_ifs at declares with unknown
  simp only [bind_eq_ok, pure_eq_ok, Prod.mk.injEq] at declares
  obtain ⟨c₁, entries, rfl, rfl⟩ := declares
  obtain ⟨frame, -, keys, -, -⟩ := declareEntries_eq_ok entries
  rw [h.keys] at taken
  have names : (done ++ [phase]).map Phase.name = done.map Phase.name ++ [phase.name] := by simp
  have before (name : String) (follows : name ∈ TableCompiler.following phase previous) : name ∈ done.map Phase.name := by
    rw [← h.keys]
    by_contra absent
    apply unknown
    exact List.ne_nil_of_mem (List.mem_filter.2 ⟨follows, by simpa using absent⟩)
  have last := rank_next split taken
  refine ⟨?_, taken, before⟩
  rw [frame]
  dsimp only at keys
  refine ⟨h.whole, h.bound, ⟨rest, by simp [split]⟩, ?_, h.places, h.housed, fun s mem => ?_, ?_, fun name mem => ?_,
    fun name follows found other mem => ?_, fun name mem => ?_, h.entrySteps, fun id => ?_, h.soft, fun b mem clause asks => ?_⟩
  · exact ⟨h.emits.steps, h.emits.deps, h.emits.apart, h.emits.bounded⟩
  · rw [names]
    exact List.mem_append_left _ (h.owners s mem)
  · dsimp only
    rw [Dict.keys_insert (h.keys ▸ taken), h.keys, names]
  · dsimp only at mem
    rw [names, List.mem_append, List.mem_singleton]
    exact (Dict.mem_keys_insert.1 mem).symm.imp_left (h.after name)
  · dsimp only at found
    rw [Dict.get?_insert] at found
    rw [names]
    split_ifs at found with same
    · cases found
      rw [same, last]
      exact ⟨List.mem_append_left _ (before other mem), rank_lt split (before other mem)⟩
    · obtain ⟨declared, less⟩ := h.earlier name follows found other mem
      exact ⟨List.mem_append_left _ declared, less⟩
  · dsimp only
    rw [Dict.get?_insert]
    split_ifs with same
    · have none (b : Block) (mem : b ∈ bs) : decide (b.group = name) = false := by
        have other : b.group ≠ name := by
          intro eq
          rw [← same, ← eq] at taken
          exact taken (h.group_mem mem)
        simpa using other
      have empty : namesWhere ([] ++ bs) (·.group = name) = namesWhere [] (·.group = name) := namesWhere_append_of_none none
      rw [List.nil_append] at empty
      rw [empty]
      rfl
    · rw [names, List.mem_append, List.mem_singleton] at mem
      exact h.steps name (mem.resolve_right same)
  · rw [keys id, h.owned id]
    simp
  · rw [keys, names]
    rcases h.asked b mem clause asks with owned | declared
    · exact .inl (.inl owned)
    · exact .inr (List.mem_append_left _ declared)

/-- Inherited waits are for steps of earlier phases. -/
theorem of_softLinks {entry : Entry} {soft : List String}
    (before : ∀ name ∈ after, name ∈ done.map Phase.name ∧ table.rank name < table.rank phase.name)
    (links : c.softLinks entry after «where» = .ok soft) :
    (∀ n ∈ soft, ∃ b ∈ bs, n ∈ b.names ∧ table.rank b.group < table.rank phase.name) ∧
      ∀ clause ∈ entry.require, clause.name ∈ c.entryPhase.keys ∨ clause.name ∈ done.map Phase.name := by
  unfold TableCompiler.softLinks at links
  simp only [bind_eq_ok, pure_eq_ok] at links
  obtain ⟨required, declaring, rfl⟩ := links
  refine ⟨fun n mem => ?_, fun clause asks => ?_⟩
  · rw [List.mem_eraseDups] at mem
    obtain ⟨name, kept, mem⟩ := List.mem_flatMap.1 mem
    obtain ⟨declared, less⟩ := before name (List.mem_filter.1 kept).1
    obtain ⟨b, here, named, way⟩ := h.of_mem_effective _ name declared n mem
    refine ⟨b, here, named, ?_⟩
    rcases way with rfl | less'
    · exact less
    · omega
  · obtain ⟨owner, -, declares⟩ := exists_right_of_forall₂ (mapM_eq_ok.1 declaring) asks
    unfold TableCompiler.declaringPhase at declares
    split at declares
    · rename_i found
      exact .inl (Dict.mem_keys.2 ⟨_, found⟩)
    · split_ifs at declares with known
      exact .inr (h.after _ known)

/-- **Expansion of an entry.** -/
theorem compileEntry {heads heads' : TableCompiler.Heads} {entry : Entry} {targets : List Placement} {position : ℕ}
    (declared : phase.name ∈ done.map Phase.name)
    (before : ∀ name ∈ after, name ∈ done.map Phase.name ∧ table.rank name < table.rank phase.name)
    (selects : entry.targets sensor = .ok targets)
    (compiles : TableCompiler.compileEntry phase after «where» (c, heads) ((entry, targets), position) =
      .ok (c', heads')) :
    ∃ new joined' soft, Laid table sensor done (sites ++ [{ owner := phase.name, entry, position }]) c' (bs ++ new) joined' ∧
      Unjoined bs new joined joined' ∧ c.softLinks entry after «where» = .ok soft ∧
      BlocksOf entry targets soft phase.name [.name phase.name, entry.part position] phase.failFast new ∧
      (c'.phaseAfter = c.phaseAfter ∧ c'.entryPhase = c.entryPhase) ∧ heads' = heads ++ new.map Block.head := by
  unfold TableCompiler.compileEntry at compiles
  simp only [bind_eq_ok, pure_eq_ok] at compiles
  obtain ⟨soft, links, compiles⟩ := compiles
  have emission := h.emits.emitEntry entry targets soft phase.name [.name phase.name, entry.part position] phase.failFast
  generalize c.emitEntry entry targets soft phase.name [.name phase.name, entry.part position] phase.failFast = out
    at emission compiles
  obtain ⟨c₁, emitted⟩ := out
  obtain ⟨new, joined', unjoined, frame, of, places, steps, firsts, emits⟩ := emission
  cases compiles
  obtain ⟨inherits, knows⟩ := h.of_softLinks before links
  have names := names_of_blocks steps
  have inside {b : Block} (mem : b ∈ bs) : b ∈ bs ++ new := List.mem_append_left _ mem
  unfold Frame at frame
  refine ⟨new, joined', soft, ?_, unjoined, links, of, ?_, ?_⟩
  · rw [frame] at emits places
    rw [frame]
    refine ⟨h.whole, h.bound, h.split, ?_, places h.places, h.housed.snoc selects of, fun s mem => ?_, ?_, h.after, h.earlier,
      fun name mem => ?_, fun id => ?_, h.owned, fun b mem n soft' => ?_, fun b mem clause asks => ?_⟩
    · exact ⟨emits.steps, emits.deps, emits.apart, emits.bounded⟩
    · rcases mem_snoc.1 mem with mem | rfl
      · exact h.owners s mem
      · exact declared
    · dsimp only
      rw [Dict.keys_insert_of_mem (h.keys ▸ declared), h.keys]
    · dsimp only
      rw [Dict.get?_insert]
      split_ifs with same
      · subst same
        rw [h.steps _ declared, Option.getD_some, names, namesWhere_append fun b mem => by simpa using of.group b mem]
      · rw [h.steps name mem, namesWhere_append_of_none fun b mem => by simp [of.group b mem, Ne.symm same]]
    · dsimp only
      have absent (other : entry.id ≠ some id) : namesWhere (bs ++ new) (·.entry.id = some id) =
          namesWhere bs (·.entry.id = some id) :=
        namesWhere_append_of_none fun b mem => by simp [of.entry b mem, other]
      cases has : entry.id with
      | none =>
        rw [absent (by simp [has])]
        exact h.entrySteps id
      | some own =>
        dsimp only
        by_cases same : id = own
        · subst same
          rw [Dict.get?_insert_self, Option.getD_some, h.entrySteps id, names,
            namesWhere_append fun b mem => by simp [of.entry b mem, has]]
        · rw [Dict.get?_insert_of_ne same, h.entrySteps id, absent (by simp [has, Ne.symm same])]
    · rcases List.mem_append.1 mem with mem | mem
      · obtain ⟨b', here, rest⟩ := h.soft b mem n soft'
        exact ⟨b', inside here, rest⟩
      · rw [of.soft b mem] at soft'
        rw [of.group b mem]
        obtain ⟨b', here, rest⟩ := inherits n soft'
        exact ⟨b', inside here, rest⟩
    · rcases List.mem_append.1 mem with mem | mem
      · exact h.asked b mem clause asks
      · rw [of.entry b mem] at asks
        exact knows clause asks
  · rw [frame]
    exact ⟨rfl, rfl⟩
  · rw [firsts, List.map_map]
    congr 1
    refine List.map_congr_left fun b mem => ?_
    unfold Block.head
    rw [of.entry b mem]
    rfl

theorem relinks (relinks : Relinks c c') (emits : Emits c' c.steps bs joined') :
    Laid table sensor done sites c' bs joined' := by
  unfold Relinks at relinks
  rw [relinks] at emits ⊢
  exact { h with emits }

end

end Laid

theorem Unjoined.trans {more : List Block} {joined'' : String → List Dependency} (h : Unjoined bs new joined joined')
    (h' : Unjoined (bs ++ new) more joined' joined'') : Unjoined bs (new ++ more) joined joined'' := by
  refine ⟨fun n none => h'.still n (h.still n none), fun b mem => ?_, fun b mem => ?_⟩
  · rw [h'.old b (List.mem_append_left _ mem), h.old b mem]
  · rcases List.mem_append.1 mem with mem | mem
    · rw [h'.old b (List.mem_append_right _ mem), h.new b mem]
    · exact h'.new b mem

theorem Apart.notMem (h : Apart (bs ++ new)) (mem : b ∈ bs) : b ∉ new := by
  intro mem'
  have less := (List.pairwise_append.1 h).2.2 b mem b mem'
  have := b.first_lt_last
  omega

theorem sites_zip (length : chosen.length = entries.length)
    (lead : List PathPart) (owner : String) :
    ((entries.zip chosen).zipIdx.map fun turn => ({ lead, owner, entry := turn.1.1, position := turn.2 } : Site)) =
      entries.zipIdx.map fun turn => { lead, owner, entry := turn.1, position := turn.2 } := by
  have first : (entries.zip chosen).map Prod.fst = entries := List.map_fst_zip length.ge
  conv_rhs => rw [← first, List.zipIdx_map, List.map_map]
  rfl

theorem targets_zip (length : chosen.length = entries.length) :
    ((entries.zip chosen).zipIdx.flatMap fun turn => turn.1.2) = chosen.flatten := by
  have second : (entries.zip chosen).map Prod.snd = chosen := List.map_snd_zip length.le
  have turns : ((entries.zip chosen).zipIdx.map fun turn => turn.1.2) = chosen := by
    conv_rhs => rw [← second, ← List.zipIdx_map_fst 0 (entries.zip chosen), List.map_map]
    rfl
  rw [List.flatMap_def, turns]

/-- A placement that is reached is held by the entry that reached it first. -/
theorem held_of_reach {turns : List ((Entry × ℕ) × Placement)} {reached : Dict Placement (Entry × ℕ)}
    (loop : turns.foldlM (TableCompiler.reach «where») .empty = .ok reached) :
    ∀ turn ∈ turns, (reached.get? turn.2).map Prod.snd = some turn.1.2 := by
  refine foldlM_invariant_prefix (fun pre (reached : Dict Placement (Entry × ℕ)) =>
    ∀ turn ∈ pre, (reached.get? turn.2).map Prod.snd = some turn.1.2) loop (by simp) ?_
  intro pre next post held held' _ ih step turn mem
  unfold TableCompiler.reach at step
  cases found : held.get? next.2 with
  | none =>
    rw [found] at step
    cases step
    rcases mem_snoc.1 mem with before | rfl
    · have known := ih turn before
      have other : turn.2 ≠ next.2 := by
        intro same
        rw [same, found] at known
        simp at known
      rw [Dict.get?_insert_of_ne other]
      exact known
    · rw [Dict.get?_insert_self]
      rfl
  | some holder =>
    rw [found] at step
    dsimp only at step
    split_ifs at step with own
    cases step
    rcases mem_snoc.1 mem with before | rfl
    · exact ih turn before
    · rw [found, Option.map_some, own]

theorem targets_sublist {entry : Entry} {targets : List Placement} (selects : entry.targets sensor = .ok targets) :
    targets.Sublist sensor.topology.placements := by
  unfold Entry.targets at selects
  simp only [bind_eq_ok] at selects
  obtain ⟨matching, kept, selects⟩ := selects
  cases excludes : entry.exclude with
  | none =>
    rw [excludes] at selects
    obtain rfl := pure_eq_ok.1 selects
    exact keepM_sublist kept
  | some exclude =>
    rw [excludes] at selects
    exact (keepM_sublist selects).trans (keepM_sublist kept)

theorem placed_of_selects {p : Placement} {s : Site} (selects : s.Selects sensor p) : p ∈ sensor.topology.placements := by
  obtain ⟨targets, selects, mem⟩ := selects
  exact (targets_sublist selects).subset mem

/-- Placements are selected once each, and by one entry. -/
theorem nodup_of_selected
    (selects : TableCompiler.selected sensor entries «where» = .ok chosen) : chosen.flatten.Nodup := by
  have length := length_of_selected selects
  have each (position : ℕ) (lt : position < chosen.length) :
      (entries[position]).targets sensor = .ok chosen[position] :=
    targets_of_selected selects (List.getElem?_eq_getElem _) (List.getElem?_eq_getElem lt)
  unfold TableCompiler.selected at selects
  simp only [bind_eq_ok, pure_eq_ok] at selects
  obtain ⟨chosen, -, reached, loop, rfl⟩ := selects
  have held := held_of_reach loop
  refine List.nodup_flatten.2 ⟨fun targets mem => ?_, List.pairwise_iff_getElem.2 fun i j lt lt' less p here there => ?_⟩
  · obtain ⟨position, lt, rfl⟩ := List.getElem_of_mem mem
    exact (targets_sublist (each position lt)).nodup sensor.topology.records.nodup
  · have turn (k : ℕ) (lt : k < chosen.length) (mem : p ∈ chosen[k]) :
        (reached.get? p).map Prod.snd = some k := by
      refine held ((entries[k], k), p) (List.mem_flatMap.2 ⟨((entries[k], k), chosen[k]), ?_, List.mem_map_of_mem mem⟩)
      refine List.mem_of_getElem? (i := k) (List.getElem?_zip_eq_some.2 ⟨?_, List.getElem?_eq_getElem lt⟩)
      rw [List.getElem?_zipIdx, List.getElem?_eq_getElem (length ▸ lt)]
      simp
    have same := (turn i lt here).symm.trans (turn j lt' there)
    simp only [Option.some.injEq] at same
    omega

/-- What the first steps of new blocks require is what their clauses ask for; what others require is as it was. -/
structure Resolves (c : TableCompiler) (bs new : List Block) (joined joined' : String → List Dependency) : Prop where
  old : ∀ b ∈ bs, ∀ dep, dep ∈ joined' (b.name 0) ↔ dep ∈ joined (b.name 0)
  new : ∀ b ∈ new, ∀ dep, dep ∈ joined' (b.name 0) ↔
    ∃ clause ∈ b.entry.require, dep ∈ links c clause (c.named clause) b.target

/-- Of the phases before the next one all is known. -/
structure Compiles (table : LifecycleWorkflow) (sensor : BoundSensor) (phase : Phase) (previous : Option String)
    (c : TableCompiler) (bs : List Block) : Prop where
  previous : previous = table.previous
  named : (table.more phase).Named
  compiled : Compiled table sensor c bs

/-- **Expansion of a phase.** -/
theorem Laid.compilePhase {previous : Option String} (h : Laid table sensor done sites c bs joined)
    (split : table.phases = done ++ phase :: rest) (compiles : c.compilePhase phase previous = .ok c') :
    ∃ new joined', Laid table sensor (done ++ [phase]) (sites ++ phase.sites) c' (bs ++ new) joined' ∧
      phase.name ∉ done.map Phase.name ∧ (∀ b ∈ new, b.group = phase.name) ∧ (new.map Block.target).Nodup ∧
      Resolves c' bs new joined joined' ∧
      (Compiles { table with phases := done } sensor phase previous c bs →
        Compiled (LifecycleWorkflow.more { table with phases := done } phase) sensor c' (bs ++ new)) := by
  unfold TableCompiler.compilePhase at compiles
  simp only [bind_eq_ok] at compiles
  obtain ⟨⟨c₁, after⟩, declares, chosen, selects, ⟨c₂, heads⟩, loop, resolves⟩ := compiles
  obtain ⟨laid, fresh, follows⟩ := h.declarePhase split declares
  have known := fun before : Compiles { table with phases := done } sensor phase previous c bs =>
    before.compiled.declarePhase h.keys h.owned before.named (before.previous ▸ declares)
  have last : (LifecycleWorkflow.more { table with phases := done } phase).phases.length = done.length + 1 := by
    simp [LifecycleWorkflow.more]
  dsimp only at selects loop resolves
  rw [laid.bound] at selects
  have declared : phase.name ∈ (done ++ [phase]).map Phase.name := by simp
  have before (name : String) (mem : name ∈ after) :
      name ∈ (done ++ [phase]).map Phase.name ∧ table.rank name < table.rank phase.name := by
    rw [rank_next split fresh, List.map_append]
    exact ⟨List.mem_append_left _ (follows name mem), rank_lt split (follows name mem)⟩
  have expanded := foldlM_invariant_prefix (fun pre (state : TableCompiler × TableCompiler.Heads) =>
    ∃ new joined', Laid table sensor (done ++ [phase])
      (sites ++ pre.map fun turn => { owner := phase.name, entry := turn.1.1, position := turn.2 })
      state.1 (bs ++ new) joined' ∧ Unjoined bs new joined joined' ∧ (∀ b ∈ new, b.group = phase.name) ∧
      new.map Block.target = pre.flatMap (fun turn => turn.1.2) ∧ state.2 = new.map Block.head ∧
      (Compiles { table with phases := done } sensor phase previous c bs →
        Compiled (LifecycleWorkflow.more { table with phases := done } phase) sensor state.1 (bs ++ new))) loop
    ⟨[], joined, by simpa using laid, ⟨fun _ => id, fun _ _ => rfl, by simp⟩, by simp, rfl, rfl,
      fun before => by simpa using (known before).1⟩ ?_
  · obtain ⟨new, joined', laid', unjoined, group, targets, firsts, compiled⟩ := expanded
    dsimp only at laid' firsts
    have whole := sites_zip (length_of_selected selects) [] phase.name
    rw [whole] at laid'
    rw [firsts] at resolves
    have fixed (c' : TableCompiler) (relinks : Relinks c₂ c') (clause : Join) : c'.named clause = c₂.named clause :=
      relinks.named
    unfold TableCompiler.resolveRequires at resolves
    obtain ⟨relinks, joined'', emits, linked⟩ := laid'.emits.joins (fun b => List.mem_append_right _) fixed resolves
    refine ⟨new, joined'', laid'.relinks relinks emits, fresh, group, ?_, ⟨fun b mem dep => ?_, fun b mem dep => ?_⟩,
      fun before => (compiled before).same (by rw [relinks]) (by rw [relinks])⟩
    · have second : ((phase.entries.zip chosen).zipIdx.flatMap fun turn => turn.1.2) = chosen.flatten := by
        rw [← targets_zip (length_of_selected selects)]
      rw [targets, second]
      exact nodup_of_selected selects
    · rw [linked b (List.mem_append_left _ mem), unjoined.old b mem]
      have old := laid'.emits.apart.notMem mem
      simp [old]
    · rw [linked b (List.mem_append_right _ mem), unjoined.new b mem]
      simp only [List.not_mem_nil, mem, true_and, false_or, links, relinks.narrowed, relinks.named]
  · rintro pre ⟨⟨entry, targets⟩, position⟩ post ⟨c₃, heads₃⟩ ⟨c₄, heads₄⟩ eq ⟨new, joined', laid, unjoined, group, chosen', firsts,
      compiled⟩ turn
    have listed : ((entry, targets), position) ∈ (phase.entries.zip chosen).zipIdx := by simp [eq]
    obtain ⟨here, there⟩ := List.getElem?_zip_eq_some.1 (List.mk_mem_zipIdx_iff_getElem?.1 listed)
    have own := targets_of_selected selects here there
    obtain ⟨more, joined'', soft, laid', unjoined', links, of, ⟨after', owners⟩, heads⟩ :=
      laid.compileEntry declared before own turn
    refine ⟨new ++ more, joined'', ?_, unjoined.trans unjoined', fun b mem => ?_, ?_, ?_, fun sure => ?_⟩
    · rw [List.map_append, ← List.append_assoc, ← List.append_assoc]
      exact laid'
    · exact (List.mem_append.1 mem).elim (group b) (of.group b)
    · rw [List.map_append, chosen', of.targets, List.flatMap_append]
      simp
    · dsimp only at firsts ⊢
      rw [heads, firsts, List.map_append]
    · obtain rfl := (known sure).2
      rw [← List.append_assoc]
      apply ((compiled sure).expand (fun phase' mem => ?_) laid.keys getElem?_more_last last here own links of).same
        after' owners
      exact laid.steps _ (List.mem_map_of_mem mem)

/-! ## All phases -/

/-- What a first step requires is of an earlier phase, or asked for by a clause. -/
def Founded (table : LifecycleWorkflow) (bs : List Block) (joined : String → List Dependency) : Prop :=
  ∀ b ∈ bs, ∀ dep ∈ joined (b.name 0), ∃ b' ∈ bs, dep.on ∈ b'.names ∧
    (table.rank b'.group < table.rank b.group ∨ table.rank b'.group ≤ table.rank b.group ∧ b.Asks b')

/-- What clauses ask for is required. -/
def Answered (bs : List Block) (joined : String → List Dependency) : Prop :=
  ∀ b ∈ bs, ∀ b' ∈ bs, b.Asks b' → ∃ dep ∈ joined (b.name 0), dep.on ∈ b'.names

theorem Laid.rank_le (h : Laid table sensor (done ++ [phase]) sites c bs joined) (fresh : phase.name ∉ done.map Phase.name)
    (mem : name ∈ (done ++ [phase]).map Phase.name) : table.rank name ≤ table.rank phase.name := by
  obtain ⟨rest, split⟩ := h.split
  have less := rank_lt split mem
  rw [List.append_assoc, List.singleton_append] at split
  rw [rank_next split fresh]
  simp only [List.length_append, List.length_singleton] at less
  omega

theorem Founded.step (h : Founded table bs joined)
    (laid : Laid table sensor (done ++ [phase]) sites c (bs ++ new) joined') (fresh : phase.name ∉ done.map Phase.name)
    (group : ∀ b ∈ new, b.group = phase.name) (resolves : Resolves c bs new joined joined') :
    Founded table (bs ++ new) joined' := by
  intro b mem dep listed
  rcases List.mem_append.1 mem with old | added
  · obtain ⟨b', here, rest⟩ := h b old dep ((resolves.old b old dep).1 listed)
    exact ⟨b', List.mem_append_left _ here, rest⟩
  · obtain ⟨clause, asks, linked⟩ := (resolves.new b added dep).1 listed
    obtain ⟨n, narrowed, rfl⟩ := List.mem_map.1 linked
    have related {b' : Block} (here : b' ∈ bs ++ new) (named : n ∈ b'.names) : clause.Relates b.target b'.target := by
      obtain ⟨k, lt, rfl⟩ := Block.mem_names.1 named
      exact ((mem_narrowed laid.places here lt).1 narrowed).2
    have bounded {b' : Block} (here : b' ∈ bs ++ new) : table.rank b'.group ≤ table.rank b.group := by
      rw [group b added]
      exact laid.rank_le fresh (laid.group_mem here)
    have listed := narrowed_subset narrowed
    unfold TableCompiler.named at listed
    split_ifs at listed with owned
    · rw [laid.entrySteps] at listed
      obtain ⟨b', here, id, named⟩ := mem_namesWhere.1 listed
      exact ⟨b', here, named, .inr ⟨bounded here, clause, asks, .inl (by simpa using id), related here named⟩⟩
    · have declared := (laid.asked b mem clause asks).resolve_left owned
      obtain ⟨b', here, named, way⟩ := laid.of_mem_effective _ clause.name declared n listed
      refine ⟨b', here, named, way.symm.imp (fun less => ?_) fun same => ?_⟩
      · rw [group b added]
        exact Nat.lt_of_lt_of_le less (laid.rank_le fresh declared)
      · exact ⟨bounded here, clause, asks, .inr same, related here named⟩

/-- The id of a block's entry is one of the phases expanded. -/
theorem Laid.id_mem (h : Laid table sensor done (done.flatMap Phase.sites) c bs joined) (mem : b ∈ bs) {id : String}
    (has : b.entry.id = some id) : ∃ phase ∈ done, phase.name = b.group ∧ id ∈ phase.entries.filterMap Entry.id := by
  obtain ⟨s, listed, of⟩ := h.housed.blocks b mem
  obtain ⟨phase, mem', here⟩ := List.mem_flatMap.1 listed
  refine ⟨phase, mem', ?_, ?_⟩
  · rw [of.group, Phase.owner_of_mem here]
  · obtain ⟨⟨entry, position⟩, there, rfl⟩ := List.mem_map.1 here
    rw [of.runs] at has
    exact List.mem_filterMap.2 ⟨entry, List.fst_mem_of_mem_zipIdx there, has⟩

theorem mem_ids_of_phase {phases : List Phase} {id : String} (mem : phase ∈ phases)
    (has : id ∈ phase.entries.filterMap Entry.id) : id ∈ (phases.flatMap Phase.entries).filterMap Entry.id := by
  rw [List.filterMap_flatMap]
  exact List.mem_flatMap.2 ⟨phase, mem, has⟩

theorem Answered.step (checked : Checked table) (h : Answered bs joined)
    (before : Laid table sensor done (done.flatMap Phase.sites) c bs joined) (split : table.phases = done ++ phase :: rest)
    (laid : Laid table sensor (done ++ [phase]) ((done ++ [phase]).flatMap Phase.sites) c' (bs ++ new) joined')
    (fresh : phase.name ∉ done.map Phase.name) (group : ∀ b ∈ new, b.group = phase.name)
    (resolves : Resolves c' bs new joined joined') : Answered (bs ++ new) joined' := by
  have inTable {phase' : Phase} (mem : phase' ∈ done ++ [phase]) : phase' ∈ table.phases := by
    rw [split]
    rw [List.mem_append, List.mem_singleton] at mem
    rcases mem with mem | rfl
    · exact List.mem_append_left _ mem
    · simp
  have apart (name : String) (declared : name ∈ (done ++ [phase]).map Phase.name)
      (owned : name ∈ ((done ++ [phase]).flatMap Phase.entries).filterMap Entry.id) : False := by
    obtain ⟨phase', mem, rfl⟩ := List.mem_map.1 declared
    refine checked.apart _ (List.mem_map_of_mem (inTable mem)) ?_
    rw [split, ← List.singleton_append, ← List.append_assoc, List.flatMap_append, List.filterMap_append]
    exact List.mem_append_left _ owned
  intro b mem b' mem' asks
  rcases List.mem_append.1 mem with old | added
  · rcases List.mem_append.1 mem' with old' | added'
    · obtain ⟨dep, listed, named⟩ := h b old b' old' asks
      exact ⟨dep, (resolves.old b old dep).2 listed, named⟩
    · -- A clause names no later phase, and no entry of one.
      exfalso
      obtain ⟨clause, asked, names, -⟩ := asks
      have known := before.asked b old clause asked
      rw [before.owned] at known
      rcases names with has | same
      · obtain ⟨phase', mem₁, called, own⟩ := laid.id_mem mem' has
        rcases known with owned | declared
        · rw [group b' added'] at called
          have last : phase' = phase := by
            rcases List.mem_append.1 mem₁ with earlier | last
            · exact absurd (List.mem_map_of_mem (f := Phase.name) earlier) (called ▸ fresh)
            · exact List.mem_singleton.1 last
          have ids := checked.ids
          rw [split, List.flatMap_append, List.filterMap_append, List.flatMap_cons, List.filterMap_append] at ids
          exact (List.nodup_append.1 ids).2.2 _ owned _ (List.mem_append_left _ (last ▸ own)) rfl
        · exact apart _ (by simpa using .inl (List.mem_map.1 declared)) (mem_ids_of_phase mem₁ own)
      · rw [group b' added'] at same
        rcases known with owned | declared
        · refine apart phase.name (by simp) ?_
          rw [same, List.flatMap_append, List.filterMap_append]
          exact List.mem_append_left _ owned
        · exact fresh (same ▸ declared)
  · obtain ⟨clause, asked, names, related⟩ := asks
    refine ⟨{ on := b'.name 0, kind := clause.on }, (resolves.new b added _).2 ⟨clause, asked, ?_⟩, Block.first_mem_names⟩
    refine List.mem_map.2 ⟨b'.name 0, (mem_narrowed laid.places mem' b'.ops_pos).2 ⟨?_, related⟩, rfl⟩
    unfold TableCompiler.named
    rcases names with has | same
    · obtain ⟨phase', mem₁, -, own⟩ := laid.id_mem mem' has
      rw [if_pos ((laid.owned _).2 (mem_ids_of_phase mem₁ own)), laid.entrySteps]
      exact mem_namesWhere.2 ⟨b', mem', by simpa using has, Block.first_mem_names⟩
    · have declared := laid.group_mem mem'
      rw [same] at declared
      rw [if_neg fun owned => apart _ declared ((laid.owned _).1 owned), ← same]
      exact laid.effective_of_group mem' Block.first_mem_names

/-- A placement has one block in a phase. -/
def Spread (bs : List Block) : Prop :=
  bs.Pairwise fun b b' => b.group = b'.group → b.target ≠ b'.target

theorem Spread.step (h : Spread bs) (laid : Laid table sensor done sites c bs joined)
    (fresh : phase.name ∉ done.map Phase.name) (group : ∀ b ∈ new, b.group = phase.name)
    (once : (new.map Block.target).Nodup) : Spread (bs ++ new) := by
  have added : Spread new := by
    unfold Spread
    exact (List.pairwise_map.1 once).imp fun {b b'} (other : b.target ≠ b'.target) _ => other
  refine List.pairwise_append.2 ⟨h, added, fun b mem b' mem' same => ?_⟩
  rw [group b' mem'] at same
  exact absurd (same ▸ laid.group_mem mem) fresh

/-- No step is required of the first step of an entry without clauses. -/
def Unasked (bs : List Block) (joined : String → List Dependency) : Prop :=
  ∀ b ∈ bs, b.entry.require = [] → joined (b.name 0) = []

theorem Unasked.step (h : Unasked bs joined) (resolves : Resolves c bs new joined joined') : Unasked (bs ++ new) joined' := by
  intro b mem none
  apply List.eq_nil_iff_forall_not_mem.2
  intro dep listed
  rcases List.mem_append.1 mem with mem | mem
  · rw [resolves.old b mem, h b mem none] at listed
    exact List.not_mem_nil listed
  · obtain ⟨clause, asks, -⟩ := (resolves.new b mem dep).1 listed
    rw [none] at asks
    exact List.not_mem_nil asks

/-- **What the phases of a table are expanded to.** -/
theorem laid_of_compilePhases (compiles : TableCompiler.compilePhases { table, sensor } = .ok c) :
    ∃ bs joined, Laid table sensor table.phases table.sites c bs joined ∧ Founded table bs joined ∧
      (Checked table → Answered bs joined) ∧ Spread bs ∧ Unasked bs joined ∧ (table.Named → Compiled table sensor c bs) := by
  unfold TableCompiler.compilePhases at compiles
  simp only [bind_eq_ok, pure_eq_ok] at compiles
  obtain ⟨⟨c, previous⟩, loop, rfl⟩ := compiles
  have expanded := foldlM_invariant_prefix (fun done (state : TableCompiler × Option String) =>
    state.2 = LifecycleWorkflow.previous { table with phases := done } ∧ ∃ bs joined,
    Laid table sensor done (done.flatMap Phase.sites) state.1 bs joined ∧ Founded table bs joined ∧
      (Checked table → Answered bs joined) ∧ Spread bs ∧ Unasked bs joined ∧
      (table.Named → Compiled { table with phases := done } sensor state.1 bs)) loop ?_ ?_
  · exact expanded.2
  · refine ⟨rfl, [], fun _ => [], .start, by simp [Founded], fun _ => by simp [Answered], .nil, by simp [Unasked], fun _ => ?_⟩
    exact ⟨⟨by simp, by simp⟩, by simp, fun id name found => by simp at found, by simp, by simp⟩
  · rintro done phase rest ⟨c₁, previous₁⟩ ⟨c₂, previous₂⟩ split
      ⟨rfl, bs, joined, laid, founded, answered, spread, unasked, compiled⟩ turn
    simp only [bind_eq_ok, pure_eq_ok] at turn
    obtain ⟨c₃, compiles, eq⟩ := turn
    cases eq
    dsimp only at split laid
    obtain ⟨new, joined', laid', fresh, group, once, resolves, expands⟩ := laid.compilePhase split compiles
    have sites : done.flatMap Phase.sites ++ phase.sites = (done ++ [phase]).flatMap Phase.sites := by simp
    rw [sites] at laid'
    have more : table.phases = (LifecycleWorkflow.more { table with phases := done } phase).phases ++ rest := by
      rw [split, LifecycleWorkflow.more, List.append_assoc, List.singleton_append]
    refine ⟨by simp [LifecycleWorkflow.previous], bs ++ new, joined', laid', founded.step laid' fresh group resolves,
      fun checked => (answered checked).step checked laid split laid' fresh group resolves, spread.step laid fresh group once,
      unasked.step resolves, fun named => expands ⟨rfl, named.left more, compiled named⟩⟩

end Laid

end SensorKit.Sensor
