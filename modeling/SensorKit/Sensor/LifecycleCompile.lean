import SensorKit.Sensor.LifecycleBlocks

/-!
# What a compiled table waits for

An entry inherits waits for the phases that its phase follows, but for those that its clauses name. A phase
without entries stands for the phases that it follows. The compiler expands the phases one by one; the first
steps of an entry wait for all the steps of the phases that it waits for.
-/

namespace SensorKit.Sensor

open Lib Common

/-! ## Waits -/

/-- A phase that has entries stands for itself, one that has none for what the phases stand for that it follows. -/
inductive StandsFor (table : LifecycleWorkflow) : String → Phase → Prop where
  | itself {phase : Phase} : phase ∈ table.phases → phase.entries ≠ [] → StandsFor table phase.name phase
  | through {i : ℕ} {phase other : Phase} {followed : String} : table.phases[i]? = some phase → phase.entries = [] →
      followed ∈ table.follows i → StandsFor table followed other → StandsFor table phase.name other

/-- A clause of the entry names the phase, or an entry of it. -/
def Entry.Names (table : LifecycleWorkflow) (entry : Entry) (name : String) : Prop :=
  ∃ clause ∈ entry.require, clause.name = name ∨
    ∃ phase ∈ table.phases, phase.name = name ∧ ∃ e ∈ phase.entries, e.id = some clause.name

/-- An entry of a phase waits for each phase that the phase followed stands for, unless a clause names that one. -/
def WaitsFor (table : LifecycleWorkflow) (i : ℕ) (entry : Entry) (other : Phase) : Prop :=
  ∃ followed ∈ table.follows i, ¬ entry.Names table followed ∧ StandsFor table followed other

/-- No phase that follows the phase before it comes right behind one with an empty name. -/
def LifecycleWorkflow.Named (table : LifecycleWorkflow) : Prop :=
  ∀ i previous phase, table.phases[i]? = some previous → table.phases[i + 1]? = some phase → phase.after = none →
    previous.name ≠ ""

theorem LifecycleWorkflow.Named.left {table first : LifecycleWorkflow} {rest : List Phase} (named : table.Named)
    (split : table.phases = first.phases ++ rest) : first.Named := by
  intro i previous phase at_ at' after
  apply named i previous phase ?_ ?_ after
  · rw [split, List.getElem?_append_left (List.getElem?_eq_some_iff.1 at_).1, at_]
  · rw [split, List.getElem?_append_left (List.getElem?_eq_some_iff.1 at').1, at']

/-- The table with one more phase. -/
def LifecycleWorkflow.more (table : LifecycleWorkflow) (phase : Phase) : LifecycleWorkflow :=
  { table with phases := table.phases ++ [phase] }

section More

variable {table : LifecycleWorkflow} {phase other : Phase} {name : String} {i j : ℕ}

theorem getElem?_more (phase : Phase) (lt : i < table.phases.length) : (table.more phase).phases[i]? = table.phases[i]? :=
  List.getElem?_append_left lt

theorem getElem?_more_last : (table.more phase).phases[table.phases.length]? = some phase := by
  simp [LifecycleWorkflow.more]

theorem follows_more (lt : i < table.phases.length) : (table.more phase).follows i = table.follows i := by
  have before : i - 1 < table.phases.length := by omega
  unfold LifecycleWorkflow.follows
  rw [getElem?_more _ lt, getElem?_more _ before]

/-- The phases of a table follow earlier ones. -/
structure LifecycleWorkflow.Ordered (table : LifecycleWorkflow) : Prop where
  names : (table.phases.map Phase.name).Nodup
  earlier : ∀ i < table.phases.length, ∀ name ∈ table.follows i, ∃ j < i, ∃ phase, table.phases[j]? = some phase ∧
    phase.name = name

theorem LifecycleWorkflow.Ordered.index_inj (ordered : table.Ordered) (here : table.phases[i]? = some phase)
    (there : table.phases[j]? = some other) (same : phase.name = other.name) : i = j := by
  have bound : i < (table.phases.map Phase.name).length := by
    rw [List.length_map]
    exact (List.getElem?_eq_some_iff.1 here).1
  apply (List.getElem?_inj bound ordered.names).1
  rw [List.getElem?_map, List.getElem?_map, here, there, Option.map_some, Option.map_some, same]

/-- What a phase stands for does not come after it. -/
theorem StandsFor.index (h : StandsFor table name other) (ordered : table.Ordered) :
    ∀ (i : ℕ) (phase : Phase), table.phases[i]? = some phase → phase.name = name → ∃ j ≤ i, table.phases[j]? = some other := by
  induction h with
  | @itself phase' mem inhabited =>
    intro i phase here same
    obtain ⟨j, bound, eq⟩ := List.getElem_of_mem mem
    have there : table.phases[j]? = some phase' := by rw [List.getElem?_eq_getElem bound, eq]
    obtain rfl := ordered.index_inj here there same
    exact ⟨i, Nat.le_refl i, there⟩
  | @through j phase' other followed here' empty follows rest ih =>
    intro i phase here same
    obtain rfl := ordered.index_inj here here' same
    have bound := (List.getElem?_eq_some_iff.1 here).1
    obtain ⟨k, lt, phase'', there, named⟩ := ordered.earlier i bound followed follows
    obtain ⟨j, le, at_⟩ := ih k phase'' there named
    exact ⟨j, by omega, at_⟩

/-- The phases for which an entry waits come before its own. -/
theorem WaitsFor.index {entry : Entry} (h : WaitsFor table i entry other) (ordered : table.Ordered)
    (bound : i < table.phases.length) : ∃ j < i, table.phases[j]? = some other := by
  obtain ⟨followed, follows, -, stands⟩ := h
  obtain ⟨j, lt, phase, here, named⟩ := ordered.earlier i bound followed follows
  obtain ⟨k, le, at_⟩ := stands.index ordered j phase here named
  exact ⟨k, by omega, at_⟩

/-- A later phase does not change what an earlier one stands for. -/
theorem StandsFor.fewer (h : StandsFor (table.more phase) name other) (ordered : (table.more phase).Ordered) :
    ∀ i < table.phases.length, ∀ phase' : Phase, table.phases[i]? = some phase' → phase'.name = name →
      StandsFor table name other := by
  induction h with
  | @itself other mem inhabited =>
    intro i bound phase' here same
    obtain ⟨j, bound', eq⟩ := List.getElem_of_mem mem
    have there : (table.more phase).phases[j]? = some other := by rw [List.getElem?_eq_getElem bound', eq]
    rw [← getElem?_more phase bound] at here
    obtain rfl := ordered.index_inj here there same
    rw [getElem?_more _ bound] at there
    exact .itself (List.mem_of_getElem? there) inhabited
  | @through j phase'' other followed there empty follows rest ih =>
    intro i bound phase' here same
    rw [← getElem?_more phase bound] at here
    obtain rfl := ordered.index_inj here there same
    obtain ⟨k, lt, phase₃, at_, named⟩ :=
      ordered.earlier i (List.getElem?_eq_some_iff.1 there).1 followed follows
    have bound' : k < table.phases.length := by omega
    rw [getElem?_more _ bound'] at at_
    rw [getElem?_more _ bound] at there
    rw [follows_more bound] at follows
    exact .through there empty follows (ih k bound' phase₃ at_ named)

/-- A later phase does not change for what an entry waits, but that a clause may come to name more. -/
theorem WaitsFor.fewer {entry : Entry} (h : WaitsFor (table.more phase) i entry other)
    (ordered : (table.more phase).Ordered) (bound : i < table.phases.length) : WaitsFor table i entry other := by
  obtain ⟨followed, follows, unnamed, stands⟩ := h
  have more : i < (table.more phase).phases.length := by
    simp only [LifecycleWorkflow.more, List.length_append]
    omega
  obtain ⟨j, lt, phase', here, named⟩ := ordered.earlier i more followed follows
  have bound' : j < table.phases.length := by omega
  rw [getElem?_more _ bound'] at here
  rw [follows_more bound] at follows
  refine ⟨followed, follows, ?_, stands.fewer ordered j bound' phase' here named⟩
  rintro ⟨clause, listed, names⟩
  apply unnamed
  refine ⟨clause, listed, names.imp_right ?_⟩
  rintro ⟨phase'', mem, rest⟩
  exact ⟨phase'', List.mem_append_left _ mem, rest⟩

end More

/-! ## Compiled phases -/

/-- The block is one of an entry of the phase. -/
structure Block.At (sensor : BoundSensor) (phase : Phase) (position : ℕ) (entry : Entry) (b : Block) : Prop where
  here : phase.entries[position]? = some entry
  runs : b.entry = entry
  group : b.group = phase.name
  origin : b.origin = [.name phase.name, entry.part position]
  stated : b.stated = phase.failFast
  target : ∃ targets, entry.targets sensor = .ok targets ∧ b.target ∈ targets

/-- What the compiler knows of the phases of the table, and what the blocks of their entries inherit. -/
structure Compiled (table : LifecycleWorkflow) (sensor : BoundSensor) (c : TableCompiler) (bs : List Block) : Prop where
  ordered : table.Ordered
  after : ∀ i phase, table.phases[i]? = some phase → c.phaseAfter.get? phase.name = some (table.follows i)
  owner : ∀ id name, c.entryPhase.get? id = some name →
    ∃ phase ∈ table.phases, phase.name = name ∧ ∃ entry ∈ phase.entries, entry.id = some id
  ids : ((table.phases.flatMap Phase.entries).filterMap Entry.id).Nodup
  blocks : ∀ b ∈ bs, ∃ i phase position entry, table.phases[i]? = some phase ∧ b.At sensor phase position entry ∧
    ∀ other, WaitsFor table i entry other → ∀ b' ∈ bs, b'.group = other.name → ∀ n ∈ b'.names, n ∈ b.soft

section Compiled

variable {table : LifecycleWorkflow} {sensor : BoundSensor} {c c' : TableCompiler} {bs : List Block}
  {phase other : Phase} {name «where» : String} {i j : ℕ}
  {entries : List Entry}

namespace Compiled

section

variable (h : Compiled table sensor c bs)
include h

theorem same (after : c'.phaseAfter = c.phaseAfter) (owners : c'.entryPhase = c.entryPhase) :
    Compiled table sensor c' bs :=
  ⟨h.ordered, by rw [after]; exact h.after, by rw [owners]; exact h.owner, h.ids, h.blocks⟩

variable (steps : ∀ phase ∈ table.phases, c.phaseSteps.get? phase.name = some (namesWhere bs (·.group = phase.name)))
include steps

/-- The steps that stand for a phase are those of what the phase stands for. -/
theorem mem_effectiveSteps {b : Block} (mem : b ∈ bs) {n : String} (named : n ∈ b.names)
    (stands : StandsFor table name other) (group : b.group = other.name) :
    ∀ (i fuel : ℕ) (phase : Phase), i < fuel → table.phases[i]? = some phase → phase.name = name →
      n ∈ c.effectiveSteps fuel name := by
  induction stands with
  | @itself other mem' _ =>
    intro i fuel phase lt _ _
    obtain ⟨fuel, rfl⟩ : ∃ k, fuel = k + 1 := ⟨fuel - 1, by omega⟩
    have listed : n ∈ namesWhere bs (·.group = other.name) := mem_namesWhere.2 ⟨b, mem, by simpa using group, named⟩
    unfold TableCompiler.effectiveSteps
    rw [steps other mem', Option.getD_some, if_pos (List.ne_nil_of_mem listed)]
    exact listed
  | @through k phase' other followed there empty follows rest ih =>
    intro i fuel phase lt here same
    obtain ⟨fuel, rfl⟩ : ∃ k, fuel = k + 1 := ⟨fuel - 1, by omega⟩
    obtain rfl := h.ordered.index_inj here there same
    obtain ⟨k, before, earlier, at_, called⟩ :=
      h.ordered.earlier i (List.getElem?_eq_some_iff.1 here).1 followed follows
    -- A phase without entries has no block.
    have none : namesWhere bs (·.group = phase'.name) = [] := by
      refine List.eq_nil_iff_forall_not_mem.2 fun n listed => ?_
      obtain ⟨b', mem', group', -⟩ := mem_namesWhere.1 listed
      obtain ⟨j, phase₂, position, entry, at₂, block, -⟩ := h.blocks b' mem'
      rw [block.group] at group'
      obtain rfl := h.ordered.index_inj at₂ there (by simpa using group')
      cases at₂.symm.trans there
      have entries := block.here
      simp [empty] at entries
    unfold TableCompiler.effectiveSteps
    rw [steps phase' (List.mem_of_getElem? there), Option.getD_some, none, if_neg (by simp), h.after i phase' there,
      Option.getD_some]
    apply List.mem_eraseDups.2
    apply List.mem_flatMap.2
    exact ⟨followed, follows, ih group k fuel earlier (by omega) at_ called⟩

/-- **The inherited waits of an entry.** -/
theorem softLinks {entry : Entry} {soft : List String} (keys : c.phaseSteps.keys = table.phases.map Phase.name) (bound : i < table.phases.length)
    (links : c.softLinks entry (table.follows i) «where» = .ok soft) (waits : WaitsFor table i entry other)
    {b : Block} (mem : b ∈ bs) (group : b.group = other.name) {n : String} (named : n ∈ b.names) : n ∈ soft := by
  obtain ⟨followed, follows, unnamed, stands⟩ := waits
  unfold TableCompiler.softLinks at links
  simp only [bind_eq_ok, pure_eq_ok] at links
  obtain ⟨required, declaring, rfl⟩ := links
  have free : followed ∉ required := by
    intro mem
    obtain ⟨clause, listed, declares⟩ := exists_of_mem_mapM declaring mem
    apply unnamed
    refine ⟨clause, listed, ?_⟩
    unfold TableCompiler.declaringPhase at declares
    split at declares
    · rename_i owner found
      cases declares
      exact .inr (h.owner _ _ found)
    · split_ifs at declares
      exact .inl (Except.ok.inj declares)
  obtain ⟨k, lt, phase, here, called⟩ := h.ordered.earlier i bound followed follows
  apply List.mem_eraseDups.2
  apply List.mem_flatMap.2
  refine ⟨followed, List.mem_filter.2 ⟨follows, by simp [free]⟩, ?_⟩
  unfold TableCompiler.effective
  have fuel : k < c.phaseSteps.keys.length := by
    rw [keys, List.length_map]
    omega
  exact h.mem_effectiveSteps steps mem named stands group k _ phase fuel here called

end

end Compiled

/-! ## Declaration -/

/-- The entry ids of a phase are declared, each of them anew. -/
structure DeclaresIds (name : String) (entries : List Entry) (c c' : TableCompiler) : Prop where
  frame : c' = { c with entryPhase := c'.entryPhase }
  owner : ∀ id owner, c'.entryPhase.get? id = some owner →
    c.entryPhase.get? id = some owner ∨ owner = name ∧ ∃ entry ∈ entries, entry.id = some id
  keys : ∀ id, id ∈ c'.entryPhase.keys ↔ id ∈ c.entryPhase.keys ∨ id ∈ entries.filterMap Entry.id
  nodup : (entries.filterMap Entry.id).Nodup
  fresh : ∀ id ∈ entries.filterMap Entry.id, id ∉ c.entryPhase.keys

theorem declareEntries_eq_ok (h : entries.foldlM (TableCompiler.declareEntry name) c = .ok c') :
    DeclaresIds name entries c c' := by
  apply foldlM_invariant_prefix (fun done c' => DeclaresIds name done c c') h
  · exact ⟨rfl, fun _ _ => .inl, by simp, by simp, by simp⟩
  · intro done entry rest c₁ c₂ _ inv turn
    unfold TableCompiler.declareEntry at turn
    split at turn
    · rename_i unnamed
      cases turn
      have same : (done ++ [entry]).filterMap Entry.id = done.filterMap Entry.id := by simp [unnamed]
      refine ⟨inv.frame, fun id owner found => ?_, by rw [same]; exact inv.keys, by rw [same]; exact inv.nodup,
        by rw [same]; exact inv.fresh⟩
      refine (inv.owner id owner found).imp_right ?_
      rintro ⟨rfl, e, mem, has⟩
      exact ⟨rfl, e, List.mem_append_left _ mem, has⟩
    · rename_i id has
      split_ifs at turn with taken
      cases turn
      have more : (done ++ [entry]).filterMap Entry.id = done.filterMap Entry.id ++ [id] := by simp [has]
      have unlisted : id ∉ c.entryPhase.keys ∧ id ∉ done.filterMap Entry.id := by
        rw [inv.keys] at taken
        exact not_or.1 taken
      refine ⟨?_, fun id' owner found => ?_, fun id' => ?_, ?_, fun id' mem => ?_⟩
      · rw [inv.frame]
      · dsimp only at found
        rw [Dict.get?_insert] at found
        split_ifs at found with same
        · cases found
          exact .inr ⟨rfl, entry, by simp, by rw [has, same]⟩
        · refine (inv.owner id' owner found).imp_right ?_
          rintro ⟨rfl, e, mem, has⟩
          exact ⟨rfl, e, List.mem_append_left _ mem, has⟩
      · dsimp only
        rw [Dict.mem_keys_insert, inv.keys, more, List.mem_append, List.mem_singleton]
        tauto
      · rw [more]
        apply inv.nodup.append (List.nodup_singleton id)
        simpa using unlisted.2
      · rw [more, List.mem_append, List.mem_singleton] at mem
        rcases mem with mem | rfl
        · exact inv.fresh id' mem
        · exact unlisted.1

/-- The phase before the next one. -/
def LifecycleWorkflow.previous (table : LifecycleWorkflow) : Option String :=
  table.phases.getLast?.map Phase.name

theorem follows_last (named : (table.more phase).Named) :
    TableCompiler.following phase table.previous = (table.more phase).follows table.phases.length := by
  unfold TableCompiler.following
  unfold LifecycleWorkflow.follows LifecycleWorkflow.previous
  rw [getElem?_more_last, Option.bind_some]
  cases has : phase.after with
  | some after => rfl
  | none =>
    cases last : table.phases.getLast? with
    | none =>
      rw [List.getLast?_eq_none_iff.1 last]
      rfl
    | some before =>
      have bound : 0 < table.phases.length := by
        apply List.length_pos_of_ne_nil
        rintro empty
        simp [empty] at last
      rw [List.getLast?_eq_getElem?] at last
      have at_ : (table.more phase).phases[table.phases.length - 1]? = some before := by
        rw [getElem?_more _ (by omega), last]
      have next : (table.more phase).phases[table.phases.length - 1 + 1]? = some phase := by
        rw [Nat.sub_add_cancel bound]
        exact getElem?_more_last
      have inhabited := named _ before phase at_ next has
      simp [at_, inhabited, Nat.ne_of_gt bound]

/-- **Declaration of a phase.** It follows what the table says. -/
theorem Compiled.declarePhase {after : List String} (h : Compiled table sensor c bs)
    (listed : c.phaseSteps.keys = table.phases.map Phase.name)
    (owned : ∀ id, id ∈ c.entryPhase.keys ↔ id ∈ (table.phases.flatMap Phase.entries).filterMap Entry.id)
    (named : (table.more phase).Named) (declares : c.declarePhase phase table.previous = .ok (c', after)) :
    Compiled (table.more phase) sensor c' bs ∧ after = (table.more phase).follows table.phases.length := by
  unfold TableCompiler.declarePhase at declares
  split_ifs at declares with taken
  rw [follows_last named] at declares
  dsimp only at declares
  split_ifs at declares with unknown
  simp only [bind_eq_ok, pure_eq_ok, Prod.mk.injEq] at declares
  obtain ⟨c₁, entries, rfl, rfl⟩ := declares
  refine ⟨?_, rfl⟩
  obtain ⟨frame, owner, -, nodup, fresh⟩ := declareEntries_eq_ok entries
  dsimp only at frame owner fresh
  have length : (table.more phase).phases.length = table.phases.length + 1 := by simp [LifecycleWorkflow.more]
  have names : (table.more phase).phases.map Phase.name = table.phases.map Phase.name ++ [phase.name] := by
    simp [LifecycleWorkflow.more]
  have new : phase.name ∉ table.phases.map Phase.name := by rwa [← listed]
  have other {i : ℕ} {phase' : Phase} (at_ : table.phases[i]? = some phase') : phase'.name ≠ phase.name := by
    intro same
    exact new (same ▸ List.mem_map_of_mem (List.mem_of_getElem? at_))
  have split {i : ℕ} {phase' : Phase} (at_ : (table.more phase).phases[i]? = some phase') :
      table.phases[i]? = some phase' ∧ i < table.phases.length ∨ i = table.phases.length ∧ phase' = phase := by
    have bound := (List.getElem?_eq_some_iff.1 at_).1
    by_cases lt : i < table.phases.length
    · exact .inl ⟨by rwa [getElem?_more _ lt] at at_, lt⟩
    · obtain rfl : i = table.phases.length := by omega
      rw [getElem?_more_last] at at_
      exact .inr ⟨rfl, (Option.some.inj at_).symm⟩
  have ordered : (table.more phase).Ordered := by
    refine ⟨?_, fun i bound name follows => ?_⟩
    · rw [names]
      apply h.ordered.names.append (List.nodup_singleton _)
      simpa using new
    · by_cases lt : i < table.phases.length
      · rw [follows_more lt] at follows
        obtain ⟨j, before, phase', at_, called⟩ := h.ordered.earlier i lt name follows
        refine ⟨j, before, phase', ?_, called⟩
        rwa [getElem?_more _ (by omega)]
      · obtain rfl : i = table.phases.length := by omega
        have known : name ∈ c.phaseSteps.keys := by
          by_contra absent
          apply unknown
          exact List.ne_nil_of_mem (List.mem_filter.2 ⟨follows, by simpa using absent⟩)
        rw [listed] at known
        obtain ⟨phase', mem, called⟩ := List.mem_map.1 known
        obtain ⟨j, before, eq⟩ := List.getElem_of_mem mem
        refine ⟨j, before, phase', ?_, called⟩
        rw [getElem?_more _ before, List.getElem?_eq_getElem before, eq]
  rw [frame]
  refine ⟨ordered, fun i phase' at_ => ?_, fun id name found => ?_, ?_, fun b mem => ?_⟩
  · dsimp only
    rcases split at_ with ⟨at_, lt⟩ | ⟨rfl, rfl⟩
    · rw [Dict.get?_insert_of_ne (other at_), h.after i phase' at_, follows_more lt]
    · exact Dict.get?_insert_self
  · rcases owner id name found with found | ⟨rfl, entry, mem, has⟩
    · obtain ⟨phase', mem, rest⟩ := h.owner id name found
      exact ⟨phase', List.mem_append_left _ mem, rest⟩
    · exact ⟨phase, by simp [LifecycleWorkflow.more], rfl, entry, mem, has⟩
  · simp only [LifecycleWorkflow.more, List.flatMap_append, List.filterMap_append, List.flatMap_singleton]
    apply h.ids.append nodup
    intro id mem mem'
    exact fresh id mem' ((owned id).2 mem)
  · obtain ⟨i, phase', position, entry, at_, block, waits⟩ := h.blocks b mem
    have lt := (List.getElem?_eq_some_iff.1 at_).1
    refine ⟨i, phase', position, entry, by rwa [getElem?_more _ lt], block, fun other waiting => ?_⟩
    exact waits other (waiting.fewer ordered lt)

/-! ## Expansion -/

/-- **Expansion of an entry** of the last phase. -/
theorem Compiled.expand {position : ℕ} {entry : Entry} {targets : List Placement} {soft : List String} {new : List Block}
    (h : Compiled table sensor c bs)
    (steps : ∀ phase ∈ table.phases, c.phaseSteps.get? phase.name = some (namesWhere bs (·.group = phase.name)))
    (keys : c.phaseSteps.keys = table.phases.map Phase.name) (at_ : table.phases[i]? = some phase)
    (last : table.phases.length = i + 1) (here : phase.entries[position]? = some entry)
    (selects : entry.targets sensor = .ok targets)
    (links : c.softLinks entry (table.follows i) «where» = .ok soft)
    (of : BlocksOf entry targets soft phase.name [.name phase.name, entry.part position] phase.failFast new) :
    Compiled table sensor c (bs ++ new) := by
  have earlier {j : ℕ} {phase' : Phase} (lt : j < i) (at' : table.phases[j]? = some phase') :
      phase'.name ≠ phase.name := by
    intro same
    exact absurd (h.ordered.index_inj at' at_ same) (Nat.ne_of_lt lt)
  refine ⟨h.ordered, h.after, h.owner, h.ids, fun b mem => ?_⟩
  rcases List.mem_append.1 mem with mem | mem
  · obtain ⟨j, phase', position', entry', at', block, waits⟩ := h.blocks b mem
    refine ⟨j, phase', position', entry', at', block, fun other waiting b' mem' group => ?_⟩
    have bound := (List.getElem?_eq_some_iff.1 at').1
    obtain ⟨k, lt, there⟩ := waiting.index h.ordered bound
    rcases List.mem_append.1 mem' with mem' | mem'
    · exact waits other waiting b' mem' group
    · rw [of.group b' mem'] at group
      exact absurd group.symm (earlier (by omega) there)
  · have target : b.target ∈ targets := by
      rw [← of.targets]
      exact List.mem_map_of_mem mem
    refine ⟨i, phase, position, entry, at_,
      ⟨here, of.entry b mem, of.group b mem, of.origin b mem, of.stated b mem, targets, selects, target⟩,
      fun other waiting b' mem' group n named => ?_⟩
    obtain ⟨k, lt, there⟩ := waiting.index h.ordered (by omega)
    rw [of.soft b mem]
    rcases List.mem_append.1 mem' with mem' | mem'
    · exact h.softLinks steps keys (by omega) links waiting mem' group named
    · rw [of.group b' mem'] at group
      exact absurd group.symm (earlier lt there)

/-- The chosen targets are the entries' own. -/
theorem targets_of_selected {entry : Entry} {chosen : List (List Placement)}
    {targets : List Placement} {position : ℕ}
    (selects : TableCompiler.selected sensor entries «where» = .ok chosen) (here : entries[position]? = some entry)
    (there : chosen[position]? = some targets) : entry.targets sensor = .ok targets := by
  unfold TableCompiler.selected at selects
  simp only [bind_eq_ok, pure_eq_ok] at selects
  obtain ⟨chosen, traversed, -, -, rfl⟩ := selects
  obtain ⟨-, all⟩ := List.forall₂_iff_get.1 (mapM_eq_ok.1 traversed)
  obtain ⟨bound, rfl⟩ := List.getElem?_eq_some_iff.1 here
  obtain ⟨bound', rfl⟩ := List.getElem?_eq_some_iff.1 there
  have found := all position bound bound'
  unfold TableCompiler.targets at found
  simp only [bind_eq_ok] at found
  obtain ⟨ts, eq, found⟩ := found
  split_ifs at found
  obtain rfl := pure_eq_ok.1 found
  exact eq

theorem length_of_selected {chosen : List (List Placement)}
    (selects : TableCompiler.selected sensor entries «where» = .ok chosen) : chosen.length = entries.length := by
  unfold TableCompiler.selected at selects
  simp only [bind_eq_ok, pure_eq_ok] at selects
  obtain ⟨chosen, traversed, -, -, rfl⟩ := selects
  exact (mapM_eq_ok.1 traversed).length_eq.symm

end Compiled

end SensorKit.Sensor
