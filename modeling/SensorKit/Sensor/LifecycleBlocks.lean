import SensorKit.Lib.Numeral
import SensorKit.Sensor.Lifecycle

/-!
# What a table is expanded to

The steps that a table is expanded to come in blocks, one for each placement of each entry. The first step of a
block waits for the completion of the phases that its entry inherits and for what is required; any other follows
the step before it, and nothing else. Steps are numbered, so that their names are distinct.
-/

namespace SensorKit.Sensor

open Lib Common

/-! ## Names -/

/-- The name of a step. -/
def numbered (group device : String) (n : ℕ) : String :=
  group ++ "/" ++ device ++ "/" ++ toString n

/-- **A step's name says its number.** -/
theorem numbered_inj {group group' device device' : String} {n m : ℕ}
    (h : numbered group device n = numbered group' device' m) : n = m := by
  unfold numbered at h
  exact numeral_inj h

/-! ## Blocks -/

/-- The serial steps of an entry at a placement. -/
structure Block where
  group : String
  origin : List PathPart
  stated : Option Bool
  entry : Entry
  target : Placement
  /-- How many steps there are before. -/
  first : ℕ
  soft : List String

namespace Block

variable (b : Block)

def name (k : ℕ) : String :=
  numbered b.group b.target.device (b.first + k + 1)

/-- The step of a command, without its dependencies. -/
def plain (table : LifecycleWorkflow) (op : OpSpec × ℕ) : PlannedStep where
  name := b.name op.2
  origin := { source := table.name, path := b.origin ++ [.number op.2] }
  group := b.group
  target := some b.target
  command := some op.1.command
  optional := op.1.optional
  failFast := op.1.effectiveFailFast b.stated table.failFast
  unsupported := op.1.unsupported
  timeoutS := op.1.timeoutS

/-- What the step of a command depends on, where the requirements of first steps are given. -/
def deps (joined : String → List Dependency) (op : OpSpec × ℕ) : List Dependency :=
  match op.2 with
  | 0 => Dependency.completion b.soft ++ joined (b.name 0)
  | k + 1 => [{ on := b.name k, kind := op.1.sequence }]

def step (table : LifecycleWorkflow) (joined : String → List Dependency) (op : OpSpec × ℕ) : PlannedStep :=
  { b.plain table op with deps := b.deps joined op }

def steps (table : LifecycleWorkflow) (joined : String → List Dependency) : List PlannedStep :=
  b.entry.ops.zipIdx.map (b.step table joined)

def names : List String :=
  b.entry.ops.zipIdx.map fun op => b.name op.2

/-- How many steps there are after the block. -/
def last : ℕ :=
  b.first + b.entry.ops.length

theorem first_lt_last : b.first < b.last := by
  have := List.length_pos_of_ne_nil b.entry.declares_ops
  unfold last
  omega

theorem lt_of_mem {op : OpSpec × ℕ} (mem : op ∈ b.entry.ops.zipIdx) : op.2 < b.entry.ops.length := by
  have := List.snd_lt_of_mem_zipIdx mem
  omega

end Block

/-- Blocks that come one after the other. -/
abbrev Apart (bs : List Block) : Prop :=
  bs.Pairwise fun b b' => b.last ≤ b'.first

variable {c c' c'' : TableCompiler} {steps new : List PlannedStep} {bs : List Block} {b b' : Block}
  {joined : String → List Dependency}

/-- In blocks that come one after the other, a name is of one block, and of one command there. -/
theorem Apart.name_inj (h : Apart bs) (mem : b ∈ bs) (mem' : b' ∈ bs) {k k' : ℕ} (lt : k < b.entry.ops.length)
    (lt' : k' < b'.entry.ops.length) (same : b.name k = b'.name k') : b = b' ∧ k = k' := by
  have numbers := numbered_inj same
  have eq : b = b' := by
    by_contra other
    have either : b.last ≤ b'.first ∨ b'.last ≤ b.first := by
      let R (b b' : Block) : Prop := b.last ≤ b'.first ∨ b'.last ≤ b.first
      have symmetric : Std.Symm R := ⟨fun _ _ => Or.symm⟩
      have pairwise : bs.Pairwise R := h.imp .inl
      exact pairwise.forall mem mem' other
    unfold Block.last at either
    omega
  subst eq
  exact ⟨rfl, by omega⟩

/-! ## Emission -/

/-- Nothing but the emitted steps' own tables has changed. -/
def Frame (c c' : TableCompiler) : Prop :=
  c' = { c with deps := c'.deps, «where» := c'.where, emitted := c'.emitted }

theorem Frame.refl (c : TableCompiler) : Frame c c := rfl

theorem Frame.trans (h : Frame c c') (h' : Frame c' c'') : Frame c c'' := by
  unfold Frame at *
  rw [h', h]

/-- The steps are those of the blocks, and the compiler knows their dependencies. -/
structure Emits (c : TableCompiler) (steps : List PlannedStep) (bs : List Block) (joined : String → List Dependency) :
    Prop where
  steps : steps = bs.flatMap fun b => b.entry.ops.zipIdx.map (b.plain c.table)
  deps : ∀ b ∈ bs, ∀ op ∈ b.entry.ops.zipIdx, c.deps.get? (b.name op.2) = some (b.deps joined op)
  apart : Apart bs
  bounded : ∀ b ∈ bs, b.last ≤ c.emitted

/-- The steps with their dependencies. -/
theorem Emits.settled (h : Emits c steps bs joined) : c.settled steps = bs.flatMap (·.steps c.table joined) := by
  unfold TableCompiler.settled
  rw [h.steps, List.map_flatMap]
  refine List.flatMap_congr fun b mem => ?_
  unfold Block.steps
  rw [List.map_map]
  refine List.map_congr_left fun op here => ?_
  have deps : (c.deps.get? (b.plain c.table op).name).getD [] = b.deps joined op := by
    show (c.deps.get? (b.name op.2)).getD [] = b.deps joined op
    rw [h.deps b mem op here, Option.getD_some]
  show { b.plain c.table op with deps := (c.deps.get? (b.plain c.table op).name).getD [] } = b.step c.table joined op
  rw [deps]
  rfl

theorem Emits.left {bs' : List Block} (h : Emits c steps (bs ++ bs') joined)
    (eq : new = bs.flatMap fun b => b.entry.ops.zipIdx.map (b.plain c.table)) : Emits c new bs joined :=
  ⟨eq, fun b mem => h.deps b (List.mem_append_left _ mem), (List.pairwise_append.1 h.apart).1,
    fun b mem => h.bounded b (List.mem_append_left _ mem)⟩

/-- The compiler knows the placements of the steps. -/
def Places (c : TableCompiler) (bs : List Block) : Prop :=
  ∀ b ∈ bs, ∀ k < b.entry.ops.length, c.where.get? (b.name k) = some b.target

/-- What emitting commands at a placement does, for the block that they make up. -/
structure EmitsOps (c c' : TableCompiler) (b : Block) (ops : List OpSpec) (new : List PlannedStep) : Prop where
  frame : Frame c c'
  emitted : c'.emitted = c.emitted + ops.length
  steps : new = ops.zipIdx.map (b.plain c.table)
  others : ∀ name, (∀ k < ops.length, name ≠ b.name k) → c'.deps.get? name = c.deps.get? name
  deps : ∀ op ∈ ops.zipIdx, c'.deps.get? (b.name op.2) = some (b.deps (fun _ => []) op)
  elsewhere : ∀ name, (∀ k < ops.length, name ≠ b.name k) → c'.where.get? name = c.where.get? name
  places : ∀ k < ops.length, c'.where.get? (b.name k) = some b.target

/-- The serial commands of an entry at a placement, one by one. -/
theorem emitsOps_of_foldl (fresh : b.first = c.emitted) (ops : List OpSpec) :
    EmitsOps c (ops.zipIdx.foldl (TableCompiler.emitOp b.target b.soft b.group b.origin b.stated) (c, [])).1 b ops
      (ops.zipIdx.foldl (TableCompiler.emitOp b.target b.soft b.group b.origin b.stated) (c, [])).2 := by
  induction ops using List.reverseRecOn with
  | nil => exact ⟨.refl c, rfl, rfl, fun _ _ => rfl, by simp, fun _ _ => rfl, by simp⟩
  | append_singleton ops spec ih =>
    have indices : (ops ++ [spec]).zipIdx = ops.zipIdx ++ [(spec, ops.length)] := by simp [List.zipIdx_append]
    rw [indices, List.foldl_append, List.foldl_cons, List.foldl_nil]
    generalize ops.zipIdx.foldl (TableCompiler.emitOp b.target b.soft b.group b.origin b.stated) (c, []) = state at ih
    obtain ⟨c₁, steps⟩ := state
    obtain ⟨frame, emitted, steps_eq, others, deps, elsewhere, places⟩ := ih
    dsimp only at frame emitted steps_eq others deps elsewhere places
    have table : c₁.table = c.table := by rw [frame]
    have name : numbered b.group b.target.device (c₁.emitted + 1) = b.name ops.length := by
      unfold Block.name
      rw [emitted, fresh]
    -- The step follows the last one at the placement.
    have follows : TableCompiler.sequenced spec b.soft steps.getLast? = b.deps (fun _ => []) (spec, ops.length) := by
      rw [steps_eq]
      cases ops using List.reverseRecOn with
      | nil => simp [TableCompiler.sequenced, Block.deps]
      | append_singleton ops before => simp [TableCompiler.sequenced, List.zipIdx_append, Block.deps, Block.plain]
    have result : TableCompiler.emitOp b.target b.soft b.group b.origin b.stated (c₁, steps) (spec, ops.length) =
        ({ c₁ with
            deps := c₁.deps.insert (b.name ops.length) (b.deps (fun _ => []) (spec, ops.length))
            «where» := c₁.where.insert (b.name ops.length) b.target
            emitted := c₁.emitted + 1 },
          steps ++ [b.plain c.table (spec, ops.length)]) := by
      unfold TableCompiler.emitOp
      simp only [TableCompiler.step]
      rw [follows]
      unfold Block.plain
      rw [← name, table]
      rfl
    rw [result]
    refine ⟨?_, ?_, ?_, fun n other => ?_, fun op mem => ?_, fun n other => ?_, fun k lt => ?_⟩
    · exact frame.trans rfl
    · show c₁.emitted + 1 = _
      rw [emitted, List.length_append]
      rfl
    · rw [indices, List.map_append, ← steps_eq]
      rfl
    · have last : n ≠ b.name ops.length := other ops.length (by simp)
      show (c₁.deps.insert _ _).get? n = _
      rw [Dict.get?_insert_of_ne last]
      exact others n fun k lt => other k (by simp; omega)
    · rw [indices] at mem
      show (c₁.deps.insert _ _).get? _ = _
      rcases mem_snoc.1 mem with mem | rfl
      · have lt := List.snd_lt_of_mem_zipIdx mem
        have other : b.name op.2 ≠ b.name ops.length := by
          intro same
          have := numbered_inj same
          omega
        rw [Dict.get?_insert_of_ne other]
        exact deps op mem
      · exact Dict.get?_insert_self
    · have last : n ≠ b.name ops.length := other ops.length (by simp)
      show (c₁.where.insert _ _).get? n = _
      rw [Dict.get?_insert_of_ne last]
      exact elsewhere n fun k lt => other k (by simp; omega)
    · show (c₁.where.insert _ _).get? _ = _
      rw [Dict.get?_insert]
      split_ifs with same
      · rfl
      · rw [List.length_append, List.length_singleton] at lt
        have other : k ≠ ops.length := fun eq => same (by rw [eq])
        exact places k (by omega)

/-- **Emission of a block.** Nothing is required of its first step yet. -/
theorem Emits.emitAt (h : Emits c steps bs joined) (fresh : b.first = c.emitted) :
    let (c', new) := c.emitAt b.entry b.soft b.group b.origin b.stated b.target
    Frame c c' ∧ new = b.entry.ops.zipIdx.map (b.plain c.table) ∧
      Emits c' (steps ++ new) (bs ++ [b]) (Function.update joined (b.name 0) []) ∧
      (Places c bs → Places c' (bs ++ [b])) := by
  obtain ⟨frame, emitted, steps_eq, others, deps, elsewhere, places⟩ := emitsOps_of_foldl fresh b.entry.ops
  unfold TableCompiler.emitAt
  generalize b.entry.ops.zipIdx.foldl (TableCompiler.emitOp b.target b.soft b.group b.origin b.stated) (c, []) = state at *
  obtain ⟨c', new⟩ := state
  dsimp only at *
  have table : c'.table = c.table := by rw [frame]
  have last : c'.emitted = b.last := by
    unfold Block.last
    omega
  -- The names of earlier blocks are not those of this one.
  have earlier {b' : Block} (mem : b' ∈ bs) {k : ℕ} (lt : k < b'.entry.ops.length) :
      ∀ l < b.entry.ops.length, b'.name k ≠ b.name l := by
    intro l _ same
    have number := numbered_inj same
    have old := h.bounded b' mem
    unfold Block.last at old
    omega
  refine ⟨frame, steps_eq, ⟨?_, fun b' mem op here => ?_, ?_, fun b' mem => ?_⟩, fun known b' mem k lt => ?_⟩
  · rw [List.flatMap_append, table, ← h.steps, steps_eq]
    simp
  · rcases mem_snoc.1 mem with mem | rfl
    · have old := h.bounded b' mem
      have same : b'.deps (Function.update joined (b.name 0) []) op = b'.deps joined op := by
        have other : b'.name 0 ≠ b.name 0 := by
          intro same
          have number := numbered_inj same
          have := b'.first_lt_last
          omega
        unfold Block.deps
        rw [Function.update_of_ne other]
      rw [others _ (earlier mem (b'.lt_of_mem here)), same, h.deps b' mem op here]
    · rw [deps op here]
      unfold Block.deps
      rw [Function.update_self]
  · refine List.pairwise_append.2 ⟨h.apart, List.pairwise_singleton _ _, fun b₁ mem b₂ mem' => ?_⟩
    obtain rfl := List.mem_singleton.1 mem'
    rw [fresh]
    exact h.bounded b₁ mem
  · rcases mem_snoc.1 mem with mem | rfl
    · have := h.bounded b' mem
      omega
    · exact last.ge
  · rcases mem_snoc.1 mem with mem | rfl
    · rw [elsewhere _ (earlier mem lt)]
      exact known b' mem k lt
    · exact places k lt

/-- The blocks of an entry at its targets. -/
structure BlocksOf (entry : Entry) (targets : List Placement) (soft : List String) (group : String)
    (origin : List PathPart) (stated : Option Bool) (new : List Block) : Prop where
  targets : new.map Block.target = targets
  entry : ∀ b ∈ new, b.entry = entry
  soft : ∀ b ∈ new, b.soft = soft
  group : ∀ b ∈ new, b.group = group
  origin : ∀ b ∈ new, b.origin = origin
  stated : ∀ b ∈ new, b.stated = stated

/-- New blocks require nothing yet, and what others require is as it was. -/
structure Unjoined (bs new : List Block) (joined joined' : String → List Dependency) : Prop where
  still : ∀ n, joined n = [] → joined' n = []
  old : ∀ b ∈ bs, joined' (b.name 0) = joined (b.name 0)
  new : ∀ b ∈ new, joined' (b.name 0) = []

/-- **Emission of an entry.** -/
theorem Emits.emitEntry (h : Emits c steps bs joined) (entry : Entry) (targets : List Placement) (soft : List String)
    (group : String) (origin : List PathPart) (stated : Option Bool) :
    let (c', emitted) := c.emitEntry entry targets soft group origin stated
    ∃ new joined', Unjoined bs new joined joined' ∧ Frame c c' ∧ BlocksOf entry targets soft group origin stated new ∧
      (Places c bs → Places c' (bs ++ new)) ∧ emitted.steps = (new.flatMap fun b => b.entry.ops.zipIdx.map (b.plain c.table)) ∧
      emitted.heads = new.map (fun b => (b.target, b.name 0)) ∧
      Emits c' (steps ++ emitted.steps) (bs ++ new) joined' := by
  induction targets using List.reverseRecOn with
  | nil =>
    exact ⟨[], joined, ⟨fun _ => id, fun _ _ => rfl, by simp⟩, .refl c,
      ⟨rfl, by simp, by simp, by simp, by simp, by simp⟩, by simp, rfl, rfl, by
      simpa [TableCompiler.emitEntry] using h⟩
  | append_singleton targets target ih =>
    unfold TableCompiler.emitEntry at ih ⊢
    rw [List.foldl_append, List.foldl_cons, List.foldl_nil]
    generalize targets.foldl (fun (state : TableCompiler × TableCompiler.Emitted) placement =>
      let (c, steps) := state.1.emitAt entry soft group origin stated placement
      (c, { steps := state.2.steps ++ steps
            heads := state.2.heads ++ (steps.head?.map fun step => (placement, step.name)).toList })) (c, {}) = state
      at ih
    obtain ⟨c₁, emitted⟩ := state
    obtain ⟨new, joined', unjoined, frame, blocks, places, steps_eq, heads, emits⟩ := ih
    let b : Block := { group, origin, stated, entry, target, first := c₁.emitted, soft }
    have emission := emits.emitAt (b := b) rfl
    simp only [b] at emission
    simp only []
    generalize c₁.emitAt entry soft group origin stated target = placed at emission
    obtain ⟨c₂, more⟩ := placed
    dsimp only at emission
    obtain ⟨frame', more_eq, emits', places'⟩ := emission
    have table : c₁.table = c.table := by rw [frame]
    have head : more.head?.map (fun step => (target, step.name)) = some (target, b.name 0) := by
      obtain ⟨op, rest, ops⟩ := List.exists_cons_of_ne_nil entry.declares_ops
      rw [more_eq, ops]
      simp [List.zipIdx_cons, Block.plain, b]
    have still (n : String) (none : joined' n = []) : Function.update joined' (b.name 0) [] n = [] := by
      by_cases same : n = b.name 0
      · rw [same, Function.update_self]
      · rw [Function.update_of_ne same]
        exact none
    have others (b' : Block) (mem : b' ∈ bs) : Function.update joined' (b.name 0) [] (b'.name 0) = joined' (b'.name 0) := by
      have before := emits.bounded b' (List.mem_append_left _ mem)
      have other : b'.name 0 ≠ b.name 0 := by
        intro same
        have number : b'.first + 0 + 1 = c₁.emitted + 0 + 1 := numbered_inj same
        have := b'.first_lt_last
        omega
      rw [Function.update_of_ne other]
    refine ⟨new ++ [b], Function.update joined' (b.name 0) [], ⟨fun n none => still n (unjoined.still n none),
      fun b' mem => (others b' mem).trans (unjoined.old b' mem), fun b' mem => ?_⟩, frame.trans frame', ⟨?_, ?_, ?_, ?_, ?_, ?_⟩,
      fun known => ?_, ?_, ?_, ?_⟩
    · rcases mem_snoc.1 mem with mem | rfl
      · exact still _ (unjoined.new b' mem)
      · exact Function.update_self ..
    · rw [List.map_append, blocks.targets]
      rfl
    · simpa [or_imp, forall_and, b] using blocks.entry
    · simpa [or_imp, forall_and, b] using blocks.soft
    · simpa [or_imp, forall_and, b] using blocks.group
    · simpa [or_imp, forall_and, b] using blocks.origin
    · simpa [or_imp, forall_and, b] using blocks.stated
    · rw [← List.append_assoc]
      exact places' (places known)
    · rw [List.flatMap_append, ← steps_eq, more_eq, table]
      simp [b]
    · rw [List.map_append, ← heads, head]
      rfl
    · rw [← List.append_assoc, ← List.append_assoc]
      exact emits'

/-! ## Requirements -/

/-- Nothing but dependencies has changed. -/
def Relinks (c c' : TableCompiler) : Prop :=
  c' = { c with deps := c'.deps }

namespace Relinks

theorem refl (c : TableCompiler) : Relinks c c := rfl

theorem trans (h : Relinks c c') (h' : Relinks c' c'') : Relinks c c'' := by
  unfold Relinks at *
  rw [h', h]

theorem frame (h : Relinks c c') : Frame c c' := by
  unfold Frame
  rw [h]

theorem narrowed {clause : Join} {named : List String} {placement : Placement} (h : Relinks c c') :
    c'.narrowed clause named placement = c.narrowed clause named placement := by
  unfold Relinks at h
  rw [h]
  rfl

theorem effectiveSteps (h : Relinks c c') (fuel : ℕ) :
    ∀ phase, c'.effectiveSteps fuel phase = c.effectiveSteps fuel phase := by
  unfold Relinks at h
  induction fuel with
  | zero => exact fun _ => rfl
  | succ fuel ih =>
    intro phase
    unfold TableCompiler.effectiveSteps
    rw [List.flatMap_congr fun name _ => ih name, h]

theorem named {clause : Join} (h : Relinks c c') : c'.named clause = c.named clause := by
  unfold TableCompiler.named TableCompiler.effective
  rw [h.effectiveSteps]
  unfold Relinks at h
  rw [h]

end Relinks

/-- The dependencies that a clause adds at a placement. -/
def links (c : TableCompiler) (clause : Join) (named : List String) (placement : Placement) : List Dependency :=
  (c.narrowed clause named placement).map fun name => { on := name, kind := clause.on }

theorem Block.ops_pos (b : Block) : 0 < b.entry.ops.length :=
  List.length_pos_of_ne_nil b.entry.declares_ops

/-- A clause adds to what the first step of a block requires. -/
theorem Emits.join {clause : Join} {named : List String} {placement : Placement} {«where» : String}
    (h : Emits c steps bs joined) (mem : b ∈ bs)
    (joins : c.join clause named placement (b.name 0) «where» = .ok c') :
    Relinks c c' ∧
      Emits c' steps bs (Function.update joined (b.name 0) (joined (b.name 0) ++ links c clause named placement)) := by
  unfold TableCompiler.join at joins
  split_ifs at joins
  dsimp only at joins
  split_ifs at joins
  cases joins
  refine ⟨rfl, h.steps, fun b' mem' op here => ?_, h.apart, h.bounded⟩
  show (c.deps.insert _ _).get? _ = _
  by_cases same : b'.name op.2 = b.name 0
  · obtain ⟨rfl, first⟩ := h.apart.name_inj mem' mem (b'.lt_of_mem here) b.ops_pos same
    have head := h.deps b' mem op here
    rw [first] at head ⊢
    rw [Dict.get?_insert_self, head]
    unfold Block.deps
    rw [first, Function.update_self, Option.getD_some, List.append_assoc]
    rfl
  · rw [Dict.get?_insert_of_ne same, h.deps b' mem' op here]
    unfold Block.deps
    split
    · rename_i first
      have other : b'.name 0 ≠ b.name 0 := by rwa [first] at same
      rw [Function.update_of_ne other]
    · rfl

/-- What the first step of a block requires once the clauses of blocks have been resolved. -/
def Linked (c : TableCompiler) (named : Join → List String) (joined joined' : String → List Dependency)
    (bs new : List Block) : Prop :=
  ∀ b ∈ bs, ∀ dep, dep ∈ joined' (b.name 0) ↔ dep ∈ joined (b.name 0) ∨
    b ∈ new ∧ ∃ clause ∈ b.entry.require, dep ∈ links c clause (named clause) b.target

/-- The first step of a block, with its entry and placement. -/
def Block.head (b : Block) : Entry × Placement × String :=
  (b.entry, b.target, b.name 0)

/-- **Clauses of blocks** add to what first steps require, and change nothing else. -/
theorem Emits.joins {«where» : String} {named : TableCompiler → Join → List String} {new : List Block}
    (h : Emits c steps bs joined) (known : ∀ b ∈ new, b ∈ bs)
    (fixed : ∀ c', Relinks c c' → ∀ clause, named c' clause = named c clause)
    (joins : (new.map Block.head).foldlM (fun c (entry, placement, head) =>
      entry.require.foldlM (fun (c : TableCompiler) clause =>
        c.join clause (named c clause) placement head «where») c) c = .ok c') :
    Relinks c c' ∧ ∃ joined', Emits c' steps bs joined' ∧ Linked c (named c) joined joined' bs new := by
  rw [List.foldlM_map] at joins
  refine foldlM_invariant_prefix (fun done c' =>
    Relinks c c' ∧ ∃ joined', Emits c' steps bs joined' ∧ Linked c (named c) joined joined' bs done) joins
    ⟨.refl c, joined, h, fun b _ dep => by simp⟩ ?_
  intro done b rest c₁ c₂ split ⟨relinks, joined₁, emits, linked⟩ turn
  have here : b ∈ bs := known b (by simp [split])
  have clauses := foldlM_invariant_prefix (fun asked c' => Relinks c c' ∧ ∃ joined', Emits c' steps bs joined' ∧
    ∀ b' ∈ bs, ∀ dep, dep ∈ joined' (b'.name 0) ↔ dep ∈ joined₁ (b'.name 0) ∨
      b' = b ∧ ∃ clause ∈ asked, dep ∈ links c clause (named c clause) b'.target) turn
    ⟨relinks, joined₁, emits, fun b' _ dep => by simp⟩ ?_
  · obtain ⟨relinks, joined₂, emits, added⟩ := clauses
    refine ⟨relinks, joined₂, emits, fun b' mem dep => ?_⟩
    rw [added b' mem dep, linked b' mem dep, List.mem_append, List.mem_singleton]
    by_cases same : b' = b
    · subst same
      tauto
    · simp [same]
  · intro asked clause others c₃ c₄ _ ⟨relinks, joined₂, emits, added⟩ turn
    obtain ⟨relinks', emits'⟩ := emits.join here turn
    have same : links c₃ clause (named c₃ clause) b.target = links c clause (named c clause) b.target := by
      unfold links
      rw [relinks.narrowed, fixed c₃ relinks]
    rw [same] at emits'
    refine ⟨relinks.trans relinks', _, emits', fun b' mem dep => ?_⟩
    by_cases eq : b' = b
    · subst eq
      rw [Function.update_self, List.mem_append, added b' mem dep]
      simp only [true_and, List.mem_append, List.mem_singleton, or_and_right, exists_or, exists_eq_left, or_assoc]
    · have other : b'.name 0 ≠ b.name 0 := fun same =>
        eq (emits.apart.name_inj mem here b'.ops_pos b.ops_pos same).1
      rw [Function.update_of_ne other, added b' mem dep]
      simp [eq]

/-! ## Steps of blocks -/

/-- The steps of a compiled table. -/
def blockSteps (table : LifecycleWorkflow) (joined : String → List Dependency) (bs : List Block) : List PlannedStep :=
  bs.flatMap (·.steps table joined)

theorem mem_blockSteps {table : LifecycleWorkflow} {step : PlannedStep} : step ∈ blockSteps table joined bs ↔
    ∃ b ∈ bs, ∃ k spec, b.entry.ops[k]? = some spec ∧ step = b.step table joined (spec, k) := by
  unfold blockSteps Block.steps
  simp only [List.mem_flatMap, List.mem_map, Prod.exists, List.mk_mem_zipIdx_iff_getElem?]
  constructor
  · rintro ⟨b, mem, spec, k, at_, rfl⟩
    exact ⟨b, mem, k, spec, at_, rfl⟩
  · rintro ⟨b, mem, k, spec, at_, rfl⟩
    exact ⟨b, mem, spec, k, at_, rfl⟩

theorem Block.mem_names {name : String} : name ∈ b.names ↔ ∃ k < b.entry.ops.length, name = b.name k := by
  unfold Block.names
  simp only [List.mem_map, Prod.exists, List.mk_mem_zipIdx_iff_getElem?]
  constructor
  · rintro ⟨spec, k, at_, rfl⟩
    exact ⟨k, (List.getElem?_eq_some_iff.1 at_).1, rfl⟩
  · rintro ⟨k, lt, rfl⟩
    exact ⟨_, k, List.getElem?_eq_getElem lt, rfl⟩

theorem Block.first_mem_names : b.name 0 ∈ b.names :=
  Block.mem_names.2 ⟨0, b.ops_pos, rfl⟩

/-- The steps of the blocks of which a test holds. -/
def namesWhere (bs : List Block) (p : Block → Bool) : List String :=
  (bs.filter p).flatMap Block.names

theorem mem_namesWhere {p : Block → Bool} {n : String} :
    n ∈ namesWhere bs p ↔ ∃ b ∈ bs, p b = true ∧ n ∈ b.names := by
  simp only [namesWhere, List.mem_flatMap, List.mem_filter, and_assoc]

theorem names_of_blocks {new : List Block} {emitted : List PlannedStep}
    (steps : emitted = new.flatMap fun b => b.entry.ops.zipIdx.map (b.plain c.table)) :
    emitted.map PlannedStep.name = new.flatMap Block.names := by
  rw [steps, List.map_flatMap]
  refine List.flatMap_congr fun b _ => ?_
  unfold Block.names
  rw [List.map_map]
  rfl

/-- Where the entries of new blocks pass a test, their steps are added to those of the test. -/
theorem namesWhere_append {new : List Block} {p : Block → Bool} (all : ∀ b ∈ new, p b = true) :
    namesWhere (bs ++ new) p = namesWhere bs p ++ new.flatMap Block.names := by
  unfold namesWhere
  rw [List.filter_append, List.flatMap_append, List.filter_eq_self.2 all]

theorem namesWhere_append_of_none {new : List Block} {p : Block → Bool} (none : ∀ b ∈ new, p b = false) :
    namesWhere (bs ++ new) p = namesWhere bs p := by
  have empty : new.filter p = [] := List.filter_eq_nil_iff.2 fun b mem => by simp [none b mem]
  unfold namesWhere
  rw [List.filter_append, empty, List.append_nil]

end SensorKit.Sensor
