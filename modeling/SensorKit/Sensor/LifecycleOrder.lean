import SensorKit.Common.DagDispatch
import SensorKit.Sensor.LifecycleGraph

/-!
# The order of phases

Where no entry of a table requires anything, an operation waits for all the operations of the phases behind its
own, however far behind and whatever is empty or left out in between, as long as nothing in between can be skipped.
-/

namespace SensorKit.Sensor

open Lib Common

/-- A phase follows another one. -/
def LifecycleWorkflow.Follows (table : LifecycleWorkflow) (i j : ℕ) : Prop :=
  ∃ phase, table.phases[j]? = some phase ∧ phase.name ∈ table.follows i

section Order

variable {table : LifecycleWorkflow} {sensor : BoundSensor} {deadlines : List DeadlineRule} {rules : List OperatorRule}
  {graph : Graph (Option Operation)} {bs : List Block} {joined : String → List Dependency} {b b' : Block}
  {i j k n m : ℕ} {name : String}

/-- Behind a phase there is one with entries that it stands for, on the way to one with entries. -/
theorem exists_standsFor (path : Relation.ReflTransGen table.Follows i j) {other : Phase}
    (last : table.phases[j]? = some other) (inhabited : other.entries ≠ []) :
    ∀ phase, table.phases[i]? = some phase → ∃ l inner, table.phases[l]? = some inner ∧ inner.entries ≠ [] ∧
      StandsFor table phase.name inner ∧ Relation.ReflTransGen table.Follows l j := by
  induction path using Relation.ReflTransGen.head_induction_on with
  | refl =>
    intro phase here
    obtain rfl := Option.some.inj (here.symm.trans last)
    exact ⟨j, phase, here, inhabited, .itself (List.mem_of_getElem? here) inhabited, .refl⟩
  | @head i l first rest ih =>
    intro phase here
    by_cases empty : phase.entries = []
    · obtain ⟨next, there, named⟩ := first
      obtain ⟨k, inner, at_, entries, stands, path⟩ := ih next there
      exact ⟨k, inner, at_, entries, .through here empty named stands, path⟩
    · exact ⟨i, phase, here, empty, .itself (List.mem_of_getElem? here) empty, .head first rest⟩

/-- Nothing that the step depends on can keep it from running. -/
def Free (table : LifecycleWorkflow) (joined : String → List Dependency) (bs : List Block) (name : String) : Prop :=
  ∀ other, ¬ Requires (blockSteps table joined bs) name other

/-- A declared dependency on a step that cannot be skipped. -/
abbrev Passes (table : LifecycleWorkflow) (joined : String → List Dependency) (bs : List Block) : String → String → Prop :=
  fun n m => Declares (blockSteps table joined bs) n m ∧ Free table joined bs m

theorem free_first (apart : Apart bs) (mem : b ∈ bs) (alone : joined (b.name 0) = []) : Free table joined bs (b.name 0) := by
  rintro other ⟨step, listed, same, dep, depends, -, success⟩
  have at_ := List.getElem?_eq_getElem (List.length_pos_of_ne_nil b.entry.declares_ops)
  obtain rfl := eq_of_name apart mem at_ listed same
  simp only [Block.step, Block.deps, alone, List.append_nil, Dependency.completion, List.mem_map] at depends
  obtain ⟨_, -, rfl⟩ := depends
  simp at success

/-- **The order passes through the phases.** From the first step of a block a chain of steps that cannot be skipped
leads to each step of the phases behind. -/
theorem passes_back (plans : Plans table sensor bs joined) (free : ∀ phase ∈ table.phases, phase.Unrequired)
    (inhabited : ∀ phase ∈ table.phases, phase.entries ≠ [] → ∃ b ∈ bs, b.group = phase.name)
    {other : Phase} (last : table.phases[j]? = some other) (mem' : b' ∈ bs) (group' : b'.group = other.name)
    (named : name ∈ b'.names) : ∀ (i : ℕ) (phase : Phase) (b : Block), table.phases[i]? = some phase → b ∈ bs →
      b.group = phase.name → Relation.TransGen table.Follows i j →
      ∃ z, Relation.ReflTransGen (Passes table joined bs) (b.name 0) z ∧
        Declares (blockSteps table joined bs) z name := by
  have entries' : other.entries ≠ [] := by
    obtain ⟨i, phase, position, entry, at_, block, -⟩ := plans.blocks b' mem'
    have same := plans.ordered.index_inj at_ last (block.group.symm.trans group')
    subst same
    cases at_.symm.trans last
    intro empty
    have here := block.here
    simp [empty] at here
  intro i
  induction i using Nat.strong_induction_on with
  | h i ih =>
    intro phase b here mem group path
    obtain ⟨l, first, rest⟩ := Relation.TransGen.head'_iff.1 path
    obtain ⟨next, there, follows⟩ := first
    obtain ⟨k, inner, at_, inner_entries, stands, onward⟩ := exists_standsFor rest last entries' next there
    obtain ⟨i', phase', position, entry, at', block, soft⟩ := plans.blocks b mem
    have same := plans.ordered.index_inj at' here (block.group.symm.trans group)
    subst same
    obtain rfl := Option.some.inj (at'.symm.trans here)
    have bound := (List.getElem?_eq_some_iff.1 here).1
    have waits : WaitsFor table i' entry inner := by
      refine ⟨next.name, follows, ?_, stands⟩
      rintro ⟨clause, listed, -⟩
      rw [free phase' (List.mem_of_getElem? here) entry (List.mem_of_getElem? block.here)] at listed
      simp at listed
    rcases onward.cases_head with rfl | ⟨l', step, rest'⟩
    · obtain rfl := Option.some.inj (at_.symm.trans last)
      exact ⟨b.name 0, .refl, declares_soft mem (soft inner waits b' mem' group' name named)⟩
    · obtain ⟨b₂, mem₂, group₂⟩ := inhabited inner (List.mem_of_getElem? at_) inner_entries
      have zero : b₂.name 0 ∈ b₂.names :=
        Block.mem_names.2 ⟨0, List.length_pos_of_ne_nil b₂.entry.declares_ops, rfl⟩
      have edge : Passes table joined bs (b.name 0) (b₂.name 0) :=
        ⟨declares_soft mem (soft inner waits b₂ mem₂ group₂ _ zero), free_first plans.apart mem₂ (plans.alone free mem₂)⟩
      have lt : k < i' := by
        obtain ⟨k', lt, at''⟩ := waits.index plans.ordered bound
        rwa [plans.ordered.index_inj at_ at'' rfl]
      obtain ⟨z, chain, declares⟩ := ih k lt inner b₂ at_ mem₂ group₂ (.head' step rest')
      exact ⟨z, .head edge chain, declares⟩

/-! ## Runs -/

variable {e : Execution (Option Operation)}

/-- Everything kept has its result to which chains of dependencies lead from the step through steps left out. -/
def Passed (sensor : BoundSensor) (table : LifecycleWorkflow) (joined : String → List Dependency) (bs : List Block)
    (s : RunState (Option Operation)) (name : String) : Prop :=
  ∀ other m, NodeNamed sensor (blockSteps table joined bs) other m → Leads sensor table joined bs name other → s.Resolved m

variable (projects : Projects sensor deadlines [] (blockSteps table joined bs) graph)

include projects

theorem passed_of_going (live : Execution.Live graph e) (named : NodeNamed sensor (blockSteps table joined bs) name n)
    (going : e.state.Ran n ∨ e.state.Running n) : Passed sensor table joined bs e.state name := by
  intro other m there chain
  exact (projects.snapshot live).waited going ((projects.between named there).1.2 chain)

/-- A step that cannot be skipped passes on what it waits for. -/
theorem Passed.next {other : String} (h : Passed sensor table joined bs e.state name) (live : Execution.Live graph e)
    (passes : Passes table joined bs name other) : Passed sensor table joined bs e.state other := by
  obtain ⟨declares, free⟩ := passes
  by_cases out : Out sensor table joined bs other
  · intro other' m there chain
    exact h other' m there (.hidden declares out chain)
  · intro other' m there chain
    have listed : ∃ step ∈ blockSteps table joined bs, step.name = other := by
      rcases through_iff.1 chain with ⟨step, mem, same, -⟩ | ⟨_, ⟨step, mem, same, -⟩, -⟩
      · exact ⟨step, mem, same⟩
      · exact ⟨step, mem, same⟩
    obtain ⟨n, here⟩ := exists_node_of_mem listed out
    have resolved : e.state.Resolved n := h other n here (.direct declares)
    have ran : e.state.Ran n := by
      rcases (projects.snapshot live).given_up resolved with ran | ⟨d, required, -⟩
      · exact ran
      · obtain ⟨other₂, _, here', -, chain'⟩ := (projects.hard n d).1 required
        cases here'.symm.trans here
        rcases through_iff.1 chain' with first | ⟨_, first, -⟩
        · exact absurd first (free _)
        · exact absurd first (free _)
    exact passed_of_going projects live here (.inl ran) other' m there chain

theorem Passed.chain {last : String} (h : Passed sensor table joined bs e.state name) (live : Execution.Live graph e)
    (chain : Relation.ReflTransGen (Passes table joined bs) name last) : Passed sensor table joined bs e.state last := by
  induction chain with
  | refl => exact h
  | tail _ step ih => exact ih.next projects live step

end Order

end SensorKit.Sensor
