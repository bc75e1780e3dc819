import SensorKit.Common.DagExecution
import SensorKit.Lib.Cycle

/-!
# The order of a graph that is built

`topo_order` takes a node when all its dependencies have been taken. What it returns, if it returns,
lists every node after its dependencies, so a graph that `build` returns has no cycle; and it returns
unless there is one.
-/

namespace SensorKit.Common

variable {π : Type} {order : List ℕ}

/-- A graph whose nodes have distinct ids, whose edges join nodes, and which has no cycle. -/
structure Graph.Valid (g : Graph π) : Prop where
  ids : (g.nodes.map Node.id).Nodup
  hard_deps : ∀ n, ∀ d ∈ g.hard n, d ∈ g.deps n
  inside : ∀ n, ∀ d ∈ g.deps n, n ∈ g.nodes.map Node.id ∧ d ∈ g.nodes.map Node.id
  acyclic : WellFounded fun d n => d ∈ g.deps n

namespace Graph

variable {g : Graph π} {n nid : ℕ}

/-- A node is found under its id. -/
theorem node_eq_some {nd : Node π} (ids : (g.nodes.map Node.id).Nodup) (mem : nd ∈ g.nodes) :
    g.node nd.id = some nd := by
  obtain ⟨found, eq⟩ : ∃ found, g.node nd.id = some found :=
    Option.isSome_iff_exists.1 (List.find?_isSome.2 ⟨nd, mem, by simp⟩)
  have id : found.id = nd.id := by simpa using List.find?_some eq
  rw [eq, List.inj_on_of_nodup_map ids (List.mem_of_find?_eq_some eq) mem id]

theorem node_mem {nd : Node π} (found : g.node n = some nd) : nd ∈ g.nodes ∧ nd.id = n :=
  ⟨List.mem_of_find?_eq_some found, by simpa using List.find?_some found⟩

theorem mem_dependents : n ∈ g.dependents nid ↔ n ∈ g.nodes.map Node.id ∧ nid ∈ g.deps n := by
  simp only [dependents, List.mem_filter, decide_eq_true_eq]

/-- Where the loop of `topo_order` is, past `done` and with `queue` ahead. -/
structure Taking (g : Graph π) (done queue : List ℕ) (indeg : ℕ → ℤ) : Prop where
  nodup : (done ++ queue).Nodup
  nodes : ∀ n ∈ done ++ queue, n ∈ g.nodes.map Node.id
  waits : ∀ n ∈ g.nodes.map Node.id, indeg n = ((g.deps n).filter (· ∉ done)).length
  free : ∀ n ∈ done ++ queue, ∀ d ∈ g.deps n, d ∈ done

namespace Taking

variable {done queue : List ℕ} {indeg : ℕ → ℤ}

section

variable (ids : (g.nodes.map Node.id).Nodup) (deps : ∀ n, (g.deps n).Nodup)
include ids deps

/-- Taking a node leaves its dependents one dependency less to wait for. -/
theorem waits_less (h : g.Taking done (nid :: queue) indeg) (mem : n ∈ g.nodes.map Node.id) :
    indeg n - (g.dependents nid).count n = ((g.deps n).filter (· ∉ done ++ [nid])).length := by
  have fresh : nid ∉ done := fun mem => by
    have := List.nodup_append.1 h.nodup
    exact this.2.2 nid mem nid (by simp) rfl
  have split : (g.deps n).filter (· ∉ done ++ [nid]) = ((g.deps n).filter (· ∉ done)).filter (· ≠ nid) := by
    rw [List.filter_filter]
    refine List.filter_congr fun d _ => ?_
    by_cases same : d = nid <;> simp [same]
  have nodup : ((g.deps n).filter (· ∉ done)).Nodup := (deps n).filter _
  rw [h.waits n mem, split]
  have dependents : (g.dependents nid).Nodup := ids.filter _
  by_cases dep : nid ∈ g.deps n
  · have one : (g.dependents nid).count n = 1 :=
      List.count_eq_one_of_mem dependents (mem_dependents.2 ⟨mem, dep⟩)
    have waiting : nid ∈ (g.deps n).filter (· ∉ done) := by simp [dep, fresh]
    have erase : ((g.deps n).filter (· ∉ done)).filter (· ≠ nid) = ((g.deps n).filter (· ∉ done)).erase nid := by
      rw [nodup.erase_eq_filter]
      exact List.filter_congr fun d _ => by by_cases same : d = nid <;> simp [same]
    have length := List.length_erase_of_mem waiting
    have positive := List.length_pos_of_mem waiting
    rw [one, erase, length]
    omega
  · have none : (g.dependents nid).count n = 0 :=
      List.count_eq_zero.2 fun mem => dep (mem_dependents.1 mem).2
    have same : ((g.deps n).filter (· ∉ done)).filter (· ≠ nid) = (g.deps n).filter (· ∉ done) := by
      refine List.filter_eq_self.2 fun d mem => ?_
      have other : d ≠ nid := by
        rintro rfl
        exact dep (List.mem_of_mem_filter mem)
      simpa using other
    rw [none, same]
    simp

theorem next (h : g.Taking done (nid :: queue) indeg) : g.Taking (done ++ [nid])
      (queue ++ (g.dependents nid).filter fun n => indeg n - (g.dependents nid).count n = 0)
      fun n => indeg n - (g.dependents nid).count n := by
  have split := List.nodup_append.1 h.nodup
  have fresh : nid ∉ done := fun mem => split.2.2 nid mem nid (by simp) rfl
  -- A dependent of the node was not free before.
  have unlisted {m : ℕ} (mem : m ∈ g.dependents nid) : m ∉ done ++ nid :: queue := fun listed =>
    fresh (h.free m listed nid (mem_dependents.1 mem).2)
  have freed {m : ℕ} (mem : m ∈ (g.dependents nid).filter fun n => indeg n - (g.dependents nid).count n = 0) :
      m ∈ g.dependents nid ∧ ∀ d ∈ g.deps m, d ∈ done ++ [nid] := by
    obtain ⟨mem, zero⟩ := List.mem_filter.1 mem
    refine ⟨mem, fun d dep => ?_⟩
    rw [decide_eq_true_eq, h.waits_less ids deps (mem_dependents.1 mem).1] at zero
    have none : (g.deps m).filter (· ∉ done ++ [nid]) = [] := List.length_eq_zero_iff.1 (by exact_mod_cast zero)
    by_contra missing
    have waiting : d ∈ (g.deps m).filter (· ∉ done ++ [nid]) := List.mem_filter.2 ⟨dep, by simpa using missing⟩
    rw [none] at waiting
    exact List.not_mem_nil waiting
  have regroup : done ++ [nid] ++ queue = done ++ nid :: queue := by simp
  refine ⟨?_, fun m mem => ?_, fun m mem => h.waits_less ids deps mem, fun m mem d dep => ?_⟩
  · rw [← List.append_assoc, regroup]
    refine h.nodup.append ((ids.filter _).filter _) fun m mem mem' => ?_
    exact unlisted (List.mem_of_mem_filter mem') mem
  · rw [← List.append_assoc, regroup] at mem
    rcases List.mem_append.1 mem with mem | mem
    · exact h.nodes m mem
    · exact (mem_dependents.1 (List.mem_of_mem_filter mem)).1
  · rw [← List.append_assoc, regroup] at mem
    rcases List.mem_append.1 mem with mem | mem
    · exact List.mem_append_left _ (h.free m mem d dep)
    · exact (freed mem).2 d dep

/-- **The loop takes each node after its dependencies.** -/
theorem loop (fuel : ℕ) : ∀ {done queue : List ℕ} {indeg : ℕ → ℤ}, g.Taking done queue indeg →
      (done ++ g.topoLoop fuel indeg queue).Nodup ∧ (∀ n ∈ g.topoLoop fuel indeg queue, n ∈ g.nodes.map Node.id) ∧
        ∀ pre n post, g.topoLoop fuel indeg queue = pre ++ n :: post → ∀ d ∈ g.deps n, d ∈ done ++ pre := by
  have stops {done queue : List ℕ} {indeg : ℕ → ℤ} (h : g.Taking done queue indeg) : (done ++ []).Nodup ∧
      (∀ n ∈ ([] : List ℕ), n ∈ g.nodes.map Node.id) ∧
        ∀ pre n post, [] = pre ++ n :: post → ∀ d ∈ g.deps n, d ∈ done ++ pre := by
    refine ⟨by simpa using (List.nodup_append.1 h.nodup).1, by simp, fun pre n post eq => ?_⟩
    simp at eq
  induction fuel with
  | zero =>
    intro done queue indeg h
    rw [topoLoop]
    exact stops h
  | succ fuel ih =>
    intro done queue indeg h
    cases queue with
    | nil =>
      rw [topoLoop]
      · exact stops h
      · simp
    | cons nid queue =>
      obtain ⟨nodup, nodes, after⟩ := ih (h.next ids deps)
      rw [topoLoop]
      refine ⟨by simpa using nodup, fun n mem => ?_, fun pre n post eq d dep => ?_⟩
      · rcases List.mem_cons.1 mem with rfl | mem
        · exact h.nodes n (by simp)
        · exact nodes n mem
      · cases pre with
        | nil =>
          obtain ⟨rfl, -⟩ := List.cons.inj eq
          simpa using h.free nid (by simp) d dep
        | cons m pre =>
          obtain ⟨rfl, rest⟩ := List.cons.inj eq
          have taken : d ∈ done ++ [nid] ++ pre := after pre n post rest d dep
          simpa using taken

end

/-- A node whose dependencies have all been taken is taken, or in the queue. -/
def Full (g : Graph π) (done queue : List ℕ) : Prop :=
  ∀ n ∈ g.nodes.map Node.id, (∀ d ∈ g.deps n, d ∈ done) → n ∈ done ++ queue

theorem full_next (ids : (g.nodes.map Node.id).Nodup) (deps : ∀ n, (g.deps n).Nodup)
    (h : g.Taking done (nid :: queue) indeg) (full : Full g done (nid :: queue)) : Full g (done ++ [nid])
      (queue ++ (g.dependents nid).filter fun n => indeg n - (g.dependents nid).count n = 0) := by
  intro n mem taken
  rw [← List.append_assoc, List.append_assoc done, List.singleton_append]
  by_cases waits : nid ∈ g.deps n
  · -- It has waited for the node that is taken, at last.
    have dependent : n ∈ g.dependents nid := mem_dependents.2 ⟨mem, waits⟩
    refine List.mem_append_right _ (List.mem_filter.2 ⟨dependent, ?_⟩)
    have none : (g.deps n).filter (· ∉ done ++ [nid]) = [] :=
      List.filter_eq_nil_iff.2 fun d dep => by simpa [or_iff_not_imp_left] using taken d dep
    rw [h.waits_less ids deps mem, none]
    rfl
  · refine List.mem_append_left _ (full n mem fun d dep => ?_)
    rcases List.mem_append.1 (taken d dep) with before | new
    · exact before
    · rw [List.mem_singleton.1 new] at dep
      exact absurd dep waits

/-- **The loop takes each node whose dependencies it takes.** -/
theorem loop_full (ids : (g.nodes.map Node.id).Nodup) (deps : ∀ n, (g.deps n).Nodup) (fuel : ℕ) :
    ∀ {done queue : List ℕ} {indeg : ℕ → ℤ}, g.Taking done queue indeg → Full g done queue →
      (g.nodes.map Node.id).length ≤ done.length + fuel → Full g (done ++ g.topoLoop fuel indeg queue) [] := by
  induction fuel with
  | zero =>
    intro done queue indeg h full enough n mem _
    have nodup : done.Nodup := (List.nodup_append.1 h.nodup).1
    have nodes : done ⊆ g.nodes.map Node.id := fun n mem => h.nodes n (List.mem_append_left _ mem)
    have all := (List.subperm_of_subset nodup nodes).perm_of_length_le enough
    simpa [topoLoop] using all.mem_iff.2 mem
  | succ fuel ih =>
    intro done queue indeg h full enough
    cases queue with
    | nil =>
      rw [topoLoop, List.append_nil]
      · exact full
      · simp
    | cons nid queue =>
      have rest := ih (h.next ids deps) (full_next ids deps h full) (by
        rw [List.length_append, List.length_singleton]
        omega)
      rw [topoLoop]
      simpa using rest

end Taking

/-- What the loop of `topo_order` ends with. -/
structure Sorted (g : Graph π) (order : List ℕ) : Prop where
  nodup : order.Nodup
  nodes : ∀ n ∈ order, n ∈ g.nodes.map Node.id
  after : ∀ pre n post, order = pre ++ n :: post → ∀ d ∈ g.deps n, d ∈ pre
  full : ∀ n ∈ g.nodes.map Node.id, (∀ d ∈ g.deps n, d ∈ order) → n ∈ order

theorem topoOrder_eq (ids : (g.nodes.map Node.id).Nodup) (deps : ∀ n, (g.deps n).Nodup)
    (known : ∀ n ∈ g.nodes.map Node.id, ∀ d ∈ g.deps n, d ∈ g.nodes.map Node.id) :
    ∃ order, g.Sorted order ∧ g.topoOrder = if order.length < (g.nodes.map Node.id).length then
      .error ("dependency cycle in graph: " ++ " -> ".intercalate
        ((g.cycle ((g.nodes.map Node.id).filter (· ∉ order))).filterMap fun nid => (g.node nid).map Node.label))
      else .ok order := by
  have start : g.Taking [] ((g.nodes.map Node.id).filter fun n => (g.deps n).length = 0)
      fun n => ((g.deps n).length : ℤ) := by
    refine ⟨ids.filter _, fun n mem => List.mem_of_mem_filter mem, fun n _ => by simp, fun n mem d dep => ?_⟩
    obtain ⟨-, none⟩ := List.mem_filter.1 mem
    simp [List.length_eq_zero_iff.1 (by simpa using none)] at dep
  have full := start.loop_full ids deps (g.nodes.map Node.id).length (fun n mem free => List.mem_filter.2
    ⟨mem, by simpa using List.eq_nil_iff_forall_not_mem.2 fun d dep => List.not_mem_nil (free d dep)⟩) (by simp)
  obtain ⟨nodup, nodes, after⟩ := start.loop ids deps (g.nodes.map Node.id).length
  rw [List.nil_append] at nodup
  refine ⟨_, ⟨nodup, nodes, after, fun n mem free => ?_⟩, ?_⟩
  · simpa using full n mem (by simpa using free)
  · have none : ((g.nodes.map Node.id).flatMap g.deps).find? (· ∉ g.nodes.map Node.id) = none := by
      refine List.find?_eq_none.2 fun d mem => ?_
      obtain ⟨n, node, dep⟩ := List.mem_flatMap.1 mem
      simpa using known n node d dep
    simp only [topoOrder, none]

/-- A node's place in the order is past the places of its dependencies. -/
theorem Sorted.wellFounded (h : g.Sorted order) (all : ∀ n ∈ g.nodes.map Node.id, n ∈ order)
    (inside : ∀ n, ∀ d ∈ g.deps n, d ∈ g.nodes.map Node.id) : WellFounded fun d n => d ∈ g.deps n := by
  refine Subrelation.wf (fun {d n} dep => ?_) (InvImage.wf (order.idxOf ·) Nat.lt_wfRel.wf)
  simp only [InvImage, WellFoundedRelation.rel]
  by_cases node : n ∈ order
  · obtain ⟨pre, post, eq⟩ := List.append_of_mem node
    have before : d ∈ pre := h.after pre n post eq d dep
    have apart : n ∉ pre := fun mem => by
      have nodup := h.nodup
      rw [eq] at nodup
      exact (List.nodup_append.1 nodup).2.2 n mem n (by simp) rfl
    rw [eq, List.idxOf_append_of_mem before, List.idxOf_append_of_notMem apart, List.idxOf_cons_self]
    exact List.idxOf_lt_length_of_mem before
  · rw [List.idxOf_eq_length node]
    exact List.idxOf_lt_length_of_mem (all d (inside n d dep))

/-- An order that is not shorter than the nodes has them all. -/
theorem Sorted.perm (h : g.Sorted order) (long : ¬ order.length < (g.nodes.map Node.id).length) :
    order.Perm (g.nodes.map Node.id) :=
  (List.subperm_of_subset h.nodup h.nodes).perm_of_length_le (Nat.not_lt.1 long)

/-- **What `topo_order` returns** is all the nodes, each after its dependencies. -/
theorem acyclic_of_topoOrder (ids : (g.nodes.map Node.id).Nodup) (deps : ∀ n, (g.deps n).Nodup)
    (nodes_only : ∀ n, n ∉ g.nodes.map Node.id → g.deps n = []) (h : g.topoOrder = .ok order) :
    (∀ n, ∀ d ∈ g.deps n, d ∈ g.nodes.map Node.id) ∧ WellFounded fun d n => d ∈ g.deps n := by
  have known (n : ℕ) (node : n ∈ g.nodes.map Node.id) (d : ℕ) (dep : d ∈ g.deps n) : d ∈ g.nodes.map Node.id := by
    simp only [topoOrder] at h
    split at h
    · simp at h
    rename_i known
    have := List.find?_eq_none.1 known d (List.mem_flatMap.2 ⟨n, node, dep⟩)
    simpa using this
  obtain ⟨order', sorted, eq⟩ := topoOrder_eq ids deps known
  rw [h] at eq
  split_ifs at eq with short
  have inside (n : ℕ) (d : ℕ) (dep : d ∈ g.deps n) : d ∈ g.nodes.map Node.id := by
    by_cases node : n ∈ g.nodes.map Node.id
    · exact known n node d dep
    · simp [nodes_only n node] at dep
  exact ⟨inside, sorted.wellFounded (fun n node => (sorted.perm short).mem_iff.2 node) inside⟩

/-! ## The cycle that the sort reports -/

/-- A path along the dependencies that comes back to the node it began with. -/
structure Loops (g : Graph π) (path : List ℕ) : Prop where
  edges : path.IsChain fun n d => d ∈ g.deps n
  back : path.head? = path.getLast?
  long : 2 ≤ path.length
  nodes : ∀ n ∈ path, n ∈ g.nodes.map Node.id

theorem Loops.cyclic {path : List ℕ} (h : g.Loops path) : Lib.Cyclic fun n d => d ∈ g.deps n := by
  obtain ⟨edges, back, long, -⟩ := h
  cases path with
  | nil => simp at long
  | cons n rest =>
    have last : (n :: rest).getLast? = some n := by simpa using back.symm
    have leads (rest : List ℕ) : ∀ m, (m :: rest).IsChain (fun n d => d ∈ g.deps n) → rest ≠ [] →
        (m :: rest).getLast? = some n → Relation.TransGen (fun n d => d ∈ g.deps n) m n := by
      induction rest with
      | nil => simp
      | cons d rest ih =>
        intro m edges _ last
        obtain ⟨edge, edges⟩ := List.isChain_cons_cons.1 edges
        rw [List.getLast?_cons_cons] at last
        by_cases ends : rest = []
        · subst ends
          obtain rfl : d = n := by simpa using last
          exact .single edge
        · exact .head edge (ih d edges ends last)
    refine ⟨n, leads rest n edges (fun none => ?_) last⟩
    simp [none] at long

/-- **The loop of `_cycle` ends**, with more rounds left or not: the stuck nodes are too few for it not to come back. -/
theorem cycleLoop_loops {stuck : List ℕ} (inside : ∀ n ∈ stuck, n ∈ g.nodes.map Node.id)
    (next : ∀ n ∈ stuck, ∃ d ∈ g.deps n, d ∈ stuck) (fuel : ℕ) :
    ∀ {path : List ℕ} {nid : ℕ}, (path ++ [nid]).IsChain (fun n d => d ∈ g.deps n) → path.Nodup → path ⊆ stuck →
      nid ∈ stuck → stuck.length < path.length + fuel →
      g.Loops (g.cycleLoop stuck fuel path nid) ∧
        ∀ more, g.cycleLoop stuck (fuel + more) path nid = g.cycleLoop stuck fuel path nid := by
  induction fuel with
  | zero =>
    intro path nid _ nodup within _ enough
    have := (List.subperm_of_subset nodup within).length_le
    omega
  | succ fuel ih =>
    intro path nid edges nodup within here enough
    simp only [Nat.succ_add, cycleLoop]
    by_cases met : nid ∈ path
    · simp only [if_pos met, implies_true, and_true]
      obtain ⟨pre, post, rfl⟩ := List.append_of_mem met
      have apart : nid ∉ pre := fun mem => (List.nodup_append.1 nodup).2.2 nid mem nid (by simp) rfl
      have drop : (pre ++ nid :: post).drop ((pre ++ nid :: post).idxOf nid) = nid :: post := by
        rw [List.idxOf_append_of_notMem apart, List.idxOf_cons_self, Nat.add_zero, List.drop_left]
      rw [drop]
      refine ⟨?_, by rw [List.getLast?_concat]; rfl, by simp, fun n mem => inside n ?_⟩
      · rw [List.append_assoc] at edges
        exact edges.right_of_append
      · rcases List.mem_append.1 mem with mem | mem
        · exact within (List.mem_append_right _ mem)
        · rwa [List.mem_singleton.1 mem]
    · simp only [if_neg met]
      obtain ⟨least, eq⟩ : ∃ least, ((g.deps nid).filter (· ∈ stuck)).min? = some least := by
        obtain ⟨d, dep, stays⟩ := next nid here
        refine Option.ne_none_iff_exists'.1 fun none => ?_
        have empty := List.min?_eq_none_iff.1 none
        exact List.not_mem_nil (empty ▸ List.mem_filter.2 ⟨dep, by simpa using stays⟩)
      obtain ⟨dep, stays⟩ := List.mem_filter.1 (List.min?_mem eq)
      rw [eq, Option.getD_some]
      refine ih (List.isChain_append.2 ⟨edges, .singleton _, ?_⟩) ?_ ?_ (by simpa using stays) ?_
      · intro m last d mem
        obtain rfl : nid = m := by simpa using last
        obtain rfl : least = d := by simpa using mem
        exact dep
      · exact List.nodup_append.2 ⟨nodup, List.nodup_singleton _, fun m mem m' mem' same => met (by simp_all)⟩
      · exact List.append_subset.2 ⟨within, by simpa using here⟩
      · rw [List.length_append, List.length_singleton]
        omega

/-- The nodes that the sort could not order each wait for another of them. -/
theorem Sorted.cycle (h : g.Sorted order) (ids : (g.nodes.map Node.id).Nodup)
    (inside : ∀ n, ∀ d ∈ g.deps n, d ∈ g.nodes.map Node.id) (short : order.length < (g.nodes.map Node.id).length) :
    ∃ stuck, (g.nodes.map Node.id).filter (· ∉ order) = stuck ∧ g.Loops (g.cycle stuck) ∧
      ∀ more, g.cycleLoop stuck (stuck.length + 1 + more) [] (stuck.min?.getD 0) = g.cycle stuck := by
  have next : ∀ n ∈ (g.nodes.map Node.id).filter (· ∉ order), ∃ d ∈ g.deps n, d ∈ (g.nodes.map Node.id).filter (· ∉ order) := by
    intro n mem
    obtain ⟨node, left⟩ := List.mem_filter.1 mem
    by_contra none
    refine (by simpa using left : n ∉ order) (h.full n node fun d dep => ?_)
    by_contra stuck
    exact none ⟨d, dep, List.mem_filter.2 ⟨inside n d dep, by simpa using stuck⟩⟩
  obtain ⟨n, node, left⟩ : ∃ n ∈ g.nodes.map Node.id, n ∉ order := by
    by_contra all
    push Not at all
    have := (List.subperm_of_subset ids all).length_le
    omega
  obtain ⟨least, eq⟩ : ∃ least, ((g.nodes.map Node.id).filter (· ∉ order)).min? = some least := by
    refine Option.ne_none_iff_exists'.1 fun none => ?_
    have empty := List.min?_eq_none_iff.1 none
    exact List.not_mem_nil (empty ▸ List.mem_filter.2 ⟨node, by simpa using left⟩)
  refine ⟨_, rfl, ?_⟩
  unfold Graph.cycle
  rw [eq, Option.getD_some]
  refine cycleLoop_loops (fun n mem => List.mem_of_mem_filter mem) next _ ?_ ?_ ?_ (List.min?_mem eq) ?_ <;> simp

/-- **The sort is exact**: where the dependencies are nodes, it returns, all the nodes and each after its dependencies,
if there is no cycle, and else raises and names one. -/
theorem topoOrder_exact (ids : (g.nodes.map Node.id).Nodup) (deps : ∀ n, (g.deps n).Nodup)
    (inside : ∀ n, ∀ d ∈ g.deps n, d ∈ g.nodes.map Node.id) :
    ((∃ order, g.topoOrder = .ok order ∧ order.Perm (g.nodes.map Node.id) ∧
        ∀ pre n post, order = pre ++ n :: post → ∀ d ∈ g.deps n, d ∈ pre) ↔ ¬ Lib.Cyclic fun n d => d ∈ g.deps n) ∧
      (Lib.Cyclic (fun n d => d ∈ g.deps n) → ∃ stuck, g.Loops (g.cycle stuck) ∧
        (∀ more, g.cycleLoop stuck (stuck.length + 1 + more) [] (stuck.min?.getD 0) = g.cycle stuck) ∧
        g.topoOrder = .error ("dependency cycle in graph: " ++ " -> ".intercalate
          ((g.cycle stuck).filterMap fun nid => (g.node nid).map Node.label))) := by
  obtain ⟨order, sorted, eq⟩ := topoOrder_eq ids deps fun n _ => inside n
  by_cases short : order.length < (g.nodes.map Node.id).length
  · obtain ⟨stuck, here, loops, ends⟩ := sorted.cycle ids inside short
    rw [if_pos short, here] at eq
    refine ⟨⟨?_, fun acyclic => absurd loops.cyclic acyclic⟩, fun _ => ⟨stuck, loops, ends, eq⟩⟩
    rintro ⟨order', returns, -⟩
    rw [eq] at returns
    simp at returns
  · rw [if_neg short] at eq
    have acyclic : ¬ Lib.Cyclic fun n d => d ∈ g.deps n := Lib.not_cyclic_of_acc fun n =>
      (sorted.wellFounded (fun n node => (sorted.perm short).mem_iff.2 node) inside).apply n
    exact ⟨⟨fun _ => acyclic, fun _ => ⟨order, eq, sorted.perm short, sorted.after⟩⟩, fun cyclic => absurd cyclic acyclic⟩

/-- Two nodes that wait for each other. -/
def pair : Graph Unit where
  nodes := [{ id := 0, label := "n0", group := "", payload := () }, { id := 1, label := "n1", group := "", payload := () }]
  deps n := if n = 0 then [1] else if n = 1 then [0] else []
  hard _ := []

theorem topoOrder_exact_pair : (∃ stuck, pair.Loops (pair.cycle stuck)) ∧
    pair.topoOrder = .error "dependency cycle in graph: n0 -> n1 -> n0" := by
  have deps (n : ℕ) : (pair.deps n).Nodup := by
    simp only [pair]
    split_ifs <;> simp
  have inside (n : ℕ) (d : ℕ) (dep : d ∈ pair.deps n) : d ∈ pair.nodes.map Node.id := by
    simp only [pair] at dep
    split_ifs at dep <;> simp_all [pair]
  obtain ⟨stuck, loops, -⟩ := (topoOrder_exact (g := pair) (by decide) deps inside).2
    ⟨0, .tail (.single (by decide : 1 ∈ pair.deps 0)) (by decide : 0 ∈ pair.deps 1)⟩
  exact ⟨⟨stuck, loops⟩, by decide +kernel⟩

/-- **`topo_order` returns** unless there is a cycle: the nodes that it cannot order wait for each other. -/
theorem cyclic_of_topoOrder {message : String} (ids : (g.nodes.map Node.id).Nodup) (deps : ∀ n, (g.deps n).Nodup)
    (inside : ∀ n, ∀ d ∈ g.deps n, d ∈ g.nodes.map Node.id) (h : g.topoOrder = .error message) :
    (∃ labels, message = "dependency cycle in graph: " ++ labels) ∧ Lib.Cyclic fun n d => d ∈ g.deps n := by
  obtain ⟨order, sorted, eq⟩ := topoOrder_eq ids deps fun n _ => inside n
  rw [h] at eq
  split_ifs at eq with short
  obtain ⟨_, -, loops, -⟩ := sorted.cycle ids inside short
  exact ⟨⟨_, Except.error.inj eq⟩, loops.cyclic⟩

end Graph

/-! ## Builders -/

namespace GraphBuilder

variable {b : GraphBuilder π}

/-- What the operations of a builder keep. -/
structure Kept (b : GraphBuilder π) : Prop where
  ids : b.nodes.map Node.id = List.range b.nodes.length
  nodup : ∀ n, (b.soft n).Nodup ∧ (b.hard n).Nodup
  outside : ∀ n, b.nodes.length ≤ n → b.soft n = [] ∧ b.hard n = []

theorem Made.kept (made : b.Made) : b.Kept := by
  induction made with
  | empty => exact ⟨rfl, fun _ => ⟨.nil, .nil⟩, fun _ _ => ⟨rfl, rfl⟩⟩
  | add made label group payload onFailure optional delayS override ih =>
    refine ⟨?_, ih.nodup, fun n bound => ih.outside n ?_⟩
    · simp [GraphBuilder.add, ih.ids, List.range_succ]
    · simp only [GraphBuilder.add, List.length_append, List.length_singleton] at bound
      omega
  | @require b made nid there deps ih =>
    refine ⟨ih.ids, fun n => ⟨(ih.nodup n).1, ?_⟩, fun n bound => ⟨(ih.outside n bound).1, ?_⟩⟩
    · simp only [GraphBuilder.require, Function.update_apply]
      split_ifs with same
      · exact List.Nodup.union _ (ih.nodup nid).2
      · exact (ih.nodup n).2
    · have other : n ≠ nid := Nat.ne_of_gt (Nat.lt_of_lt_of_le there bound)
      simpa [GraphBuilder.require, Function.update_of_ne other] using (ih.outside n bound).2
  | @order b made nid there deps ih =>
    refine ⟨ih.ids, fun n => ⟨?_, (ih.nodup n).2⟩, fun n bound => ⟨?_, (ih.outside n bound).2⟩⟩
    · simp only [GraphBuilder.order, Function.update_apply]
      split_ifs with same
      · exact List.Nodup.union _ (ih.nodup nid).1
      · exact (ih.nodup n).1
    · have other : n ≠ nid := Nat.ne_of_gt (Nat.lt_of_lt_of_le there bound)
      simpa [GraphBuilder.order, Function.update_of_ne other] using (ih.outside n bound).1

theorem mem_order {nid n d : ℕ} {deps : List ℕ} :
    d ∈ (b.order nid deps).soft n ↔ n = nid ∧ d ∈ deps ∨ d ∈ b.soft n := by
  simp only [GraphBuilder.order, Function.update_apply]
  split_ifs with same
  · simp [same]
  · simp [same]

theorem Kept.mem_ids (h : b.Kept) {n : ℕ} : n ∈ b.nodes.map Node.id ↔ n < b.nodes.length := by
  rw [h.ids, List.mem_range]

/-- **A graph that `build` returns is valid.** -/
theorem Made.valid {g : Graph π} (made : b.Made) (h : b.build = .ok g) : g.Valid := by
  have kept := made.kept
  obtain ⟨order, sorted⟩ : ∃ order, b.frozen.topoOrder = .ok order := by
    cases sorted : b.frozen.topoOrder with
    | error message => simp [build, sorted, bind, Except.bind] at h
    | ok order => exact ⟨order, rfl⟩
  obtain rfl := build_eq_ok h
  have ids : (b.frozen.nodes.map Node.id).Nodup := kept.ids ▸ List.nodup_range
  have outside (n : ℕ) (missing : n ∉ b.frozen.nodes.map Node.id) : b.frozen.deps n = [] := by
    have none := kept.outside n (Nat.not_lt.1 fun bound => missing (kept.mem_ids.2 bound))
    simp [frozen, none.1, none.2]
  obtain ⟨known, acyclic⟩ := Graph.acyclic_of_topoOrder ids (fun n => List.Nodup.union _ (kept.nodup n).2) outside sorted
  refine ⟨ids, frozen_hard, fun n d dep => ⟨?_, known n d dep⟩, acyclic⟩
  by_contra missing
  simp [outside n missing] at dep

/-- **`build` returns** unless there is a cycle. -/
theorem Made.cyclic {message : String} (made : b.Made) (inside : ∀ n, ∀ d ∈ b.frozen.deps n, d < b.nodes.length)
    (h : b.build = .error message) :
    (∃ labels, message = "dependency cycle in graph: " ++ labels) ∧ Lib.Cyclic fun n d => d ∈ b.frozen.deps n := by
  have kept := made.kept
  have sorted : b.frozen.topoOrder = .error message := by
    cases sorted : b.frozen.topoOrder with
    | error message' => simpa [build, sorted, bind, Except.bind] using h
    | ok order => simp [build, sorted, bind, Except.bind, pure, Except.pure] at h
  exact Graph.cyclic_of_topoOrder (kept.ids ▸ List.nodup_range) (fun n => List.Nodup.union _ (kept.nodup n).2)
    (fun n d dep => kept.mem_ids.2 (inside n d dep)) sorted

end GraphBuilder

end SensorKit.Common
