import Mathlib.Data.List.Perm.Subperm
import SensorKit.Data.Graph

/-!
# The component of a source

`_validate_component` visits the nodes that the source reaches. `_run_tasks` starts every node of the graph, and joins
it to all that flows into it: that is the component of the source where there are no other nodes, and only there.
-/

namespace SensorKit.Data

open Lib

variable {g : DataGraph} {source name : String} {visited queue result : List String} {fuel : ℕ}
  {entry : String × DataOp}

/-! ## Validation -/

namespace DataGraph

/-- A traversal that returns has visited what was queued and all that is reached from there. -/
theorem visit_eq_ok (h : g.visit source fuel queue visited = .ok result) :
    (∀ n ∈ visited, n ∈ result) ∧ (∀ n ∈ queue, n ∈ result) ∧
      (∀ n ∈ result, n ∈ visited ∨ ∃ node, g.nodes.get? n = some node ∧ ∀ m ∈ node.output, m ∈ result) ∧
      ∀ n ∈ result, n ∈ visited ∨ ∃ q ∈ queue, Relation.ReflTransGen g.FlowsTo q n := by
  fun_induction DataGraph.visit with
  | case1 fuel visited =>
    cases h
    exact ⟨fun _ => id, by simp, fun _ => .inl, fun _ => .inl⟩
  | case2 => cases h
  | case3 => cases h
  | case4 => cases h
  | case5 => cases h
  | case6 fuel name queue visited fresh node found single ih =>
    obtain ⟨kept, queued, closed, reached⟩ := ih h
    have here : name ∈ result := kept name (by simp)
    refine ⟨fun n mem => kept n (by simp [mem]), ?_, ?_, ?_⟩
    · intro n mem
      rcases List.mem_cons.1 mem with rfl | mem
      · exact here
      · exact queued n (by simp [mem])
    · intro n mem
      rcases closed n mem with seen | closed
      · rcases mem_snoc.1 seen with seen | rfl
        · exact .inl seen
        · exact .inr ⟨node, found, fun m output => queued m (by simp [output])⟩
      · exact .inr closed
    · intro n mem
      rcases reached n mem with seen | ⟨q, queued, path⟩
      · rcases mem_snoc.1 seen with seen | rfl
        · exact .inl seen
        · exact .inr ⟨n, by simp, .refl⟩
      · rcases List.mem_append.1 queued with queued | output
        · exact .inr ⟨q, by simp [queued], path⟩
        · exact .inr ⟨name, by simp, .head ⟨node, found, output⟩ path⟩

/-- **Validation returns the component**: the nodes that the source reaches, which are all defined. -/
theorem validateComponent_eq_ok (h : g.validateComponent source = .ok visited) :
    (∀ n, n ∈ visited ↔ g.Reachable source n) ∧ ∀ n ∈ visited, n ∈ g.nodes.keys := by
  unfold validateComponent at h
  split_ifs at h
  obtain ⟨-, start, closed, reached⟩ := visit_eq_ok h
  have defined (n : String) (mem : n ∈ visited) :
      ∃ node, g.nodes.get? n = some node ∧ ∀ m ∈ node.output, m ∈ visited :=
    (closed n mem).resolve_left List.not_mem_nil
  refine ⟨fun n => ⟨fun mem => ?_, fun path => ?_⟩, fun n mem => ?_⟩
  · obtain ⟨q, queued, path⟩ := (reached n mem).resolve_left List.not_mem_nil
    obtain rfl := List.mem_singleton.1 queued
    exact path
  · induction path with
    | refl => exact start source (by simp)
    | tail _ edge ih =>
      obtain ⟨node, found, output⟩ := edge
      obtain ⟨node', found', closed⟩ := defined _ ih
      cases found.symm.trans found'
      exact closed _ output
  · obtain ⟨node, found, -⟩ := defined n mem
    exact Dict.mem_keys.2 ⟨node, found⟩

/-- The fuel is enough: a traversal that has visited more nodes than there are has ended. -/
theorem visit_fuel (known : ∀ n ∈ visited, n ∈ g.nodes.keys) (nodup : visited.Nodup)
    (enough : g.nodes.keys.length < visited.length + fuel) :
    g.visit source (fuel + 1) queue visited = g.visit source fuel queue visited := by
  induction fuel generalizing queue visited with
  | zero =>
    have less : visited.length ≤ g.nodes.keys.length := (List.subperm_of_subset nodup known).length_le
    omega
  | succ fuel ih =>
    cases queue with
    | nil => rfl
    | cons name queue =>
      conv_lhs => unfold visit
      conv_rhs => unfold visit
      split_ifs with seen
      · rfl
      · cases found : g.nodes.get? name with
        | none => rfl
        | some node =>
          dsimp only
          split_ifs
          · rfl
          · refine ih ?_ ?_ ?_
            · intro n mem
              rcases mem_snoc.1 mem with mem | rfl
              · exact known n mem
              · exact Dict.mem_keys.2 ⟨node, found⟩
            · exact nodup.append (List.nodup_singleton name) (by simpa using seen)
            · simp only [List.length_append, List.length_singleton]
              omega

/-- **Validation ends**, whatever cycles there are: a traversal visits no more nodes than the graph has. -/
theorem visit_bounded (queue : List String) (more : ℕ) :
    g.visit source (g.nodes.keys.length + 1 + more) queue [] = g.visit source (g.nodes.keys.length + 1) queue [] := by
  induction more with
  | zero => rfl
  | succ more ih => rw [← Nat.add_assoc, visit_fuel (by simp) .nil (by rw [List.length_nil]; omega), ih]

/-- What an accepted graph reaches from one of its sources is defined. -/
theorem defined_of_start (accepted : g.start = .ok ()) (mem : source ∈ g.sources) (path : g.Reachable source name) :
    name ∈ g.nodes.keys := by
  unfold start at accepted
  split_ifs at accepted
  · cases accepted
  obtain ⟨visited, validated, -⟩ := bind_eq_ok.1 (forM_eq_ok.1 accepted source mem)
  obtain ⟨component, known⟩ := validateComponent_eq_ok validated
  exact known name ((component name).2 path)

end DataGraph

/-! ## The flows of a run -/

variable {α : Type} {d : Dict String (List α)} {key key' : String} {x : α}

theorem listed_push : listed (push d key x) key' = if key' = key then listed d key ++ [x] else listed d key' := by
  unfold listed push
  rw [Dict.get?_insert]
  split_ifs <;> rfl

/-- The edges of a node that go to another. -/
def edgesTo (producer name : String) (output : List (String × ℕ)) : List DataFlow :=
  (output.filter (·.1 = name)).map fun o => .edge producer o.2

theorem flows_edges (flows : Flows) (producer : String) (output : List (String × ℕ)) :
    (∀ name, listed (output.foldl (Flows.edge producer) flows).incoming name =
        listed flows.incoming name ++ edgesTo producer name output) ∧
      ∀ name, listed (output.foldl (Flows.edge producer) flows).outgoing name =
        listed flows.outgoing name ++ if name = producer then output.map fun o => .edge producer o.2 else [] := by
  induction output generalizing flows with
  | nil => simp [edgesTo]
  | cons o output ih =>
    obtain ⟨incoming, outgoing⟩ := ih (flows.edge producer o)
    constructor
    · intro name
      rw [List.foldl_cons, incoming]
      unfold Flows.edge edgesTo
      rw [listed_push]
      by_cases here : o.1 = name
      · simp [here]
      · simp [here, Ne.symm here]
    · intro name
      rw [List.foldl_cons, outgoing]
      unfold Flows.edge
      rw [listed_push]
      by_cases here : name = producer <;> simp [here]

/-- What flows into a node from another, with what is injected. -/
def flowsFrom (source name : String) (entry : String × DataOp) : List DataFlow :=
  edgesTo entry.1 name entry.2.output.zipIdx ++ if entry.1 = source ∧ name = source then [.injected] else []

theorem flows_node {flows : Flows} :
    (∀ name, listed (flows.node source entry).incoming name =
        listed flows.incoming name ++ flowsFrom source name entry) ∧
      ∀ name, listed (flows.node source entry).outgoing name = listed flows.outgoing name ++
        if name = entry.1 then entry.2.output.zipIdx.map fun o => .edge entry.1 o.2 else [] := by
  obtain ⟨incoming, outgoing⟩ := flows_edges flows entry.1 entry.2.output.zipIdx
  unfold Flows.node flowsFrom
  dsimp only
  constructor
  · intro name
    split_ifs with here both both
    · rw [listed_push, if_pos (both.2.trans here.symm), incoming]
      rw [← here] at both
      simp [both.2]
    · rw [listed_push, if_neg (fun same => both ⟨here, same.trans here⟩), incoming]
      simp
    · exact absurd both.1 here
    · rw [incoming]
      simp
  · intro name
    split_ifs <;> rw [outgoing] <;> simp_all

theorem flows_nodes (flows : Flows) (entries : List (String × DataOp)) :
    (∀ name, listed (entries.foldl (Flows.node source) flows).incoming name =
        listed flows.incoming name ++ entries.flatMap (flowsFrom source name)) ∧
      ∀ name, listed (entries.foldl (Flows.node source) flows).outgoing name = listed flows.outgoing name ++
        entries.flatMap fun e => if name = e.1 then e.2.output.zipIdx.map fun o => .edge e.1 o.2 else [] := by
  induction entries generalizing flows with
  | nil => simp
  | cons entry entries ih =>
    obtain ⟨incoming, outgoing⟩ := ih (flows.node source entry)
    constructor
    · intro name
      rw [List.foldl_cons, incoming, flows_node.1, List.flatMap_cons, List.append_assoc]
    · intro name
      rw [List.foldl_cons, outgoing, flows_node.2, List.flatMap_cons, List.append_assoc]

/-- The outputs in their order, each with an edge. -/
theorem edges_eq {node : DataOp} :
    (node.output.zipIdx.map fun o => DataFlow.edge name o.2) = (List.range node.output.length).map (.edge name) := by
  rw [List.range_eq_range', ← List.zipIdx_map_snd 0 node.output, List.map_map]
  rfl

theorem mem_flowsFrom {flow : DataFlow} :
    flow ∈ flowsFrom source name entry ↔
      (∃ k, flow = .edge entry.1 k ∧ entry.2.output[k]? = some name) ∨
        flow = .injected ∧ entry.1 = source ∧ name = source := by
  unfold flowsFrom edgesTo
  simp only [List.mem_append, List.mem_map, List.mem_filter, decide_eq_true_eq]
  refine or_congr ⟨?_, ?_⟩ ?_
  · rintro ⟨⟨_, k⟩, ⟨mem, rfl⟩, rfl⟩
    exact ⟨k, rfl, List.mem_zipIdx_iff_getElem?.1 mem⟩
  · rintro ⟨k, rfl, there⟩
    exact ⟨(name, k), ⟨List.mem_zipIdx_iff_getElem?.2 there, rfl⟩, rfl⟩
  · by_cases both : entry.1 = source ∧ name = source <;> simp [both]

theorem nodup_flowsFrom : (flowsFrom source name entry).Nodup := by
  unfold flowsFrom edgesTo
  refine List.Nodup.append ?_ ?_ ?_
  · have indices : ((entry.2.output.zipIdx.filter (·.1 = name)).map Prod.snd).Nodup := by
      refine (List.filter_sublist.map Prod.snd).nodup ?_
      rw [List.zipIdx_map_snd]
      exact List.nodup_range'
    have edges := indices.map (f := DataFlow.edge entry.1) fun _ _ same => (DataFlow.edge.inj same).2
    rwa [List.map_map] at edges
  · split_ifs <;> simp
  · intro flow edge injected
    obtain ⟨o, -, rfl⟩ := List.mem_map.1 edge
    split_ifs at injected <;> simp at injected

namespace DataGraph

/-- The flows of a run come from the nodes of the graph. -/
theorem mem_runTasks {t : NodeTask} (mem : t ∈ g.runTasks source) :
    (∃ node, (t.name, node) ∈ g.nodes.entries ∧
        t.outgoing = (List.range node.output.length).map (.edge t.name)) ∧
      t.incoming = g.nodes.entries.flatMap (flowsFrom source t.name) := by
  unfold runTasks at mem
  obtain ⟨⟨n, node⟩, here, rfl⟩ := List.mem_map.1 mem
  obtain ⟨incoming, outgoing⟩ := flows_nodes {} g.nodes.entries
  refine ⟨⟨node, here, ?_⟩, ?_⟩
  · refine (outgoing n).trans ?_
    obtain ⟨pre, post, split⟩ := List.append_of_mem here
    have nodup := g.nodes.nodup
    rw [split, List.map_append, List.map_cons, List.nodup_append, List.nodup_cons] at nodup
    obtain ⟨-, ⟨after, -⟩, before⟩ := nodup
    have none_ (entries : List (String × DataOp)) (apart : n ∉ entries.map Prod.fst) :
        (entries.flatMap fun e => if n = e.1 then e.2.output.zipIdx.map fun o => DataFlow.edge e.1 o.2 else []) = [] := by
      refine List.flatMap_eq_nil_iff.2 fun e inside => ?_
      rw [if_neg]
      intro same
      exact apart (same ▸ List.mem_map_of_mem inside)
    rw [split, List.flatMap_append, List.flatMap_cons, none_ pre (fun mem => before n mem n (by simp) rfl),
      none_ post after, if_pos rfl, edges_eq]
    simp [listed]
  · refine (incoming n).trans ?_
    simp [listed]

/-- **What a run starts** is the component of its source just where there are no other nodes. -/
theorem runsComponent_iff (accepted : g.start = .ok ()) (mem : source ∈ g.sources) :
    g.RunsComponent source (g.runTasks source) ↔ ∀ name ∈ g.nodes.keys, g.Reachable source name := by
  have names : (g.runTasks source).map (·.name) = g.nodes.keys := by
    unfold runTasks Dict.keys
    rw [List.map_map]
    rfl
  constructor
  · intro runs name here
    exact (runs.exactly name).1 (names ▸ here)
  · intro whole
    refine ⟨names ▸ g.nodes.nodup, ?_, ?_, ?_⟩
    · intro name
      rw [names]
      exact ⟨whole name, defined_of_start accepted mem⟩
    · intro t here
      obtain ⟨-, incoming⟩ := mem_runTasks here
      rw [incoming]
      constructor
      · refine List.nodup_flatMap.2 ⟨fun e _ => nodup_flowsFrom, ?_⟩
        refine (List.pairwise_map.1 g.nodes.nodup).imp ?_
        intro e e' apart flow from_ from'
        rcases mem_flowsFrom.1 from_ with ⟨k, rfl, -⟩ | ⟨rfl, source_, -⟩
        · rcases mem_flowsFrom.1 from' with ⟨k', same, -⟩ | ⟨same, -⟩
          · exact apart (DataFlow.edge.inj same).1
          · cases same
        · rcases mem_flowsFrom.1 from' with ⟨k', same, -⟩ | ⟨-, source', -⟩
          · cases same
          · exact apart (source_.trans source'.symm)
      · intro flow
        rw [List.mem_flatMap]
        cases flow with
        | injected =>
          constructor
          · rintro ⟨e, -, from_⟩
            rcases mem_flowsFrom.1 from_ with ⟨k, same, -⟩ | ⟨-, -, here⟩
            · cases same
            · exact here
          · intro here
            obtain ⟨e, listed, source_⟩ := List.mem_map.1 mem
            exact ⟨e, List.mem_of_mem_filter listed, mem_flowsFrom.2 (.inr ⟨rfl, source_, here⟩)⟩
        | edge producer k =>
          constructor
          · rintro ⟨⟨n, node⟩, listed, from_⟩
            rcases mem_flowsFrom.1 from_ with ⟨k', same, output⟩ | ⟨same, -⟩
            · obtain ⟨rfl, rfl⟩ := DataFlow.edge.inj same
              exact ⟨whole _ (List.mem_map_of_mem listed), node, Dict.get?_eq_some.2 listed, output⟩
            · cases same
          · rintro ⟨-, node, found, output⟩
            exact ⟨(producer, node), Dict.get?_eq_some.1 found, mem_flowsFrom.2 (.inl ⟨k, rfl, output⟩)⟩
    · intro t here
      obtain ⟨⟨node, listed, outgoing⟩, -⟩ := mem_runTasks here
      exact ⟨node, Dict.get?_eq_some.2 listed, outgoing⟩

end DataGraph

end SensorKit.Data
