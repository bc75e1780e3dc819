import SensorKit.Data.GraphComponents
import SensorKit.Lib.BreadthFirst

/-!
# Starting a graph

`start` goes through the sources in the order of their set. It validates each component in breadth-first order and then
starts its runner, before it comes to the next one.
-/

namespace SensorKit.Data

open Lib

variable {g : DataGraph} {source name : String} {visited queue order : List String} {fuel : ℕ}

namespace DataGraph

/-- The loop of `start`: the runners that have been started, and what it raises. -/
def startEach (g : DataGraph) (runners : List String) : List String → List String × Except DataGraphError Unit
  | [] => (runners, .ok ())
  | source :: rest =>
    match g.validateComponent source with
    | .error error => (runners, .error error)
    | .ok _ => g.startEach (runners ++ [source]) rest

/-- `start`, for the order in which the set of sources is iterated. -/
def startRunners (g : DataGraph) (order : List String) : List String × Except DataGraphError Unit :=
  if order.isEmpty then ([], .error (.source "no sources defined")) else g.startEach [] order

/-- Without its runners, this is `start`. -/
theorem start_eq : g.start = (g.startRunners g.sources).2 := by
  have each (runners order : List String) :
      (order.forM fun source => do let _visited ← g.validateComponent source) = (g.startEach runners order).2 := by
    induction order generalizing runners with
    | nil => rfl
    | cons source rest ih =>
      rw [List.forM, startEach]
      cases g.validateComponent source with
      | error => rfl
      | ok visited => exact ih _
  unfold start startRunners
  split_ifs
  · rfl
  · exact each [] g.sources

/-- The outputs of a node. -/
def next (g : DataGraph) (name : String) : List String :=
  (g.nodes.get? name).elim [] (·.output)

/-- The source reaches a node on a cycle. -/
def ReachesCycle (g : DataGraph) (source : String) : Prop :=
  ∃ name, g.Reachable source name ∧ Relation.TransGen g.FlowsTo name name

/-- The source reaches another source. -/
def ReachesSource (g : DataGraph) (source : String) : Prop :=
  ∃ name ∈ g.sources, name ≠ source ∧ g.Reachable source name

/-- Nodes taken in breadth-first order, none twice, and no other source among them. -/
structure Apart (g : DataGraph) (source : String) (taken : List String) : Prop where
  nodup : taken.Nodup
  alone : ∀ name ∈ taken, name ∈ g.sources → name = source

/-- From the source, no node is met twice and no other source. -/
def Branches (g : DataGraph) (source : String) : Prop :=
  ∃ taken, Walked g.next source taken ∧ source :: taken.flatMap g.next = taken ∧ g.Apart source taken

/-- In breadth-first order from the source, another source is met before a node is met again. -/
def MeetsSource (g : DataGraph) (source : String) : Prop :=
  ∃ taken name, Walked g.next source (taken ++ [name]) ∧ g.Apart source taken ∧ name ∉ taken ∧
    name ∈ g.sources ∧ name ≠ source

/-- In breadth-first order from the source, a node is met again before another source is met. -/
def MeetsAgain (g : DataGraph) (source : String) : Prop :=
  ∃ taken name, Walked g.next source (taken ++ [name]) ∧ g.Apart source taken ∧ name ∈ taken

theorem mem_sources : name ∈ g.sources ↔ ∃ node, g.nodes.get? name = some node ∧ node.isSource = true := by
  unfold sources
  simp only [List.mem_map, List.mem_filter, Dict.get?_eq_some]
  constructor
  · rintro ⟨⟨key, node⟩, ⟨mem, isSource⟩, rfl⟩
    exact ⟨node, mem, isSource⟩
  · rintro ⟨node, mem, isSource⟩
    exact ⟨(name, node), ⟨mem, isSource⟩, rfl⟩

theorem mem_next {other : String} : other ∈ g.next name ↔ g.FlowsTo name other := by
  unfold next FlowsTo
  cases g.nodes.get? name <;> simp

/-! ## Validation -/

section

variable (defined : ∀ name ∈ g.nodes.keys, ∀ other ∈ g.next name, other ∈ g.nodes.keys)
include defined

/-- What the traversal comes to. -/
theorem visit_outcome (walked : Walked g.next source visited)
    (pending : source :: visited.flatMap g.next = visited ++ queue) (apart : g.Apart source visited)
    (known : ∀ name ∈ visited ++ queue, name ∈ g.nodes.keys) (enough : g.nodes.keys.length < visited.length + fuel) :
    (∃ result, g.visit source fuel queue visited = .ok result ∧ g.Branches source) ∨
      (∃ message, g.visit source fuel queue visited = .error (.source message) ∧ g.MeetsSource source) ∨
      ∃ message, g.visit source fuel queue visited = .error (.cycle message) ∧ g.MeetsAgain source := by
  induction fuel generalizing visited queue with
  | zero =>
    have short := (List.subperm_of_subset apart.nodup fun name mem => known name (List.mem_append_left _ mem)).length_le
    omega
  | succ fuel ih =>
    cases queue with
    | nil =>
      rw [List.append_nil] at pending
      exact .inl ⟨visited, rfl, visited, walked, pending, apart⟩
    | cons name queue =>
      obtain ⟨taken, pending'⟩ := walked.take pending
      have here : name ∈ g.nodes.keys := known name (by simp)
      obtain ⟨node, found⟩ := Dict.mem_keys.1 here
      unfold visit
      split_ifs with again
      · exact .inr (.inr ⟨_, rfl, visited, name, taken, apart, again⟩)
      · rw [found]
        dsimp only
        split_ifs with other
        · exact .inr (.inl ⟨_, rfl, visited, name, taken, apart, again, mem_sources.2 ⟨node, found, other.2⟩, other.1⟩)
        · have output : node.output = g.next name := by
            unfold next
            rw [found]
            rfl
          rw [output]
          apply ih taken pending'
          · constructor
            · exact apart.nodup.append (List.nodup_singleton name) (by simpa using again)
            · intro n mem isSource
              rcases mem_snoc.1 mem with mem | mem
              · exact apart.alone n mem isSource
              · rw [mem] at isSource ⊢
                obtain ⟨node', found', isSource⟩ := mem_sources.1 isSource
                cases found.symm.trans found'
                by_contra ne
                exact other ⟨ne, isSource⟩
          · intro n mem
            simp only [List.mem_append, List.mem_singleton] at mem
            rcases mem with (mem | rfl) | mem | mem
            · exact known n (by simp [mem])
            · exact here
            · exact known n (by simp [mem])
            · exact defined name here n mem
          · rw [List.length_append, List.length_singleton]
            omega

theorem validate_outcome (mem : source ∈ g.sources) :
    (∃ visited, g.validateComponent source = .ok visited ∧ g.Branches source) ∨
      (∃ message, g.validateComponent source = .error (.source message) ∧ g.MeetsSource source) ∨
      ∃ message, g.validateComponent source = .error (.cycle message) ∧ g.MeetsAgain source := by
  obtain ⟨node, found, -⟩ := mem_sources.1 mem
  unfold validateComponent
  rw [if_pos mem]
  apply visit_outcome defined .nil rfl
  · exact ⟨.nil, by simp⟩
  · intro name here
    rw [List.mem_singleton.1 here]
    exact Dict.mem_keys.2 ⟨node, found⟩
  · simp

end

/-- A source that is met is not met where no node is met twice. -/
theorem Branches.not_meetsSource (branches : g.Branches source) : ¬ g.MeetsSource source := by
  rintro ⟨taken', name, walked', -, -, isSource, ne⟩
  obtain ⟨taken, walked, ended, apart⟩ := branches
  have isPrefix := walked'.prefix_of_length_le walked (walked.length_le_of_ended ended walked')
  exact ne (apart.alone name (isPrefix.subset (by simp)) isSource)

theorem Branches.not_meetsAgain (branches : g.Branches source) : ¬ g.MeetsAgain source := by
  rintro ⟨taken', name, walked', -, again⟩
  obtain ⟨taken, walked, ended, apart⟩ := branches
  have isPrefix := walked'.prefix_of_length_le walked (walked.length_le_of_ended ended walked')
  have nodup := isPrefix.sublist.nodup apart.nodup
  exact (List.nodup_append.1 nodup).2.2 name again name List.mem_cons_self rfl

theorem MeetsSource.not_meetsAgain (meets : g.MeetsSource source) : ¬ g.MeetsAgain source := by
  rintro ⟨taken', name', walked', apart', again⟩
  obtain ⟨taken, name, walked, apart, fresh, isSource, ne⟩ := meets
  rcases Nat.lt_trichotomy taken.length taken'.length with short | same | long
  · have isPrefix := walked.prefix_of_length_le walked'.init (by simpa using Nat.succ_le_of_lt short)
    exact ne (apart'.alone name (isPrefix.subset (by simp)) isSource)
  · have lengths : (taken ++ [name]).length = (taken' ++ [name']).length := by simp [same]
    have eq := (walked.prefix_of_length_le walked' (Nat.le_of_eq lengths)).eq_of_length lengths
    obtain ⟨rfl, single⟩ := List.append_inj' eq rfl
    obtain ⟨rfl, -⟩ := List.cons.inj single
    exact fresh again
  · have isPrefix := walked'.prefix_of_length_le walked.init (by simpa using Nat.succ_le_of_lt long)
    have nodup := isPrefix.sublist.nodup apart.nodup
    exact (List.nodup_append.1 nodup).2.2 name' again name' List.mem_cons_self rfl

theorem reachable_iff : g.Reachable source name ↔ Relation.ReflTransGen (fun a b => b ∈ g.next a) source name := by
  have same : g.FlowsTo = fun a b => b ∈ g.next a := by
    funext a b
    exact propext mem_next.symm
  unfold Reachable
  rw [same]

theorem Branches.not_reachesSource (branches : g.Branches source) : ¬ g.ReachesSource source := by
  rintro ⟨name, isSource, ne, path⟩
  obtain ⟨taken, walked, ended, apart⟩ := branches
  exact ne (apart.alone name (mem_of_reached ended (reachable_iff.1 path)) isSource)

theorem MeetsSource.reachesSource (meets : g.MeetsSource source) : g.ReachesSource source := by
  obtain ⟨taken, name, walked, -, -, isSource, ne⟩ := meets
  exact ⟨name, isSource, ne, reachable_iff.2 (walked.reached (by simp))⟩

/-! ## Starting -/

/-- `start` raises the right error where there is one, and has then started no runner; otherwise it starts one for each
source. Graphs without cycles are accepted if no source reaches another. -/
structure StartsExactly (g : DataGraph) (order : List String) : Prop where
  cycle : ∀ message, (g.startRunners order).2 = .error (.cycle message) → ∃ source ∈ g.sources, g.ReachesCycle source
  source : (g.sources = [] ∨ ∃ source ∈ g.sources, g.ReachesSource source) →
    ∃ message, (g.startRunners order).2 = .error (.source message)
  atomic : ∀ error, (g.startRunners order).2 = .error error → (g.startRunners order).1 = []
  started : (g.startRunners order).2 = .ok () → (g.startRunners order).1 = order
  accepted : g.sources ≠ [] → (∀ source ∈ g.sources, ¬ g.ReachesCycle source) →
    (∀ source ∈ g.sources, ¬ g.ReachesSource source) → (g.startRunners order).2 = .ok ()

theorem startEach_ok {runners : List String} (all : ∀ source ∈ order, ∃ visited, g.validateComponent source = .ok visited) :
    g.startEach runners order = (runners ++ order, .ok ()) := by
  induction order generalizing runners with
  | nil => rw [startEach, List.append_nil]
  | cons source rest ih =>
    obtain ⟨visited, validated⟩ := all source List.mem_cons_self
    rw [startEach, validated]
    dsimp only
    rw [ih fun other mem => all other (List.mem_cons_of_mem _ mem), List.append_assoc]
    rfl

theorem startEach_error {runners : List String} {error : DataGraphError} (mem : source ∈ order)
    (fails : g.validateComponent source = .error error) : ∃ more error', g.startEach runners order =
      (runners ++ more, .error error') := by
  induction order generalizing runners with
  | nil => cases mem
  | cons first rest ih =>
    rw [startEach]
    cases validated : g.validateComponent first with
    | error error' => exact ⟨[], error', by rw [List.append_nil]⟩
    | ok visited =>
      rcases List.mem_cons.1 mem with rfl | mem
      · rw [fails] at validated
        cases validated
      · obtain ⟨more, error', started⟩ := @ih (runners ++ [first]) mem
        exact ⟨first :: more, error', by simpa using started⟩

/-- **Starting a graph** is exact if no component meets a node twice or another source; or if the first one that is
validated meets another source; or if it meets a node again, and there is a cycle and no source reaches another. -/
theorem startsExactly_iff (defined : ∀ name ∈ g.nodes.keys, ∀ other ∈ g.next name, other ∈ g.nodes.keys)
    (perm : order.Perm g.sources) : g.StartsExactly order ↔ (∀ source ∈ g.sources, g.Branches source) ∨
      ∃ first rest, order = first :: rest ∧ (g.MeetsSource first ∨ g.MeetsAgain first ∧
        (∃ source ∈ g.sources, g.ReachesCycle source) ∧ ∀ source ∈ g.sources, ¬ g.ReachesSource source) := by
  have outcome {source : String} (mem : source ∈ order) := validate_outcome defined (perm.subset mem)
  cases order with
  | nil =>
    have none : g.sources = [] := (List.Perm.nil_eq perm).symm
    refine iff_of_true ?_ (.inl (by simp [none]))
    constructor
    · intro message raised
      cases raised
    · exact fun _ => ⟨_, rfl⟩
    · exact fun _ _ => rfl
    · exact fun _ => rfl
    · exact fun some_ => absurd none some_
  | cons first rest =>
    have some_ : g.sources ≠ [] := by
      intro none
      rw [none] at perm
      simpa using perm.length_eq
    have run : g.startRunners (first :: rest) = g.startEach [] (first :: rest) := rfl
    constructor
    · intro exact_
      rcases outcome List.mem_cons_self with ⟨visited, validated, branches⟩ | ⟨message, fails, meets⟩ | ⟨message, fails, meets⟩
      · left
        by_contra notAll
        simp only [not_forall] at notAll
        obtain ⟨source, mem, not⟩ := notAll
        have mem' := perm.symm.subset mem
        obtain ⟨error, fails⟩ : ∃ error, g.validateComponent source = .error error := by
          rcases outcome mem' with ⟨_, _, branches⟩ | ⟨_, fails, _⟩ | ⟨_, fails, _⟩
          · exact absurd branches not
          · exact ⟨_, fails⟩
          · exact ⟨_, fails⟩
        have later : source ∈ rest := by
          rcases List.mem_cons.1 mem' with rfl | later
          · exact absurd branches not
          · exact later
        obtain ⟨more, error', started⟩ := @startEach_error g source rest [first] error later fails
        have whole : g.startRunners (first :: rest) = ([first] ++ more, .error error') := by
          rw [run, startEach, validated]
          exact started
        have nothing := exact_.atomic error' (by rw [whole])
        rw [whole] at nothing
        cases nothing
      · exact .inr ⟨first, rest, rfl, .inl meets⟩
      · have whole : g.startRunners (first :: rest) = ([], .error (.cycle message)) := by
          rw [run, startEach, fails]
        refine .inr ⟨first, rest, rfl, .inr ⟨meets, exact_.cycle message (by rw [whole]), fun source mem reaches => ?_⟩⟩
        obtain ⟨message', raised⟩ := exact_.source (.inr ⟨source, mem, reaches⟩)
        rw [whole] at raised
        cases raised
    · rintro (all | ⟨first', rest', same, meets⟩)
      · have accepted : ∀ source ∈ first :: rest, ∃ visited, g.validateComponent source = .ok visited := by
          intro source mem
          rcases outcome mem with ⟨visited, validated, -⟩ | ⟨_, _, meets⟩ | ⟨_, _, meets⟩
          · exact ⟨visited, validated⟩
          · exact absurd meets (all source (perm.subset mem)).not_meetsSource
          · exact absurd meets (all source (perm.subset mem)).not_meetsAgain
        have whole : g.startRunners (first :: rest) = (first :: rest, .ok ()) := by
          rw [run, startEach_ok accepted]
          rfl
        refine ⟨?_, ?_, ?_, fun _ => by rw [whole], fun _ _ _ => by rw [whole]⟩
        · intro message raised
          rw [whole] at raised
          cases raised
        · rintro (none | ⟨source, mem, reaches⟩)
          · exact absurd none some_
          · exact absurd reaches (all source mem).not_reachesSource
        · intro error raised
          rw [whole] at raised
          cases raised
      · obtain ⟨rfl, rfl⟩ := List.cons.inj same
        rcases meets with meets | ⟨meets, cycle, alone⟩
        · obtain ⟨message, fails⟩ : ∃ message, g.validateComponent first = .error (.source message) := by
            rcases outcome List.mem_cons_self with ⟨_, _, branches⟩ | ⟨message, fails, -⟩ | ⟨_, _, again⟩
            · exact absurd meets branches.not_meetsSource
            · exact ⟨message, fails⟩
            · exact absurd again meets.not_meetsAgain
          have whole : g.startRunners (first :: rest) = ([], .error (.source message)) := by
            rw [run, startEach, fails]
          have mem := perm.subset (show first ∈ first :: rest from List.mem_cons_self)
          constructor
          · intro message' raised
            rw [whole] at raised
            cases raised
          · exact fun _ => ⟨message, by rw [whole]⟩
          · exact fun _ _ => by rw [whole]
          · intro ok
            rw [whole] at ok
            cases ok
          · exact fun _ _ alone => absurd meets.reachesSource (alone first mem)
        · obtain ⟨message, fails⟩ : ∃ message, g.validateComponent first = .error (.cycle message) := by
            rcases outcome List.mem_cons_self with ⟨_, _, branches⟩ | ⟨_, _, meets'⟩ | ⟨message, fails, -⟩
            · exact absurd meets branches.not_meetsAgain
            · exact absurd meets meets'.not_meetsAgain
            · exact ⟨message, fails⟩
          have whole : g.startRunners (first :: rest) = ([], .error (.cycle message)) := by
            rw [run, startEach, fails]
          constructor
          · exact fun _ _ => cycle
          · rintro (none | ⟨source, mem, reaches⟩)
            · exact absurd none some_
            · exact absurd reaches (alone source mem)
          · exact fun _ _ => by rw [whole]
          · intro ok
            rw [whole] at ok
            cases ok
          · obtain ⟨source, mem, reaches⟩ := cycle
            exact fun _ acyclic _ => absurd reaches (acyclic source mem)

end DataGraph

/-- A camera whose frames go two ways that come together again. -/
def diamond : DataGraph where
  nodes := .ofList [("camera", { isSource := true, output := ["dark", "flat"] }), ("dark", { output := ["write"] }),
    ("flat", { output := ["write"] }), ("write", {})]

/-- The diamond has no cycle, and is rejected for one. -/
theorem diamond_rejected : ¬ diamond.StartsExactly ["camera"] := by
  intro exact_
  have raised : (diamond.startRunners ["camera"]).2 = .error (.cycle "cycle detected at node 'write'") := by
    decide +kernel
  obtain ⟨source, -, name, -, cycle⟩ := exact_.cycle _ raised
  -- The edges go up in this order.
  let rank (name : String) : ℕ := if name = "camera" then 0 else if name = "write" then 2 else 1
  have rises (a b : String) (flows : diamond.FlowsTo a b) : rank a < rank b := by
    obtain ⟨node, found, output⟩ := flows
    have mem := Dict.get?_eq_some.1 found
    have entries : diamond.nodes.entries = [("camera", { isSource := true, output := ["dark", "flat"] }),
      ("dark", { output := ["write"] }), ("flat", { output := ["write"] }), ("write", {})] := by decide +kernel
    rw [entries] at mem
    simp only [List.mem_cons, Prod.mk.injEq, List.not_mem_nil, or_false] at mem
    rcases mem with ⟨rfl, rfl⟩ | ⟨rfl, rfl⟩ | ⟨rfl, rfl⟩ | ⟨rfl, rfl⟩
    · rcases List.mem_cons.1 output with rfl | output
      · decide
      · rw [List.mem_singleton.1 output]
        decide
    · rw [List.mem_singleton.1 output]
      decide
    · rw [List.mem_singleton.1 output]
      decide
    · cases output
  have rising (a b : String) (path : Relation.TransGen diamond.FlowsTo a b) : rank a < rank b := by
    induction path with
    | single flows => exact rises _ _ flows
    | tail _ flows ih => exact Nat.lt_trans ih (rises _ _ flows)
  exact Nat.lt_irrefl _ (rising name name cycle)

/-- A camera whose frames are written. -/
def pipeline : DataGraph where
  nodes := .ofList [("camera", { isSource := true, output := ["write"] }), ("write", {})]

theorem startsExactly_iff_example : pipeline.StartsExactly ["camera"] := by
  have sources : pipeline.sources = ["camera"] := by decide +kernel
  have defined : ∀ name ∈ pipeline.nodes.keys, ∀ other ∈ pipeline.next name, other ∈ pipeline.nodes.keys := by
    decide +kernel
  refine (DataGraph.startsExactly_iff defined (by rw [sources])).2 (.inl fun source mem => ?_)
  rw [sources] at mem
  rw [List.mem_singleton.1 mem]
  have first : Walked pipeline.next "camera" ["camera"] := .snoc .nil (by decide +kernel)
  have second : Walked pipeline.next "camera" ["camera", "write"] := .snoc first (by decide +kernel)
  refine ⟨["camera", "write"], second, by decide +kernel, by decide, ?_⟩
  rw [sources]
  simp

end SensorKit.Data
