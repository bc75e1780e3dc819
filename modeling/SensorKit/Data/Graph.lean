import SensorKit.Lib.Dict
import SensorKit.Lib.Fallible
import SensorKit.Lib.Run

/-!
# Data graphs

A `DataGraph` is a table of operations, each with the names that its output goes to. The runner of a source starts the
`process` of the nodes again for each item that the source's generator announces.
-/

namespace SensorKit.Data

open Lib

/-! ## Graphs -/

/-- A node: whether it is a source or a sink, and where its output goes. -/
structure DataOp where
  isSource : Bool := false
  isSink : Bool := false
  output : List String := []
deriving DecidableEq, Repr

inductive DataGraphError where
  | graph (message : String)
  | cycle (message : String)
  | source (message : String)
deriving DecidableEq, Repr

structure DataGraph where
  nodes : Dict String DataOp

namespace DataGraph

variable (g : DataGraph) (source : String)

def sources : List String :=
  (g.nodes.entries.filter (·.2.isSource)).map Prod.fst

/-- The loop of `_validate_component`, over its queue. A node is visited once, so that there are at most as many turns
as nodes. -/
def visit : ℕ → List String → List String → Except DataGraphError (List String)
  | _, [], visited => .ok visited
  | 0, name :: _, _ => .error (.cycle ("cycle detected at node '" ++ name ++ "'"))
  | fuel + 1, name :: queue, visited =>
    if name ∈ visited then .error (.cycle ("cycle detected at node '" ++ name ++ "'"))
    else match g.nodes.get? name with
      | none => .error (.graph ("node '" ++ name ++ "' is undefined"))
      | some node =>
        if name ≠ source ∧ node.isSource = true then
          .error (.source ("multiple sources in traversal at '" ++ source ++ "'"))
        else visit fuel (queue ++ node.output) (visited ++ [name])

/-- The nodes of the component of the source. -/
def validateComponent : Except DataGraphError (List String) :=
  if source ∈ g.sources then g.visit source (g.nodes.keys.length + 1) [source] []
  else .error (.source ("source '" ++ source ++ "' is undefined"))

/-- Validate every component. Each source then has a runner of its own. -/
def start : Except DataGraphError Unit := do
  if g.sources.isEmpty then throw (.source "no sources defined")
  g.sources.forM fun source => do
    let _visited ← g.validateComponent source

end DataGraph

/-! ## The flows of a run -/

/-- An edge of a run: the one that is injected for the source, or one for an output of a node. -/
inductive DataFlow where
  | injected
  | edge (producer : String) (output : ℕ)
deriving DecidableEq, Repr

/-- Lists by key; a key that is not there has none. -/
def listed {α : Type} (d : Dict String (List α)) (key : String) : List α :=
  (d.get? key).getD []

def push {α : Type} (d : Dict String (List α)) (key : String) (x : α) : Dict String (List α) :=
  d.insert key (listed d key ++ [x])

structure Flows where
  incoming : Dict String (List DataFlow) := .empty
  outgoing : Dict String (List DataFlow) := .empty

/-- An edge from the node to the `output.2`-th of its outputs. -/
def Flows.edge (name : String) (flows : Flows) (output : String × ℕ) : Flows where
  incoming := push flows.incoming output.1 (.edge name output.2)
  outgoing := push flows.outgoing name (.edge name output.2)

/-- The edges of a node, and the injected one. -/
def Flows.node (source : String) (flows : Flows) (entry : String × DataOp) : Flows :=
  let flows := entry.2.output.zipIdx.foldl (Flows.edge entry.1) flows
  if entry.1 = source then { flows with incoming := push flows.incoming entry.1 .injected } else flows

/-- A task for the `process` of a node. -/
structure NodeTask where
  name : String
  incoming : List DataFlow
  outgoing : List DataFlow
deriving DecidableEq, Repr

/-- `_run_tasks`: the edges and the tasks of a run. -/
def DataGraph.runTasks (g : DataGraph) (source : String) : List NodeTask :=
  let flows := g.nodes.entries.foldl (Flows.node source) {}
  g.nodes.entries.map fun entry =>
    { name := entry.1, incoming := listed flows.incoming entry.1, outgoing := listed flows.outgoing entry.1 }

/-! ## The runner -/

/-- The async generator that `graph_source` returned. -/
inductive Generator where
  | unprimed
  | suspended
  | running
  | finished
deriving DecidableEq, Repr

/-- A run of the graph: the task group, and what its body has come to. -/
structure GraphRun where
  tasks : List NodeTask
  going : List String
  failed : List String := []
  sendCalled : Bool := false
  left : Bool := false
  /-- The generator has stopped producing. -/
  stopped : Bool := false
  /-- The generator has raised. -/
  raised : Bool := false
  shutdown : Bool := false
deriving DecidableEq, Repr

structure DataGraphRunner where
  graph : DataGraph
  source : String
  generator : Generator := .unprimed
  run : Option GraphRun := none
  /-- The last run failed, though the source would go on. -/
  lastFailed : Bool := false
  ended : Bool := false

inductive RunnerLabel where
  /-- The generator comes to its first `yield`, or raises before. -/
  | prime (ok : Bool)
  | begin
  /-- The generator calls `send` on the injected edge. -/
  | send
  | yields
  | returns
  | raises
  /-- A node has failed while the generator was at work, and the cancellation ends it. -/
  | cancelled
  | ends (name : String)
  | fails (name : String)
  | finish
deriving DecidableEq, Repr

namespace DataGraphRunner

/-- The generator has left the body of the task group in this way. -/
def leave (s : DataGraphRunner) (generator : Generator) (update : GraphRun → GraphRun) : Option DataGraphRunner :=
  match s.run with
  | some run =>
    if s.generator = .running ∧ run.left = false then
      some { s with generator, run := some (update { run with left := true }) }
    else none
  | none => none

/-- The task of the node ends in this way. -/
def endTask (s : DataGraphRunner) (name : String) (update : GraphRun → GraphRun) : Option DataGraphRunner :=
  match s.run with
  | some run => if name ∈ run.going then some { s with run := some (update { run with going := run.going.erase name }) }
    else none
  | none => none

/-- `_run_graph`, between its awaits. -/
def step (s : DataGraphRunner) : RunnerLabel → Option DataGraphRunner
  | .prime ok =>
    if s.generator = .unprimed then
      if ok then some { s with generator := .suspended } else some { s with generator := .finished, ended := true }
    else none
  | .begin =>
    if s.ended = false ∧ s.run = none then
      let tasks := s.graph.runTasks s.source
      let run : GraphRun := { tasks, going := tasks.map (·.name) }
      match s.generator with
      | .suspended => some { s with generator := .running, run := some run, lastFailed := false }
      -- `asend` raises `StopAsyncIteration` in the body.
      | .finished => some { s with run := some { run with left := true, stopped := true }, lastFailed := false }
      | .unprimed | .running => none
    else none
  | .send =>
    match s.run with
    | some run => if s.generator = .running then some { s with run := some { run with sendCalled := true } } else none
    | none => none
  | .yields => s.leave .suspended id
  | .returns => s.leave .finished fun run => { run with stopped := true }
  | .raises => s.leave .finished fun run => { run with raised := true }
  | .cancelled =>
    match s.run with
    | some run =>
      -- Only after `send` is the cancellation taken for a shutdown.
      if run.failed ≠ [] then s.leave .finished fun run => { run with shutdown := run.sendCalled } else none
    | none => none
  | .ends name => s.endTask name id
  | .fails name => s.endTask name fun run => { run with failed := run.failed ++ [name] }
  | .finish =>
    match s.run with
    | some run =>
      if run.left = true ∧ run.going = [] then some
        { s with
          run := none
          lastFailed := (!run.failed.isEmpty || run.raised) && !run.stopped
          ended := run.stopped || run.shutdown }
      else none
    | none => none

end DataGraphRunner

/-! ## Components -/

namespace DataGraph

variable (g : DataGraph) (source : String)

/-- The output of the node goes to the other. -/
def FlowsTo (name next : String) : Prop :=
  ∃ node, g.nodes.get? name = some node ∧ next ∈ node.output

/-- The nodes of the component of the source. -/
def Reachable : String → Prop :=
  Relation.ReflTransGen g.FlowsTo source

/-- The flow comes into the node: it is the injected one of the source, or that of an edge of the component. -/
def Feeds (name : String) : DataFlow → Prop
  | .injected => name = source
  | .edge producer output => g.Reachable source producer ∧
      ∃ node, g.nodes.get? producer = some node ∧ node.output[output]? = some name

/-- The tasks are those of the component, one for each node, with the flows of its edges. -/
structure RunsComponent (tasks : List NodeTask) : Prop where
  once : (tasks.map (·.name)).Nodup
  exactly : ∀ name, name ∈ tasks.map (·.name) ↔ g.Reachable source name
  incoming : ∀ t ∈ tasks, t.incoming.Nodup ∧ ∀ flow, flow ∈ t.incoming ↔ g.Feeds source t.name flow
  outgoing : ∀ t ∈ tasks, ∃ node, g.nodes.get? t.name = some node ∧
    t.outgoing = (List.range node.output.length).map (.edge t.name)

end DataGraph

/-- The runs of the source concern its component only, and a run that fails leaves the generator ready to be sent the
edge of the next run. -/
structure DataGraphRunner.Independent (s : DataGraphRunner) : Prop where
  component : ∀ run, s.run = some run → s.graph.RunsComponent s.source run.tasks
  failures : ∀ run, s.run = some run → ∀ name ∈ run.failed, s.graph.Reachable s.source name
  again : s.run = none → s.lastFailed = true → s.ended = false ∧ s.generator = .suspended

/-- The generator survives: it does not raise, and goes on to yield when the failure of a node cancels it. -/
def DataGraphRunner.Survives (_ : DataGraphRunner) (a : RunnerLabel) : Prop :=
  a ≠ .raises ∧ a ≠ .cancelled

/-- The runner that `start` makes for a source. -/
def DataGraph.runner (g : DataGraph) (source : String) : DataGraphRunner where
  graph := g
  source

end SensorKit.Data
