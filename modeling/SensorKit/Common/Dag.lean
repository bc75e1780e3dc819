import Mathlib.Algebra.Order.Ring.Rat
import SensorKit.Lib.Run

/-!
# Dependency graphs and their execution

`GraphBuilder` adds nodes and dependencies, and checks for cycles. A hard dependency asks for
success, any other for completion only. `RunState` keeps what has resolved, what is in flight and
what is left, and `Execution` is one run of `DagRunner.execute`: its steps are the calls of the
dispatcher, the ends of the tasks, the wakes of the runner, and the cancellations that reach it.
-/

namespace SensorKit.Common

open Lib

/-- How far a node's failure spreads. -/
inductive OnFailure where
  | stop
  | skip
  | «continue»
deriving DecidableEq, Repr

/-- How a node ended, as its result says. -/
inductive Status where
  | ok
  | failed
  | skipped
  | cancelled
deriving DecidableEq, Repr

/-- What to record for a node instead of dispatching it: `ok`, or else `skipped`. -/
structure NodeOverride where
  ok : Bool
  reason : String
deriving DecidableEq, Repr

variable {π : Type}

structure Node (π : Type) where
  id : ℕ
  /-- One-line description. -/
  label : String
  group : String
  payload : π
  onFailure : OnFailure := .stop
  optional : Bool := false
  /-- Timed start after the dependencies resolve. -/
  delayS : ℚ := 0
  override : Option NodeOverride := none
deriving DecidableEq, Repr

/-- A graph of nodes. The hard dependencies are among all dependencies. -/
structure Graph (π : Type) where
  nodes : List (Node π)
  deps : ℕ → List ℕ
  hard : ℕ → List ℕ

namespace Graph

variable (g : Graph π)

/-- `nodes[nid]` of a run. -/
def node (nid : ℕ) : Option (Node π) :=
  g.nodes.find? (·.id = nid)

/-- The nodes that wait for `nid`. -/
def dependents (nid : ℕ) : List ℕ :=
  (g.nodes.map Node.id).filter fun n => nid ∈ g.deps n

/-- The loop of `topo_order` over the order it extends. -/
def topoLoop : ℕ → (ℕ → ℤ) → List ℕ → List ℕ
  | 0, _, _ | _, _, [] => []
  | fuel + 1, indeg, nid :: order =>
    let indeg' := fun n => indeg n - (g.dependents nid).count n
    nid :: topoLoop fuel indeg' (order ++ (g.dependents nid).filter (indeg' · = 0))

/-- The loop of `_cycle`: follow the least stuck dependency until one comes back. -/
def cycleLoop (stuck : List ℕ) : ℕ → List ℕ → ℕ → List ℕ
  | 0, path, _ => path
  | fuel + 1, path, nid =>
    if nid ∈ path then path.drop (path.idxOf nid) ++ [nid]
    else cycleLoop stuck fuel (path ++ [nid]) (((g.deps nid).filter (· ∈ stuck)).min?.getD nid)

/-- `_cycle`: one cycle among the nodes that the sort could not order. -/
def cycle (stuck : List ℕ) : List ℕ :=
  g.cycleLoop stuck (stuck.length + 1) [] (stuck.min?.getD 0)

/-- `topo_order`: node ids in an order where every dependency precedes its dependents. -/
def topoOrder : Except String (List ℕ) :=
  let ids := g.nodes.map Node.id
  match (ids.flatMap g.deps).find? (· ∉ ids) with
  -- The key error of a dependency that is no node.
  | some unknown => .error (toString unknown)
  | none =>
    let indeg := fun n => ((g.deps n).length : ℤ)
    let order := g.topoLoop ids.length indeg (ids.filter fun n => (g.deps n).length = 0)
    if order.length < ids.length then
      let labels := (g.cycle (ids.filter (· ∉ order))).filterMap fun nid => (g.node nid).map Node.label
      .error ("dependency cycle in graph: " ++ " -> ".intercalate labels)
    else .ok order

end Graph

/-- Mutable accumulator for a `Graph`. Ids follow insertion order. -/
structure GraphBuilder (π : Type) where
  nodes : List (Node π) := []
  soft : ℕ → List ℕ := fun _ => []
  hard : ℕ → List ℕ := fun _ => []

namespace GraphBuilder

variable (b : GraphBuilder π)

/-- `add`: append a node without dependencies; its id is the number of nodes before. -/
def add (label group : String) (payload : π) (onFailure : OnFailure) (optional : Bool) (delayS : ℚ)
    (override : Option NodeOverride) : GraphBuilder π :=
  { b with nodes := b.nodes ++
      [{ id := b.nodes.length, label, group, payload, onFailure, optional, delayS, override }] }

/-- `require`: add hard edges to an already-added node. -/
def require (nid : ℕ) (deps : List ℕ) : GraphBuilder π :=
  { b with hard := Function.update b.hard nid (deps ∪ b.hard nid) }

/-- `order`: add soft edges to an already-added node. -/
def order (nid : ℕ) (deps : List ℕ) : GraphBuilder π :=
  { b with soft := Function.update b.soft nid (deps ∪ b.soft nid) }

/-- The builders that `add`, `require` and `order` make. Edges are added to nodes that are there. -/
inductive Made : GraphBuilder π → Prop where
  | empty : Made {}
  | add {b : GraphBuilder π} (made : Made b) (label group : String) (payload : π) (onFailure : OnFailure)
      (optional : Bool) (delayS : ℚ) (override : Option NodeOverride) :
      Made (b.add label group payload onFailure optional delayS override)
  | require {b : GraphBuilder π} (made : Made b) {nid : ℕ} (there : nid < b.nodes.length) (deps : List ℕ) :
      Made (b.require nid deps)
  | order {b : GraphBuilder π} (made : Made b) {nid : ℕ} (there : nid < b.nodes.length) (deps : List ℕ) :
      Made (b.order nid deps)

/-- The edges as they are, frozen. -/
def frozen : Graph π where
  nodes := b.nodes
  deps nid := b.soft nid ∪ b.hard nid
  hard := b.hard

/-- `build`: freeze the edges and check for cycles. -/
def build : Except String (Graph π) := do
  let _ ← b.frozen.topoOrder
  return b.frozen

end GraphBuilder

/-! ## The state of a run -/

structure NodeResult where
  status : Status
  error : Option String := none
  /-- The override reason when nothing was dispatched, this node's or the one its skip follows
  from. -/
  overridden : Option String := none
deriving DecidableEq, Repr

/-- How a node's task ends. -/
inductive TaskEnd where
  | ok
  | failed (message : String)
  | cancelled
deriving DecidableEq, Repr

/-- Where a node's task is: it has yet to call the dispatcher, which it does after its delay; the
dispatcher runs; or it has ended, and the runner has yet to record that. -/
inductive NodeTask where
  | created
  | dispatched
  | ended (outcome : TaskEnd)
deriving DecidableEq, Repr

/-- Bookkeeping for one execution: what has resolved, what is in flight, what is left. -/
structure RunState (π : Type) where
  graph : Graph π
  results : ℕ → Option NodeResult := fun _ => none
  running : ℕ → Option NodeTask := fun _ => none
  /-- In ascending order, in which a set of small integers is iterated. -/
  pending : List ℕ
  stop : Bool := false

namespace RunState

variable (s : RunState π)

def init (graph : Graph π) : RunState π where
  graph
  pending := graph.nodes.map Node.id

def ready (nid : ℕ) : Bool :=
  (s.graph.deps nid).all fun d => (s.results d).isSome

/-- The resolution of a hard dependency keeps its dependents from running, unless the dependency
declared `continue`. -/
def blocks (d : ℕ) (r : NodeResult) : Bool :=
  r.status ≠ .ok && (s.graph.node d).all (·.onFailure ≠ .continue)

/-- `blockers`: resolutions of the hard dependencies that keep a node from running. -/
def blockers (nid : ℕ) : List NodeResult :=
  (s.graph.hard nid).filterMap fun d => (s.results d).filter (s.blocks d)

/-- Record the result of a pending node. -/
def resolve (nid : ℕ) (result : NodeResult) : RunState π :=
  { s with results := Function.update s.results nid (some result), pending := s.pending.erase nid }

/-- The override's reason for a skip that follows from overridden nodes only. -/
def excused (causes : List NodeResult) : Option String :=
  if causes.all fun c => c.overridden.any (· ≠ "") then causes.head?.bind NodeResult.overridden else none

/-- One turn of the loop of `skip_pass`. -/
def skip (nid : ℕ) : RunState π :=
  match s.blockers nid with
  | [] => s
  | causes => s.resolve nid { status := .skipped, overridden := excused causes }

/-- `skip_pass`. A node has moved if fewer are pending. -/
def skipPass : RunState π :=
  s.pending.foldl skip s

def skipLoop : ℕ → RunState π → RunState π
  | 0, s => s
  | fuel + 1, s => if s.skipPass.pending = s.pending then s.skipPass else skipLoop fuel s.skipPass

/-- `resolve_skips`: skip every node a hard dependency blocks, cascading along hard edges. -/
def resolveSkips : RunState π :=
  skipLoop s.pending.length s

/-- One turn of the loop of `override_pass`. -/
def overrideNode (nid : ℕ) : RunState π :=
  match (s.graph.node nid).bind Node.override with
  | some ov =>
    if s.ready nid then
      s.resolve nid { status := if ov.ok then .ok else .skipped, overridden := some ov.reason }
    else s
  | none => s

/-- `override_pass`. -/
def overridePass : RunState π :=
  s.pending.foldl overrideNode s

def settleLoop : ℕ → RunState π → RunState π
  | 0, s => s
  | fuel + 1, s =>
    let settled := s.resolveSkips
    if settled.stop then settled
    else if settled.overridePass.pending = settled.pending then settled.overridePass
    else settleLoop fuel settled.overridePass

/-- `settle`: resolve everything that resolves without dispatching. -/
def settle : RunState π :=
  settleLoop (s.pending.length + 1) s

/-- Start the pending nodes whose dependencies have resolved, as `take_ready` returns them. -/
def startTaken : RunState π :=
  { s with
    pending := s.pending.filter fun nid => !s.ready nid
    running := fun nid => if nid ∈ s.pending ∧ s.ready nid then some .created else s.running nid }

/-- `_start_ready`: settle what needs no dispatch, then start whatever is left ready. -/
def startReady : RunState π :=
  if s.settle.stop then s.settle else s.settle.startTaken

/-- The result of a dispatched node that ended so. -/
def result : TaskEnd → NodeResult
  | .ok => { status := .ok }
  | .failed message => { status := .failed, error := some message }
  | .cancelled => { status := .cancelled }

/-- `record`: record how a dispatched node ended, and whether it stops the run. -/
def record (nid : ℕ) (outcome : TaskEnd) : RunState π :=
  { s with
    running := Function.update s.running nid none
    results := Function.update s.results nid (some (result outcome))
    stop := s.stop || (result outcome).status = .failed && (s.graph.node nid).any (·.onFailure = .stop) }

/-- Record the node's end, if its task has ended. -/
def recordEnded (n : Node π) : RunState π :=
  match s.running n.id with
  | some (.ended outcome) => s.record n.id outcome
  | _ => s

/-- Record every task that has ended. -/
def recordAll : RunState π :=
  s.graph.nodes.foldl recordEnded s

/-- `cancel_pending`. -/
def cancelPending : RunState π :=
  { s with
    results := fun nid => if nid ∈ s.pending then some { status := .cancelled } else s.results nid
    pending := [] }

/-- Whether a task is in the run. -/
def active : Bool :=
  s.graph.nodes.any fun n => (s.running n.id).isSome

/-- The task of the node exists, and has not ended. -/
def InFlight (nid : ℕ) : Prop :=
  s.running nid = some .created ∨ s.running nid = some .dispatched

end RunState

/-! ## The report of a run -/

/-- Node outcomes for one graph run. -/
structure RunReport (π : Type) where
  graph : Graph π
  results : ℕ → Option NodeResult
  aborted : Bool := false

namespace RunReport

variable (report : RunReport π)

def withStatus (statuses : List Status) : List (Node π × NodeResult) :=
  report.graph.nodes.filterMap fun n =>
    ((report.results n.id).filter (·.status ∈ statuses)).map fun r => (n, r)

/-- `failures`: non-optional nodes that failed or never ran, but for overridden ones and the skips that
follow from these. -/
def failures : List (Node π × Option String) :=
  ((report.withStatus [.failed, .skipped]).filter fun nr => !nr.1.optional && nr.2.overridden.isNone).map
    fun nr => (nr.1, nr.2.error)

/-- `overridden`: nodes an override kept from running, and the skips that followed, each with its
reason. -/
def overridden : List (Node π × String) :=
  report.graph.nodes.filterMap fun n =>
    ((report.results n.id).bind NodeResult.overridden).map fun reason => (n, reason)

end RunReport

/-! ## The runner -/

/-- How `execute` ends: it returns a report, raises a cancellation, counted as they arrived, or
finds a deadlock. -/
inductive Ending where
  | returned (aborted : Bool)
  | raised (cancellation : ℕ)
  | deadlock
deriving DecidableEq, Repr

/-- Where the runner is: waiting for a task to end; draining after a first cancellation, with
whether that was declined and the first one declined since; or at its end. -/
inductive RunnerPhase where
  | waiting
  | draining (hard : Bool) (declined : Option ℕ)
  | finished (ending : Ending)
deriving DecidableEq, Repr

/-- One run of `DagRunner.execute`. -/
structure Execution (π : Type) where
  state : RunState π
  phase : RunnerPhase := .waiting
  /-- The nodes for which the dispatcher was called, oldest first. -/
  dispatched : List ℕ := []
  /-- How many cancellations have arrived. -/
  cancellations : ℕ := 0

/-- What happens next. -/
inductive RunLabel where
  /-- The task of a node calls the dispatcher. -/
  | dispatch (nid : ℕ)
  /-- The task of a node ends. -/
  | ends (nid : ℕ) (outcome : TaskEnd)
  /-- The runner goes on, as tasks have ended. -/
  | wake
  /-- A cancellation reaches the runner, which the caller absorbs or declines. -/
  | cancel (absorbed : Bool)
  /-- The drain is over. -/
  | drained
deriving DecidableEq, Repr

namespace Execution

variable (e : Execution π)

/-- The head of the loop of `execute`: start what is ready, and end the run if nothing is. -/
def proceed : Execution π :=
  let s := e.state.startReady
  if s.active then { e with state := s }
  else if s.pending ≠ [] ∧ ¬ s.stop then { e with state := s, phase := .finished .deadlock }
  else { e with state := s.resolveSkips.cancelPending, phase := .finished (.returned false) }

/-- The run of a graph, up to its first wait. -/
def start (graph : Graph π) : Execution π :=
  proceed { state := .init graph }

def setTask (nid : ℕ) (task : NodeTask) : Execution π :=
  { e with state := { e.state with running := Function.update e.state.running nid (some task) } }

/-- How the run ends after a drain. -/
def ending (hard : Bool) (declined : Option ℕ) : Ending :=
  if hard then .raised 0 else match declined with
    | none => .returned true
    | some cancellation => .raised cancellation

/-- One step of the run. -/
def step (e : Execution π) : RunLabel → Option (Execution π)
  | .dispatch nid =>
    if e.phase = .waiting ∧ e.state.running nid = some .created then
      some { e.setTask nid .dispatched with dispatched := e.dispatched ++ [nid] }
    else none
  | .ends nid outcome =>
    match e.phase, e.state.running nid with
    | .finished _, _ => none
    | _, some .dispatched => some (e.setTask nid (.ended outcome))
    -- A task that is cancelled before it calls the dispatcher never does.
    | .draining _ _, some .created => if outcome = .cancelled then some (e.setTask nid (.ended outcome)) else none
    | _, _ => none
  | .wake =>
    if e.phase = .waiting ∧ e.state.graph.nodes.any (fun n => (e.state.running n.id).any fun
        | .ended _ => true
        | _ => false) then
      some (proceed { e with state := e.state.recordAll })
    else none
  | .cancel absorbed =>
    match e.phase with
    | .waiting =>
      some { e with phase := .draining (!absorbed) none, cancellations := e.cancellations + 1 }
    | .draining hard declined =>
      -- Asked as each arrives, until one is declined.
      let declined := match declined with
        | some cancellation => some cancellation
        | none => if !hard && absorbed then none else some e.cancellations
      some { e with phase := .draining hard declined, cancellations := e.cancellations + 1 }
    | .finished _ => none
  | .drained =>
    match e.phase with
    | .draining hard declined =>
      if e.state.graph.nodes.all fun n => match e.state.running n.id with
        | none | some (.ended _) => true
        | _ => false then
        some { e with state := e.state.recordAll.cancelPending, phase := .finished (ending hard declined) }
      else none
    | _ => none

end Execution

end SensorKit.Common
