import Mathlib.Data.List.AList
import Ztest.Resource.Node
import Ztest.Lib.AList
import Ztest.Lib.Dag

/-!
This module contains the dependency-ordered executor of `resource/graph.rs`: the shape check before a
run, the forward pass that provisions and the reverse pass that tears down. It also says what makes a graph
executable.

A map is iterated in the order of its entries, which is arbitrary. What a provider answers when it is
probed, provisioned or torn down is part of the provider, since every one of these calls is made at
most once. Which of the futures in flight completes next is the choice of the environment (`pick`).
-/

namespace Resource

structure Provider where
  id : NodeId
  deps : List NodeId
  lifetime : Lifetime
  probe : Readiness
  provision : Except ResourceError Unit
  teardown : Except ResourceError Unit

structure Graph where
  nodes : AList (fun _ : NodeId => Provider)

inductive GraphError where
  | duplicate (id : NodeId)
  | missingDep (node dep : NodeId)
  | cycle (count : Nat)

namespace Graph

def new : Graph := ⟨∅⟩

def len (g : Graph) : Nat := g.nodes.entries.length

def add (g : Graph) (provider : Provider) : Except GraphError Graph :=
  if provider.id ∈ g.nodes then
    .error (.duplicate provider.id)
  else
    .ok ⟨g.nodes.insert provider.id provider⟩

def addDedup (g : Graph) (provider : Provider) : Graph :=
  if provider.id ∈ g.nodes then g else ⟨g.nodes.insert provider.id provider⟩

def missingDep (g : Graph) : Option GraphError :=
  g.nodes.entries.findSome? fun e =>
    e.2.deps.findSome? fun dep =>
      if dep ∈ g.nodes then none else some (.missingDep e.1 dep)

structure Peel where
  indegree : AList (fun _ : NodeId => Nat)
  queue : List NodeId
  peeled : Nat

inductive Stop where
  | indegreeUnseeded
  | indegreeUnderflow
  | outOfFuel
  deriving DecidableEq

def Peel.decrement (p : Peel) (other : NodeId) : Except Stop Peel :=
  match p.indegree.lookup other with
  | none => .error .indegreeUnseeded
  | some 0 => .error .indegreeUnderflow
  | some (d + 1) =>
    .ok { p with
      indegree := p.indegree.insert other d
      queue := if d = 0 then p.queue ++ [other] else p.queue }

def Peel.relax (p : Peel) (id : NodeId) : List (Sigma fun _ : NodeId => Provider) → Except Stop Peel
  | [] => .ok p
  | e :: es =>
    if id ∈ e.2.deps then
      match p.decrement e.1 with
      | .ok p => p.relax id es
      | .error stop => .error stop
    else
      p.relax id es

def peel (g : Graph) : Nat → Peel → Except Stop Peel
  | 0, _ => .error .outOfFuel
  | fuel + 1, p =>
    match p.queue with
    | [] => .ok p
    | id :: queue =>
      match ({ p with queue, peeled := p.peeled + 1 } : Peel).relax id g.nodes.entries with
      | .ok p => g.peel fuel p
      | .error stop => .error stop

def indegree (g : Graph) : AList (fun _ : NodeId => Nat) :=
  (g.nodes.entries.map fun e => ⟨e.1, e.2.deps.length⟩).toAList

/--
`order` is the order in which the map of in-degrees is iterated when the queue is seeded.
-/
def validate (g : Graph) (order : List NodeId) : Except Stop (Except GraphError Unit) :=
  match g.missingDep with
  | some e => .ok (.error e)
  | none =>
    let roots := order.filter fun id => g.indegree.lookup id = some 0
    match g.peel (g.len + 1) ⟨g.indegree, roots, 0⟩ with
    | .ok p =>
      if p.peeled ≠ g.len then
        .ok (.error (.cycle (g.len - p.peeled)))
      else
        .ok (.ok ())
    | .error stop => .error stop

end Graph

def runOne (node : Provider) : NodeState :=
  match node.probe with
  | .ready => .ready
  | .absent =>
    match node.provision with
    | .ok () => .ready
    | .error e => .failed e.toString

structure Provisioning where
  state : AList (fun _ : NodeId => NodeState)
  inflight : List (NodeId × Provider)
  -- The calls of `on_change`.
  changes : List (NodeId × NodeState)

namespace Provisioning

def change (s : Provisioning) (id : NodeId) (st : NodeState) : Provisioning :=
  { s with
    state := s.state.insert id st
    changes := s.changes ++ [(id, st)] }

def isPending (s : Provisioning) (id : NodeId) : Bool := s.state.lookup id = some .pending

def depUnavailable (s : Provisioning) (node : Provider) : Bool :=
  node.deps.any fun d => (s.state.lookup d).any NodeState.isUnavailable

def depsReady (s : Provisioning) (node : Provider) : Bool :=
  node.deps.all fun d => (s.state.lookup d).any NodeState.isReady

def toBlock (s : Provisioning) (g : Graph) : List (Sigma fun _ : NodeId => Provider) :=
  g.nodes.entries.filter fun e => s.isPending e.1 && s.depUnavailable e.2

def toRun (s : Provisioning) (g : Graph) : List (Sigma fun _ : NodeId => Provider) :=
  g.nodes.entries.filter fun e => s.isPending e.1 && !s.depUnavailable e.2 && s.depsReady e.2

def block (s : Provisioning) (e : Sigma fun _ : NodeId => Provider) : Provisioning :=
  s.change e.1 .blocked

def start (s : Provisioning) (e : Sigma fun _ : NodeId => Provider) : Provisioning :=
  { s.change e.1 .acquiring with inflight := s.inflight ++ [(e.1, e.2)] }

def round (s : Provisioning) (g : Graph) (cap : Nat) : Provisioning :=
  let s' := (s.toBlock g).foldl block s
  ((s.toRun g).take (cap - s'.inflight.length)).foldl start s'

def finish (s : Provisioning) (i : Nat) (future : NodeId × Provider) : Provisioning :=
  { s.change future.1 (runOne future.2) with inflight := s.inflight.eraseIdx i }

def next (s : Provisioning) (choice : Nat) : Provisioning :=
  match s.inflight[choice % s.inflight.length]? with
  | some future => s.finish (choice % s.inflight.length) future
  | none => s

def loop (g : Graph) (cap : Nat) (pick : Nat → Nat) : Nat → Provisioning → Option Provisioning
  | 0, _ => none
  | fuel + 1, s =>
    let blockedAny := !(s.toBlock g).isEmpty
    let s := s.round g cap
    if s.inflight.isEmpty then
      if blockedAny then loop g cap pick fuel s else some s
    else
      loop g cap pick fuel (s.next (pick fuel))

end Provisioning

def Graph.provision (g : Graph) (maxConcurrent : Nat) (pick : Nat → Nat) : Option Provisioning :=
  let state := (g.nodes.entries.map fun e => ⟨e.1, NodeState.pending⟩).toAList
  Provisioning.loop g (max maxConcurrent 1) pick (g.len + 1) ⟨state, [], []⟩

inductive TeardownCall where
  | started (id : NodeId)
  | finished (id : NodeId) (result : Except ResourceError Unit)

structure Teardown where
  remaining : List NodeId
  gone : List NodeId
  launched : List NodeId
  inflight : List (NodeId × Provider)
  results : List (NodeId × Except ResourceError Unit)
  -- The calls of `Provider::teardown`, in the order in which they begin and end.
  calls : List TeardownCall

namespace Teardown

def ready (s : Teardown) (g : Graph) (dependents : NodeId → List NodeId)
    : List (Sigma fun _ : NodeId => Provider) :=
  g.nodes.entries.filter fun e =>
    s.remaining.contains e.1 && !s.launched.contains e.1
      && (dependents e.1).all fun d => s.gone.contains d

def launch (s : Teardown) (e : Sigma fun _ : NodeId => Provider) : Teardown :=
  { s with
    launched := s.launched ++ [e.1]
    inflight := s.inflight ++ [(e.1, e.2)]
    calls := s.calls ++ [.started e.1] }

def finish (s : Teardown) (i : Nat) (future : NodeId × Provider) : Teardown :=
  { s with
    remaining := s.remaining.filter (· ≠ future.1)
    gone := s.gone ++ [future.1]
    inflight := s.inflight.eraseIdx i
    results := s.results ++ [(future.1, future.2.teardown)]
    calls := s.calls ++ [.finished future.1 future.2.teardown] }

def next (s : Teardown) (choice : Nat) : Teardown :=
  match s.inflight[choice % s.inflight.length]? with
  | some future => s.finish (choice % s.inflight.length) future
  | none => s

def loop (g : Graph) (dependents : NodeId → List NodeId) (pick : Nat → Nat)
    : Nat → Teardown → Option Teardown
  | 0, _ => none
  | fuel + 1, s =>
    let s := (s.ready g dependents).foldl launch s
    if s.inflight.isEmpty then
      some s
    else
      loop g dependents pick fuel (s.next (pick fuel))

end Teardown

namespace Graph

def dependents (g : Graph) (x : NodeId) : List NodeId :=
  g.nodes.entries.flatMap fun e => (e.2.deps.filter (· = x)).map fun _ => e.1

def isReaped (states : AList (fun _ : NodeId => NodeState)) (e : Sigma fun _ : NodeId => Provider)
    : Bool :=
  (states.lookup e.1).any NodeState.isReady && e.2.lifetime.isReaped

def teardown (g : Graph) (states : AList (fun _ : NodeId => NodeState)) (pick : Nat → Nat)
    : Option Teardown :=
  let remaining := (g.nodes.entries.filter (isReaped states)).map (·.1)
  let gone := g.nodes.keys.filter fun id => !remaining.contains id
  Teardown.loop g g.dependents pick (g.len + 1) ⟨remaining, gone, [], [], [], []⟩

def DependsOn (g : Graph) (x y : NodeId) : Prop :=
  ∃ node, g.nodes.lookup x = some node ∧ y ∈ node.deps

structure Executable (g : Graph) : Prop where
  known : ∀ x y, g.DependsOn x y → y ∈ g.nodes
  acyclic : Dag.Acyclic g.DependsOn

def NoRepeats (g : Graph) : Prop := ∀ x node, g.nodes.lookup x = some node → node.deps.Nodup

end Graph
end Resource
