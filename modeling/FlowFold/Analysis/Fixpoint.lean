import FlowFold.Analysis.Env
import FlowFold.Graph.Search

/-! # The analysis

A forward analysis that finds, for every node that can be reached, what is known
when control leaves it. It works through a queue of nodes. Visiting a node merges
what is known on the ways into it and adds what the node itself does; if the result
is new it is committed, and the targets of the node are put into the queue, unless
they are waiting there already.

The analysis starts from empty environments, and an entry can only become present
and then become a constant. So the work is bounded by the number of nodes and keys,
and the queue runs empty within `Graph.visitBudget` visits.
-/

namespace FlowFold

/-- What is known when control leaves a node, from what is known when it enters. -/
def Node.transfer (n : Node) (env : Env) : Except Fault Env :=
  match n.instr with
  | .assign name value _ => do return env.insert (.var name) (← value.evaluate env)
  | .ret e | .branch e _ _ _ | .loop e _ _ => do
      return env.insert (.expr n.id) (← e.evaluate env)
  | .quit => .ok env

/-- What is known when control leaves each node that can be reached. -/
abbrev OutMap := Std.ExtTreeMap NodeId Env

abbrev PredMap := Std.ExtTreeMap NodeId (List NodeId)

namespace Graph

/-- The environments on the ways into a node. The entry is also entered from outside,
    where nothing is known. -/
def incoming (g : Graph) (preds : PredMap) (out : OutMap) (id : NodeId) : List Env :=
  (preds.getD id []).map (fun p => out.getD p ∅) ++ if id = g.entry then [∅] else []

/-- What is known when control leaves a node, given what is known elsewhere. -/
def leaving (g : Graph) (preds : PredMap) (out : OutMap) (id : NodeId) : Except Fault Env := do
  let n ← g.node id
  n.transfer (Env.merge (g.incoming preds out id))

/-- How many keys the environments of a graph can have: the variables assigned in
    reachable nodes, and the reachable nodes with an expression that assign none. -/
def keyCount (g : Graph) : Nat :=
  let names := g.walk.filterMap fun n =>
    match n.instr with
    | .assign name _ _ => some name
    | _ => none
  let others := g.walk.countP fun n =>
    match n.instr with
    | .ret _ | .branch .. | .loop .. => true
    | _ => false
  names.eraseDups.length + others

/-- How many visits the analysis may need: each entry of each node can change twice,
    and each change makes at most two more visits. -/
def visitBudget (g : Graph) : Nat := 1 + 4 * g.reachable.length * g.keyCount

end Graph

inductive Event where
  /-- It took a node from the queue. -/
  | visit (id : NodeId)
  /-- It recorded what is known when control leaves a node. -/
  | commit (id : NodeId) (node : Node) (env : Env)

def Event.text : Event → String
  | visit id => "visit " ++ toString id
  | commit id node env => "commit " ++ toString id ++ " " ++ node.text ++ ": " ++ env.text

/-- The line of an event in a log whose lines all start with the same text. -/
def Event.logLine (start : String) (e : Event) : String := start ++ e.text ++ "\n"

structure Progress where
  out : OutMap
  /-- The nodes still to be visited, each at most once. -/
  queue : List NodeId
  visits : Nat
  commits : Nat
  /-- What happened, the latest first. -/
  events : List Event

namespace Progress

def push (queue : List NodeId) (id : NodeId) : List NodeId :=
  if queue.contains id then queue else queue ++ [id]

/-- The start: nothing is known, and the entry is to be visited. -/
def start (g : Graph) : Progress :=
  { out := g.reachable.foldl (fun out id => out.insert id ∅) ∅
    queue := [g.entry]
    visits := 0
    commits := 0
    events := [] }

def commit (p : Progress) (g : Graph) (id : NodeId) (node : Node) (env : Env) : Progress :=
  { p with
    out := p.out.insert id env
    queue := (g.targets id).foldl push p.queue
    commits := p.commits + 1
    events := .commit id node env :: p.events }

def visit (p : Progress) (g : Graph) (preds : PredMap) (id : NodeId) : Except Fault Progress := do
  let n ← g.node id
  let env ← g.leaving preds p.out id
  return if env = p.out.getD id ∅ then p else p.commit g id n env

def take (p : Progress) (id : NodeId) (rest : List NodeId) : Progress :=
  { p with queue := rest, visits := p.visits + 1, events := .visit id :: p.events }

/-- Visit the nodes of the queue until it is empty, within a budget of visits. A fault
    ends the work; what was done before it stays done. -/
def work (g : Graph) (preds : PredMap) : Nat → Progress → Progress × Option Fault
  | 0, p => (p, none)
  | budget + 1, p =>
      match p.queue with
      | [] => (p, none)
      | id :: rest =>
          let p := p.take id rest
          match p.visit g preds id with
          | .error f => (p, some f)
          | .ok p => work g preds budget p

end Progress

/-- An analysis of a graph, before or after it has run. -/
structure Analysis where
  out : OutMap
  visits : Nat
  commits : Nat
  /-- What the last run did, in order. -/
  events : List Event
  /-- Whether some run has come to its end. -/
  hasRun : Bool

namespace Analysis

def new : Analysis := ⟨∅, 0, 0, [], false⟩

/-- Run an analysis, forgetting what an earlier run has found. -/
def run (a : Analysis) (g : Graph) : Analysis × Option Fault :=
  let (p, fault) := Progress.work g g.predecessors g.visitBudget (.start g)
  (⟨p.out, p.visits, p.commits, p.events.reverse, a.hasRun || fault.isNone⟩, fault)

/-- An analysis whose answers may be asked for. -/
def require (a : Analysis) : Except Fault Unit :=
  if a.hasRun then .ok () else .error .notRun

/-- What is known when control leaves a node; nodes that cannot be reached have no
    answer. -/
def outAt (a : Analysis) (id : NodeId) : Except Fault (Option Env) := do
  a.require
  return a.out[id]?

def stats (a : Analysis) : Except Fault (Nat × Nat) := do
  a.require
  return (a.visits, a.commits)

end Analysis

end FlowFold
