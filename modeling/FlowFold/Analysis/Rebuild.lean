import FlowFold.Analysis.Fixpoint

/-! # Folding

Once an analysis has run, the graph is copied with every expression that was found
to be constant replaced by that constant. Branches stay, even if their condition is
constant: this is folding and nothing more.

A node is copied after the nodes it leads to, and a cache keeps each node's copy, so
what was shared stays shared. A loop is entered into the cache before its body is
copied, because the body leads back to it. The join of a branch is copied even if no
path reaches it, with its expressions as they are.
-/

namespace FlowFold

/-- The expression a node gets, from what is known about its own. -/
def Fact.folded (fact : Fact) (e : Expr) : Expr :=
  match fact with
  | .known v => .const v
  | .unknown _ => e

def Graph.loopCount (g : Graph) : Nat :=
  g.nodes.toList.countP fun n =>
    match n.instr with
    | .loop .. => true
    | _ => false

structure Copying where
  graph : Graph
  /-- The copy of each node. -/
  cache : Std.ExtTreeMap NodeId NodeId

def Copying.note (c : Copying) (id copy : NodeId) : NodeId × Copying :=
  (copy, { c with cache := c.cache.insert id copy })

namespace Analysis

/-- What is known under a node's own key when control leaves it. Nothing is known of a
    node that was never reached; a node that was reached must have its entry. -/
def factAt (a : Analysis) (id : NodeId) (k : Key) : Except Fault Fact :=
  match a.out[id]? with
  | none => .ok .nothing
  | some env =>
      match env[k]? with
      | some fact => .ok fact
      | none => .error (.noEntry (shown k.text) id env.text)

/-- Copy a node and all it leads to, and give the handle of the copy. The depth bounds
    the recursion: a step goes to a smaller handle or into the body of a loop that was
    not in the cache before. -/
def copy (a : Analysis) (g : Graph) : Nat → NodeId → Copying → Except Fault (NodeId × Copying)
  | 0, _, _ => .error .endless
  | depth + 1, id, c =>
      match c.cache[id]? with
      | some done => .ok (done, c)
      | none => do
          let n ← g.node id
          match n.instr with
          | .quit => return c.note id 0
          | .assign name value next =>
              let fact ← a.factAt id (.var name)
              let (next, c) ← copy a g depth next c
              let (new, graph) ← c.graph.addAssign name (fact.folded value) next
              return { c with graph }.note id new
          | .ret result =>
              let fact ← a.factAt id (.expr id)
              let (new, graph) := c.graph.addReturn (fact.folded result)
              return { c with graph }.note id new
          | .branch cond yes no join =>
              let fact ← a.factAt id (.expr id)
              let (yes, c) ← copy a g depth yes c
              let (no, c) ← copy a g depth no c
              let (join, c) ← copy a g depth join c
              let (new, graph) ← c.graph.addBranch (fact.folded cond) yes no join
              return { c with graph }.note id new
          | .loop cond body join =>
              let fact ← a.factAt id (.expr id)
              let (join, c) ← copy a g depth join c
              let (new, graph) ← c.graph.addLoop (fact.folded cond) join
              let (_, c) := { c with graph }.note id new
              let (body, c) ← copy a g depth body c
              let graph ← c.graph.setBody new body
              return { c with graph }.note id new

/-- The graph with every expression found constant replaced by the constant. -/
def rebuild (a : Analysis) (g : Graph) : Except Fault Graph := do
  a.require
  let (entry, c) ← a.copy g ((g.loopCount + 1) * g.size) g.entry ⟨.empty, ∅⟩
  c.graph.setEntry entry

end Analysis

def Graph.fold (g : Graph) : Except Fault Graph :=
  match Analysis.new.run g with
  | (_, some f) => .error f
  | (a, none) => a.rebuild g

end FlowFold
