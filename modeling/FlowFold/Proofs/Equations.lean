import FlowFold.Proofs.Information
import FlowFold.Proofs.Predecessors

/-! # The equations of the analysis

A family of environments, one for each live node, solves the equations of a graph if
each environment is what leaving its node gives, from what the family has on the ways
into the node. The environments on the ways in are those of the predecessors, and for
the entry also the empty one.

The right-hand side of the equations is monotone in the family, it depends only on the
predecessors of the node, and it has no keys but those that live nodes record.
-/

namespace FlowFold.Graph

/-- Every live node has a complete expression, if it has one at all. -/
def Complete (g : Graph) : Prop := ∀ id n, g.Live id → g.node? id = some n → n.Complete

/-- Calls that build a loop which is entered in its body, so that the way into the body
    from outside and the way back from the loop meet there. -/
def enteredInBody : List Call :=
  [.addReturn (.var "y"),
    .addLoop (.binary .lt (.var "x") (.int 3)) 1,
    .addAssign "x" (.binary .add (.var "x") (.int 1)) 2,
    .addAssign "y" (.int 7) 3,
    .setBody 2 4,
    .setEntry 4]

def Records (g : Graph) (k : Key) : Prop := ∃ id n, g.Live id ∧ g.node? id = some n ∧ n.key? = some k

/-- The family has a plain environment for each live node, and it is the one that leaves
    the node when the environments of the family come in. -/
structure Solution (g : Graph) (family : OutMap) : Prop where
  domain : ∀ id, id ∈ family ↔ g.Live id
  plain : ∀ (id : NodeId) (env : Env), family[id]? = some env → env.Plain
  equation : ∀ (id : NodeId) (env : Env), family[id]? = some env →
    ∃ n, g.node? id = some n ∧
      n.transfer (Env.merge (g.incoming g.predecessors family id)) = .ok env

variable {g : Graph} {out out' : OutMap} {id : NodeId} {env env' : Env}

theorem getElem?_out (member : id ∈ out) : out[id]? = some (out.getD id ∅) :=
  Std.ExtTreeMap.getElem?_eq_some_getD member

theorem getD_out (here : out[id]? = some env) : out.getD id ∅ = env := by
  rw [Std.ExtTreeMap.getD_eq_getD_getElem?, here, Option.getD_some]

/-- The ways into a node are the edges from live nodes, and for the entry also the one
    from outside. -/
theorem Arena.mem_incoming (arena : g.Arena) :
    env ∈ g.incoming g.predecessors out id ↔
      (∃ p, g.Live p ∧ id ∈ g.targets p ∧ out.getD p ∅ = env) ∨ (id = g.entry ∧ env = ∅) := by
  simp only [incoming, List.mem_append, List.mem_map, mem_predecessors, arena.mem_reachable, and_assoc]
  refine or_congr Iff.rfl ?_
  by_cases entry : id = g.entry
  · simp [entry]
  · simp [entry]

theorem leaving_eq_ok {preds : PredMap} :
    g.leaving preds out id = .ok env ↔
      ∃ n, g.node? id = some n ∧ n.transfer (Env.merge (g.incoming preds out id)) = .ok env := by
  simp only [leaving, except_bind_eq_ok, node_eq_ok]

/-- Whether a node can be left does not depend on what comes in. -/
theorem leaving_total {n : Node} (found : g.node? id = some n) (complete : n.Complete) (out : OutMap) :
    ∃ env, g.leaving g.predecessors out id = .ok env := by
  obtain ⟨env, ok⟩ := Node.transfer_total complete (Env.merge (g.incoming g.predecessors out id))
  exact ⟨env, leaving_eq_ok.mpr ⟨_, found, ok⟩⟩

theorem complete_of_leaving {preds : PredMap} (ok : g.leaving preds out id = .ok env) :
    ∃ n, g.node? id = some n ∧ n.Complete := by
  obtain ⟨n, found, left⟩ := leaving_eq_ok.mp ok
  exact ⟨n, found, Node.complete_of_transfer left⟩

theorem Arena.leaving_mono (arena : g.Arena)
    (below : ∀ p, g.Live p → (out.getD p ∅).Below (out'.getD p ∅))
    (ok : g.leaving g.predecessors out id = .ok env)
    (ok' : g.leaving g.predecessors out' id = .ok env') : env.Below env' := by
  obtain ⟨n, found, left⟩ := leaving_eq_ok.mp ok
  obtain ⟨n', found', left'⟩ := leaving_eq_ok.mp ok'
  obtain rfl : n' = n := by simpa [found] using found'.symm
  refine Node.transfer_mono (Env.merge_mono ?_ ?_) left left'
  · intro x member
    rcases arena.mem_incoming.mp member with ⟨p, live, edge, rfl⟩ | ⟨entry, rfl⟩
    · exact ⟨_, arena.mem_incoming.mpr (.inl ⟨p, live, edge, rfl⟩), below p live⟩
    · exact ⟨∅, arena.mem_incoming.mpr (.inr ⟨entry, rfl⟩), .refl ∅⟩
  · intro y member
    rcases arena.mem_incoming.mp member with ⟨p, live, edge, rfl⟩ | ⟨entry, rfl⟩
    · exact ⟨_, arena.mem_incoming.mpr (.inl ⟨p, live, edge, rfl⟩), below p live⟩
    · exact ⟨∅, arena.mem_incoming.mpr (.inr ⟨entry, rfl⟩), .refl ∅⟩

theorem leaving_congr (same : ∀ p, id ∈ g.targets p → out.getD p ∅ = out'.getD p ∅) :
    g.leaving g.predecessors out id = g.leaving g.predecessors out' id := by
  have ways : g.incoming g.predecessors out id = g.incoming g.predecessors out' id := by
    unfold incoming
    congr 1
    refine List.map_congr_left fun p member => ?_
    exact same p (mem_predecessors.mp member).2
  rw [leaving, leaving, ways]

theorem Arena.leaving_plain (arena : g.Arena) (plain : ∀ p, (out.getD p ∅).Plain)
    (ok : g.leaving g.predecessors out id = .ok env) : env.Plain := by
  obtain ⟨n, -, left⟩ := leaving_eq_ok.mp ok
  refine Node.transfer_plain (Env.merge_plain fun x member => ?_) left
  rcases arena.mem_incoming.mp member with ⟨p, -, -, rfl⟩ | ⟨-, rfl⟩
  · exact plain p
  · intro k fact here
    simp at here

theorem Arena.mem_leaving (arena : g.Arena) {n : Node} (found : g.node? id = some n)
    (ok : g.leaving g.predecessors out id = .ok env) {k : Key} :
    k ∈ env ↔ n.key? = some k ∨ ∃ p, g.Live p ∧ id ∈ g.targets p ∧ k ∈ out.getD p ∅ := by
  obtain ⟨n', found', left⟩ := leaving_eq_ok.mp ok
  obtain rfl : n' = n := by simpa [found] using found'.symm
  have merged : k ∈ Env.merge (g.incoming g.predecessors out id) ↔
      ∃ p, g.Live p ∧ id ∈ g.targets p ∧ k ∈ out.getD p ∅ := by
    rw [Env.mem_merge]
    constructor
    · rintro ⟨x, member, here⟩
      rcases arena.mem_incoming.mp member with ⟨p, live, edge, rfl⟩ | ⟨-, rfl⟩
      · exact ⟨p, live, edge, here⟩
      · exact absurd here Std.ExtTreeMap.not_mem_empty
    · rintro ⟨p, live, edge, here⟩
      exact ⟨_, arena.mem_incoming.mpr (.inl ⟨p, live, edge, rfl⟩), here⟩
  rcases Node.transfer_eq_ok.mp left with ⟨quit, rfl⟩ | ⟨own, e, fact, hasKey, -, -, rfl⟩
  · simp [merged, Node.key?, quit]
  · rw [Std.ExtTreeMap.mem_insert, merged, hasKey]
    simp

end FlowFold.Graph
