import Mathlib.Tactic.Tauto
import FlowFold.Proofs.Potential

/-! # Visiting nodes in any order

A visit takes some node from the queue, whichever it is, and commits what leaves the
node if that is new. The analysis is the schedule that always takes the first node.

Every schedule keeps `Progress.Inv`. Its heart is that no environment says more than the
equations give for it, so each commit says more than what it replaces, and that a node
off the queue satisfies its equation once control is known to get there. The first part
bounds the number of commits by the potential, and so the number of visits; the second
makes an empty queue a solution. The least solution is the only one that a schedule can
end with, because nothing that is committed says more than any solution does.
-/

namespace FlowFold

namespace Progress

/-! ## The queue -/

theorem mem_push {queue : List NodeId} {id x : NodeId} : x ∈ push queue id ↔ x ∈ queue ∨ x = id := by
  unfold push
  split
  · rename_i there
    have member : id ∈ queue := by simpa using there
    constructor
    · exact .inl
    · rintro (here | rfl)
      · exact here
      · exact member
  · simp

theorem mem_pushAll {ids queue : List NodeId} {x : NodeId} :
    x ∈ ids.foldl push queue ↔ x ∈ queue ∨ x ∈ ids := by
  induction ids generalizing queue with
  | nil => simp
  | cons id ids ih => rw [List.foldl_cons, ih, mem_push, List.mem_cons, or_assoc]

theorem length_pushAll_le (ids queue : List NodeId) :
    (ids.foldl push queue).length ≤ queue.length + ids.length := by
  induction ids generalizing queue with
  | nil => simp
  | cons id ids ih =>
      have one : (push queue id).length ≤ queue.length + 1 := by
        unfold push
        split <;> simp
      have rest := ih (push queue id)
      rw [List.foldl_cons, List.length_cons]
      omega

/-! ## Steps -/

/-- A visit of some node of the queue. -/
def Step (g : Graph) (p q : Progress) : Prop :=
  ∃ before id after, p.queue = before ++ id :: after ∧
    (p.take id (before ++ after)).visit g g.predecessors id = .ok q

def Steps (g : Graph) : Progress → Progress → Prop := Relation.ReflTransGen (Step g)

theorem visit_eq_ok {g : Graph} {preds : PredMap} {p q : Progress} {id : NodeId} :
    p.visit g preds id = .ok q ↔
      ∃ n env, g.node? id = some n ∧ g.leaving preds p.out id = .ok env ∧
        ((env = p.out.getD id ∅ ∧ q = p) ∨ (env ≠ p.out.getD id ∅ ∧ q = p.commit g id n env)) := by
  simp only [visit, except_bind_eq_ok, Graph.node_eq_ok, pure, Except.pure, Except.ok.injEq]
  constructor
  · rintro ⟨n, found, env, leaves, same⟩
    refine ⟨n, env, found, leaves, ?_⟩
    split at same
    · rename_i old
      exact .inl ⟨old, same.symm⟩
    · rename_i new
      exact .inr ⟨new, same.symm⟩
  · rintro ⟨n, env, found, leaves, ⟨old, rfl⟩ | ⟨new, rfl⟩⟩
    · exact ⟨n, found, env, leaves, if_pos old⟩
    · exact ⟨n, found, env, leaves, if_neg new⟩

theorem exists_step {g : Graph} (arena : g.Arena) (complete : g.Complete) {p : Progress}
    {before after : List NodeId} {id : NodeId} (queue : p.queue = before ++ id :: after)
    (live : g.Live id) :
    ∃ q, (p.take id (before ++ after)).visit g g.predecessors id = .ok q ∧ Step g p q := by
  obtain ⟨instr, found⟩ := arena.live_node live
  obtain ⟨env, leaves⟩ := Graph.leaving_total found (complete id _ live found) p.out
  have done : ∃ q, (p.take id (before ++ after)).visit g g.predecessors id = .ok q := by
    by_cases old : env = p.out.getD id ∅
    · exact ⟨_, visit_eq_ok.mpr ⟨_, env, found, leaves, .inl ⟨old, rfl⟩⟩⟩
    · exact ⟨_, visit_eq_ok.mpr ⟨_, env, found, leaves, .inr ⟨old, rfl⟩⟩⟩
  obtain ⟨q, done⟩ := done
  exact ⟨q, done, before, id, after, queue, done⟩

end Progress

/-! ## Families that grow -/

namespace Graph

/-- No environment of the family says more than its equation gives. -/
def Rising (g : Graph) (out : OutMap) : Prop :=
  ∀ id env, g.Live id → g.leaving g.predecessors out id = .ok env → (out.getD id ∅).Below env

/-- Off the queue, a node satisfies its equation once control is known to reach it: from
    outside, or from a node that has left something. -/
def Settled (g : Graph) (out : OutMap) (queue : List NodeId) : Prop :=
  ∀ id, g.Live id → id ∉ queue →
    (id = g.entry ∨ ∃ a, g.Live a ∧ id ∈ g.targets a ∧ out.getD a ∅ ≠ ∅) →
    g.leaving g.predecessors out id = .ok (out.getD id ∅)

variable {g : Graph} {out : OutMap} {id : NodeId} {env : Env}

theorem getD_insert_out (out : OutMap) (id x : NodeId) (env : Env) :
    (out.insert id env).getD x ∅ = if id = x then env else out.getD x ∅ := by
  rw [Std.ExtTreeMap.getD_insert]
  simp

theorem below_insert (more : (out.getD id ∅).Below env) (x : NodeId) :
    (out.getD x ∅).Below ((out.insert id env).getD x ∅) := by
  rw [getD_insert_out]
  split
  · rename_i same
    exact same ▸ more
  · exact .refl _

theorem Rising.insert (arena : g.Arena) (rising : g.Rising out)
    (live : g.Live id) (leaves : g.leaving g.predecessors out id = .ok env) :
    g.Rising (out.insert id env) := by
  intro x envX liveX leavesX
  obtain ⟨n, found, complete⟩ := complete_of_leaving leavesX
  obtain ⟨old, leavesOld⟩ := leaving_total found complete out
  have more : old.Below envX :=
    arena.leaving_mono (fun a _ => below_insert (rising id env live leaves) a) leavesOld leavesX
  rw [getD_insert_out]
  split
  · rename_i same
    subst same
    rw [leaves] at leavesOld
    cases leavesOld
    exact more
  · exact (rising x old liveX leavesOld).trans more

/-- After a commit the node and its targets may have to be visited again, but no other. -/
theorem Settled.insert {queue queue' : List NodeId} (settled : g.Settled out queue)
    (leaves : g.leaving g.predecessors out id = .ok env)
    (rest : ∀ x ∈ queue, x = id ∨ x ∈ queue') (targets : ∀ x ∈ g.targets id, x ∈ queue') :
    g.Settled (out.insert id env) queue' := by
  intro x live off reached
  have kept : ∀ a, x ∈ g.targets a → (out.insert id env).getD a ∅ = out.getD a ∅ := by
    intro a edge
    rw [getD_insert_out, if_neg]
    rintro rfl
    exact off (targets x edge)
  -- The node is no target of the one that changed, so its equation is as it was.
  rw [leaving_congr kept, getD_insert_out]
  by_cases here : id = x
  · rw [if_pos here, ← here, leaves]
  · rw [if_neg here]
    refine settled x live (fun queued => ?_) (reached.imp_right ?_)
    · rcases rest x queued with same | queued
      · exact here same.symm
      · exact off queued
    · rintro ⟨a, liveA, edge, nonempty⟩
      rw [kept a edge] at nonempty
      exact ⟨a, liveA, edge, nonempty⟩

theorem length_targets_le (g : Graph) (id : NodeId) : (g.targets id).length ≤ 2 := by
  unfold Graph.targets Graph.successors
  cases g.node? id with
  | none => simp
  | some n =>
      simp only [Node.successors]
      split <;> simp

end Graph

/-! ## The invariant -/

namespace Progress

/-- What every schedule keeps. -/
structure Inv (g : Graph) (p : Progress) : Prop where
  domain : ∀ id, id ∈ p.out ↔ g.Live id
  queued : ∀ id ∈ p.queue, g.Live id
  plain : ∀ id, (p.out.getD id ∅).Plain
  records : ∀ id, ∀ k ∈ p.out.getD id ∅, g.Records k
  rising : g.Rising p.out
  settled : g.Settled p.out p.queue
  /-- Every commit has raised the potential. -/
  raised : p.commits ≤ g.potential p.out
  /-- Every commit has queued two nodes at most. -/
  visited : p.visits + p.queue.length ≤ 1 + 2 * p.commits

variable {g : Graph}

theorem start_getD (g : Graph) (id : NodeId) : (start g).out.getD id ∅ = (∅ : Env) := by
  have run : ∀ (ids : List NodeId) (out : OutMap), out.getD id ∅ = (∅ : Env) →
      (ids.foldl (fun out id => out.insert id ∅) out).getD id ∅ = (∅ : Env) := by
    intro ids
    induction ids with
    | nil => exact fun out empty => empty
    | cons x ids ih =>
        intro out empty
        refine ih _ ?_
        rw [Graph.getD_insert_out]
        split
        · rfl
        · exact empty
  exact run g.reachable ∅ Std.ExtTreeMap.getD_empty

/-- What holds of the empty environment, and of what leaves a node if it holds of all that may
    come in, holds of everything that a schedule commits. -/
theorem steps_all (P : NodeId → Env → Prop) {p : Progress} (empty : ∀ id, P id ∅)
    (leaves : ∀ out id env, (∀ x, g.Live x → P x (out.getD x ∅)) → g.Live id →
      g.leaving g.predecessors out id = .ok env → P id env)
    (steps : Steps g (start g) p) : ∀ id, g.Live id → P id (p.out.getD id ∅) := by
  induction steps with
  | refl =>
      intro id _
      rw [start_getD]
      exact empty id
  | tail _ step ih =>
      obtain ⟨before, id, after, -, done⟩ := step
      obtain ⟨n, env, -, left, ⟨-, rfl⟩ | ⟨-, rfl⟩⟩ := visit_eq_ok.mp done
      · exact ih
      · intro x live
        simp only [commit, take, Graph.getD_insert_out]
        split
        · rename_i same
          subst same
          exact leaves _ _ _ ih live left
        · exact ih x live

theorem mem_start (arena : g.Arena) (id : NodeId) : id ∈ (start g).out ↔ g.Live id := by
  have run : ∀ (ids : List NodeId) (out : OutMap),
      id ∈ ids.foldl (fun out id => out.insert id ∅) out ↔ id ∈ ids ∨ id ∈ out := by
    intro ids
    induction ids with
    | nil => simp
    | cons x ids ih =>
        intro out
        rw [List.foldl_cons, ih, Std.ExtTreeMap.mem_insert, List.mem_cons, or_left_comm, or_assoc,
          Std.LawfulEqCmp.compare_eq_iff_eq, eq_comm]
  rw [← arena.mem_reachable]
  refine (run g.reachable ∅).trans (or_iff_left ?_)
  exact Std.ExtTreeMap.not_mem_empty

theorem Inv.start (arena : g.Arena) : Inv g (start g) where
  domain := mem_start arena
  queued := by
    intro id member
    obtain rfl := List.mem_singleton.mp member
    exact .entry g
  plain := by
    intro id k fact here
    simp [start_getD] at here
  records := by
    intro id k here
    simp [start_getD] at here
  rising := by
    intro id env _ _
    rw [start_getD]
    exact .empty env
  settled := by
    rintro id _ off (rfl | ⟨a, -, -, nonempty⟩)
    · exact absurd List.mem_cons_self off
    · exact absurd (start_getD g a) nonempty
  raised := Nat.zero_le _
  visited := Nat.le_refl _

section

variable {p : Progress} {before after : List NodeId} {id : NodeId}

theorem mem_of_mem_rest (queue : p.queue = before ++ id :: after) {x : NodeId}
    (member : x ∈ before ++ after) : x ∈ p.queue := by
  rw [queue]
  exact List.mem_append.mpr ((List.mem_append.mp member).imp_right (List.mem_cons_of_mem id))

theorem mem_rest_of_mem (queue : p.queue = before ++ id :: after) {x : NodeId}
    (member : x ∈ p.queue) : x = id ∨ x ∈ before ++ after := by
  simp only [queue, List.mem_append, List.mem_cons] at member ⊢
  tauto

theorem Inv.quiet (inv : Inv g p) (queue : p.queue = before ++ id :: after)
    (same : g.leaving g.predecessors p.out id = .ok (p.out.getD id ∅)) :
    Inv g (p.take id (before ++ after)) where
  domain := inv.domain
  queued := fun x member => inv.queued x (mem_of_mem_rest queue member)
  plain := inv.plain
  records := inv.records
  rising := inv.rising
  settled := by
    intro x live off reached
    by_cases here : x = id
    · exact here ▸ same
    · exact inv.settled x live
        (fun queued => off ((mem_rest_of_mem queue queued).resolve_left here)) reached
  raised := inv.raised
  visited := by
    have visited := inv.visited
    rw [queue] at visited
    simp only [take, List.length_append, List.length_cons] at visited ⊢
    omega

theorem Inv.committed (arena : g.Arena) (inv : Inv g p) {n : Node} {env : Env}
    (queue : p.queue = before ++ id :: after) (found : g.node? id = some n)
    (leaves : g.leaving g.predecessors p.out id = .ok env) (new : env ≠ p.out.getD id ∅) :
    Inv g ((p.take id (before ++ after)).commit g id n env) := by
  have live : g.Live id := inv.queued id (by rw [queue]; simp)
  have plainEnv : env.Plain := arena.leaving_plain inv.plain leaves
  have recordsEnv : ∀ k ∈ env, g.Records k := by
    intro k member
    rcases (arena.mem_leaving found leaves).mp member with own | ⟨a, -, -, here⟩
    · exact ⟨id, n, live, found, own⟩
    · exact inv.records a k here
  constructor
  case domain =>
    intro x
    refine Std.ExtTreeMap.mem_insert.trans ((or_congr_right (inv.domain x)).trans (or_iff_right_of_imp ?_))
    intro same
    obtain rfl : id = x := by simpa using same
    exact live
  case queued =>
    intro x member
    rcases mem_pushAll.mp member with old | target
    · exact inv.queued x (mem_of_mem_rest queue old)
    · exact live.edge target
  case plain =>
    intro x
    simp only [commit, take, Graph.getD_insert_out]
    split
    · exact plainEnv
    · exact inv.plain x
  case records =>
    intro x k member
    simp only [commit, take, Graph.getD_insert_out] at member
    split at member
    · exact recordsEnv k member
    · exact inv.records x k member
  case rising => exact inv.rising.insert arena live leaves
  case settled =>
    refine inv.settled.insert leaves ?_ ?_
    · intro x queued
      exact (mem_rest_of_mem queue queued).imp_right fun rest => mem_pushAll.mpr (.inl rest)
    · intro x target
      exact mem_pushAll.mpr (.inr target)
  case raised =>
    have higher : (p.out.getD id ∅).rank g.keys < env.rank g.keys :=
      (inv.rising id env live leaves).rank_lt (inv.plain id) plainEnv new.symm
        fun k member => arena.mem_keys (recordsEnv k member)
    have lower := inv.raised
    have raised := Graph.potential_insert_lt (arena.mem_reachable.mpr live) higher
    simp only [commit, take]
    omega
  case visited =>
    have visited := inv.visited
    have pushed := length_pushAll_le (g.targets id) (before ++ after)
    have two := g.length_targets_le id
    rw [queue] at visited
    simp only [commit, take, List.length_append, List.length_cons] at visited pushed ⊢
    omega

end

theorem Inv.step (arena : g.Arena) {p q : Progress} (inv : Inv g p) (step : Step g p q) : Inv g q := by
  obtain ⟨before, id, after, queue, done⟩ := step
  obtain ⟨n, env, found, leaves, ⟨rfl, rfl⟩ | ⟨new, rfl⟩⟩ := visit_eq_ok.mp done
  · exact inv.quiet queue leaves
  · exact inv.committed arena queue found leaves new

theorem Inv.steps (arena : g.Arena) {p q : Progress} (inv : Inv g p) (steps : Steps g p q) : Inv g q := by
  induction steps with
  | refl => exact inv
  | tail _ step ih => exact ih.step arena step

/-- No schedule makes more visits than the budget of the graph, and one that has made so
    many has emptied the queue. -/
theorem Inv.visits_le {p : Progress} (inv : Inv g p) : p.visits + p.queue.length ≤ g.visitBudget := by
  have visited := inv.visited
  have raised := inv.raised
  have bound := g.potential_le p.out
  have twice : 4 * g.reachable.length * g.keyCount = 2 * (2 * (g.reachable.length * g.keyCount)) := by
    rw [Nat.mul_assoc, ← Nat.mul_assoc 2 2]
  rw [Graph.visitBudget, twice]
  omega

end Progress

end FlowFold
