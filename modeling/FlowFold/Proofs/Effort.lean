import Mathlib.Data.Set.Card
import FlowFold.Proofs.LeastSolution

/-! # How much work an analysis does

Every visit takes one node from the queue, and a commit follows at most one in each visit
and queues at most two nodes. Each commit raises the potential, so there are at most twice
as many as there are live nodes times keys. On the other hand the log names every node that
has left something, and in the end every live node but `quit` has, since it has recorded
its own key. The bounds hold for every schedule, and the analysis is one of them.
-/

namespace FlowFold

theorem ncard_eq_length {α : Type} [DecidableEq α] {s : Set α} {l : List α} (distinct : l.Nodup)
    (members : ∀ x, x ∈ s ↔ x ∈ l) : s.ncard = l.length := by
  have same : s = l.toFinset := by
    ext x
    simp [members]
  rw [same, Set.ncard_coe_finset, List.toFinset_card_of_nodup distinct]

/-! ## The log -/

namespace Progress

/-- The nodes for which something was committed, the latest first. -/
def committed (p : Progress) : List NodeId :=
  p.events.filterMap fun
    | .commit id _ _ => some id
    | .visit _ => none

/-- What the log accounts for. -/
structure Logged (p : Progress) : Prop where
  counted : p.committed.length = p.commits
  visited : p.commits ≤ p.visits
  covered : ∀ id, p.out.getD id ∅ ≠ ∅ → id ∈ p.committed

variable {g : Graph} {p q : Progress}

theorem Logged.start (g : Graph) : Logged (start g) where
  counted := rfl
  visited := Nat.le_refl _
  covered := fun id nonempty => absurd (start_getD g id) nonempty

theorem Logged.step (logged : Logged p) (step : Step g p q) : Logged q := by
  obtain ⟨before, id, after, -, done⟩ := step
  obtain ⟨n, env, -, -, ⟨-, rfl⟩ | ⟨-, rfl⟩⟩ := visit_eq_ok.mp done
  · exact ⟨logged.counted, Nat.le_succ_of_le logged.visited, logged.covered⟩
  · refine ⟨?_, Nat.succ_le_succ logged.visited, fun x nonempty => ?_⟩
    · simpa [committed, commit, take] using logged.counted
    · have named : (id :: p.committed) = ((p.take id (before ++ after)).commit g id n env).committed := rfl
      rw [← named, List.mem_cons]
      by_cases here : x = id
      · exact .inl here
      · simp only [commit, take, Graph.getD_insert_out, if_neg (Ne.symm here)] at nonempty
        exact .inr (logged.covered x nonempty)

theorem Logged.steps (logged : Logged p) (steps : Steps g p q) : Logged q := by
  induction steps with
  | refl => exact logged
  | tail _ step ih => exact ih.step step

end Progress

/-! ## Nodes and keys -/

/-- The nodes whose results are recorded under the node and not under a variable. -/
def Instr.IsResult : Instr → Prop
  | ret _ | branch .. | loop .. => True
  | quit | assign .. => False

namespace Graph

/-- The variables that live nodes assign. -/
def assigned (g : Graph) : Set String :=
  { x | ∃ id value next, g.Live id ∧ g.node? id = some ⟨id, .assign x value next⟩ }

/-- The live returns, branches and loops. -/
def results (g : Graph) : Set NodeId :=
  { id | ∃ instr, g.Live id ∧ g.node? id = some ⟨id, instr⟩ ∧ instr.IsResult }

variable {g : Graph}

theorem Arena.walk_ids (arena : g.Arena) : g.walk.map (·.id) = g.reachable := by
  have all : ∀ ids : List NodeId, (∀ id ∈ ids, g.Live id) → (ids.filterMap g.node?).map (·.id) = ids := by
    intro ids
    induction ids with
    | nil => simp
    | cons id ids ih =>
        intro live
        obtain ⟨instr, found⟩ := arena.live_node (live id List.mem_cons_self)
        simp [found, ih fun x member => live x (List.mem_cons_of_mem id member)]
  exact all g.reachable fun id => arena.mem_reachable.mp

theorem Arena.ncard_live (arena : g.Arena) : { id | g.Live id }.ncard = g.reachable.length :=
  ncard_eq_length g.reachable_nodup fun _ => arena.mem_reachable.symm

theorem Arena.keyCount_eq (arena : g.Arena) : g.keyCount = g.assigned.ncard + g.results.ncard := by
  refine congrArg₂ (· + ·) (Eq.symm ?_) (Eq.symm ?_)
  · refine ncard_eq_length (nodup_eraseDups _) fun x => ?_
    simp only [assigned, Set.mem_ofPred_eq, List.mem_eraseDups, List.mem_filterMap, arena.mem_walk]
    constructor
    · rintro ⟨id, value, next, live, found⟩
      exact ⟨⟨id, .assign x value next⟩, ⟨live, found⟩, rfl⟩
    · rintro ⟨⟨id, instr⟩, ⟨live, found⟩, named⟩
      cases instr with
      | assign name value next =>
          cases named
          exact ⟨id, value, next, live, found⟩
      | quit | ret | branch | loop => cases named
  · rw [List.countP_eq_length_filter, ← List.length_map (·.id)]
    refine ncard_eq_length ?_ fun id => ?_
    · refine List.Nodup.sublist (List.Sublist.map _ List.filter_sublist) ?_
      rw [arena.walk_ids]
      exact g.reachable_nodup
    · simp only [results, Set.mem_ofPred_eq, List.mem_map, List.mem_filter, arena.mem_walk]
      constructor
      · rintro ⟨instr, live, found, result⟩
        refine ⟨⟨id, instr⟩, ⟨⟨live, found⟩, ?_⟩, rfl⟩
        cases instr <;> simp_all [Instr.IsResult]
      · rintro ⟨⟨id, instr⟩, ⟨⟨live, found⟩, result⟩, rfl⟩
        refine ⟨instr, live, found, ?_⟩
        cases instr <;> simp_all [Instr.IsResult]

end Graph

/-! ## The bounds -/

namespace Progress

variable {g : Graph} {p : Progress}

theorem Inv.committed_all (arena : g.Arena) (inv : Inv g p) (empty : p.queue = []) (logged : Logged p)
    {id : NodeId} {n : Node} (live : g.Live id) (found : g.node? id = some n) (ends : n.instr ≠ .quit) :
    id ∈ p.committed := by
  have settled := inv.settled_all arena empty live
  have own : ∃ k, n.key? = some k := by
    obtain ⟨own, instr⟩ := n
    cases instr with
    | quit => exact absurd rfl ends
    | assign | ret | branch | loop => exact ⟨_, rfl⟩
  obtain ⟨k, own⟩ := own
  refine logged.covered id ?_
  exact Std.ExtTreeMap.ne_empty_of_mem ((arena.mem_leaving found settled).mpr (.inl own))

theorem Inv.ncard_le_commits (arena : g.Arena) (inv : Inv g p) (empty : p.queue = []) (logged : Logged p) :
    { id | ∃ n, g.Live id ∧ g.node? id = some n ∧ n.instr ≠ .quit }.ncard ≤ p.commits := by
  have listed : { id | ∃ n, g.Live id ∧ g.node? id = some n ∧ n.instr ≠ .quit } ⊆
      (p.committed.toFinset : Set NodeId) := by
    rintro id ⟨n, live, found, ends⟩
    simpa using inv.committed_all arena empty logged live found ends
  calc
    _ ≤ (p.committed.toFinset : Set NodeId).ncard := Set.ncard_le_ncard listed
    _ ≤ p.committed.length := by
      rw [Set.ncard_coe_finset]
      exact p.committed.toFinset_card_le
    _ = p.commits := logged.counted

theorem Inv.commits_le (arena : g.Arena) (inv : Inv g p) :
    p.commits ≤ 2 * { id | g.Live id }.ncard * (g.assigned.ncard + g.results.ncard) := by
  rw [arena.ncard_live, ← arena.keyCount_eq, Nat.mul_assoc]
  exact Nat.le_trans inv.raised (g.potential_le p.out)

theorem work_add {preds : PredMap} {q : Progress} {budget : Nat}
    (worked : work g preds budget p = (q, none)) (empty : q.queue = []) (more : Nat) :
    work g preds (budget + more) p = (q, none) := by
  induction budget generalizing p with
  | zero =>
      obtain rfl : p = q := congrArg Prod.fst worked
      cases more with
      | zero => exact worked
      | succ more => simp [work, empty]
  | succ budget ih =>
      rw [Nat.succ_add]
      cases queue : p.queue with
      | nil =>
          simp only [work, queue] at worked ⊢
          exact worked
      | cons id rest =>
          simp only [work, queue] at worked ⊢
          cases visited : (p.take id rest).visit g preds id with
          | error f => simp [visited] at worked
          | ok next =>
              simp only [visited] at worked ⊢
              exact ih worked

end Progress

/-- The analysis empties its queue, and no larger budget would let it do more. There is a
    commit for every live node but `quit`, at most two for each live node and each key, no
    more than visits, and at least one for every two visits after the first. -/
theorem Analysis.run_bounded {g : Graph} (built : g.Built) (complete : g.Complete) (earlier : Analysis) :
    ∃ a p, earlier.run g = (a, none) ∧ a.stats = .ok (p.visits, p.commits) ∧ p.queue = [] ∧
      (∀ more, Progress.work g g.predecessors (g.visitBudget + more) (.start g) = (p, none)) ∧
      { id | ∃ n, g.Live id ∧ g.node? id = some n ∧ n.instr ≠ .quit }.ncard ≤ p.commits ∧
      p.commits ≤ 2 * { id | g.Live id }.ncard * (g.assigned.ncard + g.results.ncard) ∧
      p.commits ≤ p.visits ∧ p.visits ≤ 1 + 2 * p.commits := by
  have arena := built.arena
  obtain ⟨a, run⟩ := Analysis.run_total arena complete earlier
  obtain ⟨p, steps, empty, worked, rfl⟩ := Analysis.steps_of_run arena run
  have inv := (Progress.Inv.start arena).steps arena steps
  have logged := (Progress.Logged.start g).steps steps
  refine ⟨_, p, run, Analysis.stats_eq rfl, empty,
    Progress.work_add worked empty, inv.ncard_le_commits arena empty logged, inv.commits_le arena,
    logged.visited, ?_⟩
  have visited := inv.visited
  omega

theorem Graph.reachable_enteredInBody : (Graph.build Graph.enteredInBody).reachable = [4, 3, 2, 1] := by
  have entry : (Graph.build Graph.enteredInBody).entry = 4 := rfl
  have nodes : (Graph.build Graph.enteredInBody).nodes =
      #[⟨0, .quit⟩, ⟨1, .ret (.var "y")⟩, ⟨2, .loop (.binary .lt (.var "x") (.int 3)) 4 1⟩,
        ⟨3, .assign "x" (.binary .add (.var "x") (.int 1)) 2⟩, ⟨4, .assign "y" (.int 7) 3⟩] := rfl
  simp [Graph.reachable, Graph.search_cons, Graph.search_nil, Graph.node?, Graph.targets, Graph.successors,
    Node.successors, entry, nodes]

theorem Analysis.run_bounded_enteredInBody :
    let g := Graph.build Graph.enteredInBody
    g.Built ∧ g.Complete ∧ ∃ a visits commits, Analysis.new.run g = (a, none) ∧
      a.stats = .ok (visits, commits) ∧ commits ≤ 2 * 4 * (2 + 2) ∧ visits ≤ 1 + 2 * commits := by
  intro g
  have built : g.Built := ⟨_, rfl⟩
  have complete : g.Complete := Graph.forall_live (by decide)
  obtain ⟨a, p, run, stats, -, -, -, commits, -, visits⟩ := Analysis.run_bounded built complete .new
  have keys : g.keyCount = 2 + 2 := by
    rw [Graph.keyCount, Graph.walk, Graph.reachable_enteredInBody]
    decide
  rw [built.arena.ncard_live, ← built.arena.keyCount_eq, Graph.reachable_enteredInBody, keys] at commits
  exact ⟨built, complete, a, p.visits, p.commits, run, stats, commits, visits⟩

end FlowFold
