import FlowFold.Proofs.Inherited

/-! # A folded graph has nothing left to fold

The constants that folding has put into a graph are known from the start when the folded
graph is analysed. One might expect that more becomes known then, where ways meet or at the
head of a loop. It does not: whatever the order of the visits is, the analysis of the folded
graph never knows a constant under a variable that was not known at the node the copy stems
from. So an expression that is known to be a constant is that constant already.

Folding again therefore only renames the nodes, and the listing stays the same.
-/

namespace FlowFold

namespace Graph

variable {f g : Graph} {a b : Analysis} {origin copy : NodeId → NodeId} {x : NodeId}

theorem Analysed.known_of_exprAt (analysed : g.Analysed a.out) (live : g.Live x) {n : Node}
    (found : g.node? x = some n) {k : Key} {e : Expr} (own : n.key? = some k) (has : n.expression = some e)
    {env : Env} (below : env.VarsBelow (g.into a.out x)) {v : Value}
    (known : (a.exprAt x k e).evaluate env = .ok (.known v)) :
    (a.out.getD x ∅)[k]? = some (.known v) ∧ a.exprAt x k e = .const v := by
  obtain ⟨fact, at_, entry, value⟩ := analysed.factAt_live live found own has
  have folded : a.exprAt x k e = fact.folded e := by rw [Analysis.exprAt, at_]
  rw [folded] at known ⊢
  cases fact with
  | known w =>
      cases known
      exact ⟨entry, rfl⟩
  | unknown w =>
      have more : e.evaluate (g.into a.out x) = .ok (.known v) := Expr.evaluate_mono below known
      rw [more] at value
      cases value

/-- Whatever is known under a variable at a live node was known where the node stems from. -/
def NoMoreKnown (f : Graph) (origin : NodeId → NodeId) (out old : OutMap) : Prop :=
  ∀ y, f.Live y → (out.getD y ∅).VarsBelow (old.getD (origin y) ∅)

namespace FoldOnce

variable (analysed : g.Analysed a.out) (once : f.FoldOnce a g origin copy)
include analysed once

/-- Ways into a node and ways into its copy correspond, so a variable that is known on all
    ways into the copy is known on all ways into the node. -/
theorem into_below {out : OutMap} (below : f.NoMoreKnown origin out a.out) (live : f.Live x) :
    (f.into out x).VarsBelow (g.into a.out (origin x)) := by
  intro y v known
  have inside := once.arena.live_lt live
  have notEntry : x ≠ f.entry := by
    rintro rfl
    exact once.arena.into_entry known
  obtain ⟨some_, all⟩ := Env.merge_known.mp known
  refine Env.merge_known.mpr ⟨?_, ?_⟩
  · obtain ⟨env, among⟩ := List.exists_mem_of_ne_nil _ some_
    rcases once.arena.mem_incoming.mp among with ⟨p, liveP, edge, -⟩ | ⟨entry, -⟩
    · refine List.ne_nil_of_mem (analysed.arena.mem_incoming.mpr (.inl ⟨_, once.live liveP, ?_, rfl⟩))
      rw [once.targets_map (once.arena.live_lt liveP)]
      exact List.mem_map_of_mem edge
    · exact absurd entry notEntry
  · intro env among
    rcases analysed.arena.mem_incoming.mp among with ⟨p, liveP, edge, rfl⟩ | ⟨entry, -⟩
    · have liveCopy := once.live_copy liveP
      have edgeCopy : x ∈ f.targets (copy p) := by
        rw [once.targets_copy liveP.stands, ← once.back x inside]
        exact List.mem_map_of_mem edge
      have here := all _ (once.arena.mem_incoming.mpr (.inl ⟨_, liveCopy, edgeCopy, rfl⟩))
      have there := below _ liveCopy y v here
      rwa [once.forth p liveP.stands] at there
    · rw [← once.entry] at entry
      exact absurd (once.eq_of_origin_eq inside once.arena.entry_lt entry) notEntry

theorem leaving_below {out : OutMap} {env : Env} (below : f.NoMoreKnown origin out a.out) (live : f.Live x)
    (leaves : f.leaving f.predecessors out x = .ok env) : env.VarsBelow (a.out.getD (origin x) ∅) := by
  have into := once.into_below analysed below live
  have live' := once.live live
  obtain ⟨n', here, left⟩ := leaving_eq_ok.mp leaves
  obtain ⟨-, n, -, found, -⟩ := once.exists_copy (once.arena.live_lt live)
  have left' := analysed.transfer_eq live' found
  intro y v known
  -- Either the copy and the node both record under this variable, or both let it pass.
  by_cases mine : n'.key? = some (.var y)
  · rcases Node.transfer_eq_ok.mp left with ⟨quit, -⟩ | ⟨k', e', fact, own', has', value', rfl⟩
    · simp [Node.key?, quit] at mine
    · obtain rfl : k' = .var y := Option.some.inj (own'.symm.trans mine)
      obtain rfl : fact = .known v := by simpa using known
      obtain ⟨m, k, e, found', own, has, rfl⟩ := once.expression analysed.arena here has'
      obtain rfl : k = .var y := Option.some.inj (own.symm.trans ((once.key_var here found' y).mp mine))
      exact (analysed.known_of_exprAt live' found' own has into value').1
  · rw [Node.transfer_other left mine] at known
    rw [Node.transfer_other left' fun own => mine ((once.key_var here found y).mpr own)]
    exact into y v known

theorem steps_below {p : Progress} (steps : Progress.Steps f (.start f) p) :
    f.NoMoreKnown origin p.out a.out := by
  refine Progress.steps_all (fun y env => env.VarsBelow (a.out.getD (origin y) ∅)) ?_ ?_ steps
  · intro y z v known
    simp at known
  · intro out y env below live leaves
    exact once.leaving_below analysed below live leaves

theorem foldedInstr_eq (analysed' : f.Analysed b.out) (below : f.NoMoreKnown origin b.out a.out) {n' : Node}
    (here : f.node? x = some n') : b.foldedInstr n' = n'.instr := by
  by_cases known : ∃ k v, f.Live x ∧ n'.key? = some k ∧ (b.out.getD x ∅)[k]? = some (.known v)
  · obtain ⟨k', v, live, own', entry'⟩ := known
    obtain ⟨e', has'⟩ := Node.expression_of_key own'
    obtain ⟨fact, -, entry, value'⟩ := analysed'.factAt_live live here own' has'
    obtain rfl : fact = .known v := Option.some.inj (entry.symm.trans entry')
    obtain ⟨n, k, e, found, own, has, rfl⟩ := once.expression analysed.arena here has'
    have into := once.into_below analysed below live
    rw [analysed'.foldedInstr_known live here own' entry']
    rw [(analysed.known_of_exprAt (once.live live) found own has into value').2] at has'
    exact Node.withExpr_expression has'
  · exact analysed'.foldedInstr_same here fun k v live own entry => known ⟨k, v, live, own, entry⟩

end FoldOnce

theorem FoldOnce.alike (arena : g.Arena) (once : f.FoldOnce a g origin copy)
    (same : ∀ x n, g.node? x = some n → a.foldedInstr n = n.instr) : g.Alike f copy where
  entry := once.copy_entry
  injOn := once.bijOn.injOn.mono fun _ live => Live.stands live
  node := by
    intro x n live found
    refine ⟨copy, ?_, fun h handle => ⟨⟨once.live_copy, fun live' => ?_⟩, fun _ => rfl⟩⟩
    · rw [once.node_copy live.stands found, same x n found]
    · rw [← handles_eq found] at handle
      rw [← once.forth h (arena.stands_handle live.stands handle)]
      exact once.live live'

end Graph

theorem Graph.fold_eq_ok {g f : Graph} :
    g.fold = .ok f ↔ ∃ a, Analysis.new.run g = (a, none) ∧ a.rebuild g = .ok f := by
  rw [Graph.fold]
  rcases Analysis.new.run g with ⟨a, _ | fault⟩ <;> simp

/-- The graph of a program can be folded if all literals are there, and if it can be folded, folding
    twice gives the listing that folding once gives. -/
theorem Graph.dump_fold_fold (program : Stmt) (inputs : List String) {report : Report}
    (checked : check program inputs = .ok report) (clean : report.errors = []) :
    ∃ g, Graph.ofProgram program = .ok g ∧ (none ∉ program.literals → ∃ f, g.fold = .ok f) ∧
      ∀ f, g.fold = .ok f → ∃ f', f.fold = .ok f' ∧ f'.dump = f.dump := by
  obtain ⟨-, rfl⟩ := check_eq_ok.mp checked
  obtain ⟨g, formed, -, nested, runs, copies⟩ := Graph.foldOnce_of_report clean .new
  refine ⟨g, formed, fun there => ?_, fun f folded => ?_⟩
  · obtain ⟨a, run⟩ := runs there
    obtain ⟨-, -, f, -, -, rebuilt, -⟩ := copies a run
    exact ⟨f, fold_eq_ok.mpr ⟨a, run, rebuilt⟩⟩
  obtain ⟨a, run, rebuilt⟩ := fold_eq_ok.mp folded
  obtain ⟨-, analysed, _, origin, copy, rebuilt₁, once⟩ := copies a run
  obtain rfl := Except.ok.inj (rebuilt.symm.trans rebuilt₁)
  have complete' := once.complete analysed.arena (Analysis.complete_of_run analysed.arena run)
  obtain ⟨b, again, hasRun, analysed'⟩ := Analysis.run_analysed once.arena complete' .new
  obtain ⟨f', origin', copy', rebuilt', once'⟩ :=
    Analysis.rebuild_foldOnce analysed' hasRun (once.nested nested)
  have below : f.NoMoreKnown origin b.out a.out := by
    obtain ⟨p, steps, -, -, rfl⟩ := Analysis.steps_of_run once.arena again
    exact once.steps_below analysed steps
  have alike := once'.alike once.arena fun x n => once.foldedInstr_eq analysed analysed' below
  exact ⟨f', fold_eq_ok.mpr ⟨b, again, rebuilt'⟩, alike.dump once.arena once'.arena⟩

/-- A loop whose body gives its variable a constant. -/
def Stmt.steadyLoop : Stmt :=
  .while (.binary .lt (.var "x") (.int 3)) (.block
    [.set "y" (.int 1),
      .set "x" (.binary .add (.var "y") (.int 2))])

/-- The graph of the loop, with an expression for the second assignment. -/
def Graph.steadyLoop (value : Expr) : Graph where
  nodes :=
    #[⟨0, .quit⟩, ⟨1, .loop (.binary .lt (.var "x") (.int 3)) 3 0⟩, ⟨2, .assign "x" value 1⟩,
      ⟨3, .assign "y" (.int 1) 2⟩]
  entry := 1

theorem Graph.reachable_steadyLoop (value : Expr) : (steadyLoop value).reachable = [1, 3, 2, 0] := by
  simp [reachable, search_cons, search_nil, node?, targets, successors, Node.successors, steadyLoop]

theorem Graph.dump_fold_fold_steadyLoop :
    check Stmt.steadyLoop ["x"] = .ok .empty ∧ none ∉ Stmt.steadyLoop.literals ∧
      ∃ g f f', Graph.ofProgram Stmt.steadyLoop = .ok g ∧ g.fold = .ok f ∧ f.fold = .ok f' ∧
        f'.dump = "[000] while (< x 3) body:1 join:3\n[001] assign y 1 -> 2\n" ++
          "[002] assign x 3 -> 0\n[003] quit\n" := by
  have checked : check Stmt.steadyLoop ["x"] = .ok .empty := by rfl
  have there : none ∉ Stmt.steadyLoop.literals := by decide
  have loop : Graph.ofProgram Stmt.steadyLoop = .ok (.steadyLoop (.binary .add (.var "y") (.int 2))) := by rfl
  have sum : (Graph.steadyLoop (.binary .add (.var "y") (.int 2))).fold = .ok (.steadyLoop (.int 3)) := by
    rw [Graph.fold, Analysis.run, Graph.predecessors, Progress.start, Graph.visitBudget, Graph.keyCount,
      Graph.walk, Graph.reachable_steadyLoop]
    rfl
  obtain ⟨g, formed, -, twice⟩ := Graph.dump_fold_fold Stmt.steadyLoop ["x"] checked rfl
  obtain rfl := Except.ok.inj (loop.symm.trans formed)
  obtain ⟨f', again, same⟩ := twice _ sum
  refine ⟨checked, there, _, _, f', formed, sum, again, same.trans ?_⟩
  rw [Graph.dump, Graph.walk, Graph.reachable_steadyLoop]
  rfl

end FlowFold
