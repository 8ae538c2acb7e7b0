import FlowFold.Proofs.Copy
import FlowFold.Proofs.WellFormed

/-! # Copying ends on every graph that can be built

A caller may make any node the body of a loop and any node the entry, so a loop may be
entered in its middle, and a node may be met again while it is being copied. Copying ends
all the same: the depth that is granted to it is never used up, and more depth would not
change what it does.

The copy is made by the calls that every graph is made by, so it keeps the invariant of the
arena. All its handles are copies of handles. In particular no loop keeps the stand-in that
it had for a body while its body was being copied.
-/

namespace FlowFold

namespace Graph.Built

theorem setBody {g g' : Graph} (built : g.Built) {loop body : NodeId}
    (done : g.setBody loop body = .ok g') : g'.Built :=
  built.apply (.setBody loop body) done

theorem setEntry {g g' : Graph} (built : g.Built) {id : NodeId} (done : g.setEntry id = .ok g') :
    g'.Built :=
  built.apply (.setEntry id) done

end Graph.Built

namespace Analysis

variable {a : Analysis} {g : Graph}

theorem copy_deeper {depth depth' : Nat} (le : depth ≤ depth') {id : NodeId} {c : Copying}
    {r : NodeId × Copying} (copied : a.copy g depth id c = .ok r) : a.copy g depth' id c = .ok r := by
  induction depth generalizing depth' id c r with
  | zero => cases copied
  | succ depth ih =>
      obtain ⟨depth', rfl⟩ := Nat.exists_eq_add_of_lt le
      have below : depth ≤ depth + depth' := Nat.le_add_right depth depth'
      cases hit : c.cache[id]? with
      | some done => simpa [copy, hit] using copied
      | none =>
          simp only [copy, hit, except_bind_eq_ok] at copied ⊢
          obtain ⟨⟨own, instr⟩, found, copied⟩ := copied
          refine ⟨⟨own, instr⟩, found, ?_⟩
          cases instr with
          | quit | ret => exact copied
          | assign name value next =>
              simp only [except_bind_eq_ok] at copied ⊢
              obtain ⟨fact, known, r₁, copyNext, added⟩ := copied
              exact ⟨fact, known, r₁, ih below copyNext, added⟩
          | branch cond yes no join =>
              simp only [except_bind_eq_ok] at copied ⊢
              obtain ⟨fact, known, r₁, copyYes, r₂, copyNo, r₃, copyJoin, added⟩ := copied
              exact ⟨fact, known, r₁, ih below copyYes, r₂, ih below copyNo, r₃, ih below copyJoin, added⟩
          | loop cond body join =>
              simp only [except_bind_eq_ok] at copied ⊢
              obtain ⟨fact, known, r₁, copyJoin, new, added, r₂, copyBody, closed⟩ := copied
              exact ⟨fact, known, r₁, ih below copyJoin, new, added, r₂, ih below copyBody, closed⟩

/-- A copy is made by the calls with which graphs are built. -/
theorem copy_built (depth : Nat) {id : NodeId} {c : Copying} {r : NodeId × Copying}
    (copied : a.copy g depth id c = .ok r) (built : c.graph.Built) : r.2.graph.Built := by
  induction depth generalizing id c r with
  | zero => cases copied
  | succ depth ih =>
      cases hit : c.cache[id]? with
      | some done =>
          obtain rfl : (done, c) = r := by simpa [copy, hit] using copied
          exact built
      | none =>
          simp only [copy, hit, except_bind_eq_ok] at copied
          obtain ⟨⟨own, instr⟩, -, copied⟩ := copied
          cases instr with
          | quit =>
              obtain rfl := Except.ok.inj copied
              exact built
          | assign name value next =>
              simp only [except_bind_eq_ok, Graph.addAssign_eq_ok] at copied
              obtain ⟨fact, -, r₁, copyNext, -, ⟨inside, rfl⟩, copied⟩ := copied
              obtain rfl := Except.ok.inj copied
              exact (ih copyNext built).addAssign inside
          | ret result =>
              simp only [except_bind_eq_ok] at copied
              obtain ⟨fact, -, copied⟩ := copied
              obtain rfl := Except.ok.inj copied
              exact built.addReturn
          | branch cond yes no join =>
              simp only [except_bind_eq_ok, Graph.addBranch_eq_ok] at copied
              obtain ⟨fact, -, r₁, copyYes, r₂, copyNo, r₃, copyJoin, -, ⟨inside, rfl⟩, copied⟩ := copied
              obtain rfl := Except.ok.inj copied
              exact (ih copyJoin (ih copyNo (ih copyYes built))).addBranch inside
          | loop cond body join =>
              simp only [except_bind_eq_ok, Graph.addLoop_eq_ok] at copied
              obtain ⟨fact, -, r₁, copyJoin, -, ⟨inside, rfl⟩, r₂, copyBody, graph, closed, copied⟩ := copied
              obtain rfl := Except.ok.inj copied
              exact (ih copyBody ((ih copyJoin built).addLoop inside)).setBody closed

end Analysis

theorem Graph.FoldOf.loop {f g : Graph} {a : Analysis} {origin : NodeId → NodeId} (fold : f.FoldOf a g origin)
    {x body join : NodeId} {cond : Expr} (inside : x < f.size)
    (found : g.node? (origin x) = some ⟨origin x, .loop cond body join⟩) :
    ∃ cond' body' join', f.node? x = some ⟨x, .loop cond' body' join'⟩ ∧ origin body' = body ∧
      origin join' = join := by
  obtain ⟨instr, n, here, found', folded⟩ := fold.exists_copy inside
  obtain rfl : ⟨origin x, .loop cond body join⟩ = n := Option.some.inj (found.symm.trans found')
  cases instr with
  | loop cond' body' join' =>
      injection folded with _ sameBody sameJoin
      exact ⟨cond', body', join', here, sameBody, sameJoin⟩
  | quit | assign | ret | branch => cases folded

/-- On a graph built by any calls the analysis and then the copying end. With the depth that
    is granted, and with any greater one, copying gives the same result. The graph made is
    built by calls as well. Each of its nodes is the folded copy of a node, handles included,
    and the cache knows one copy of each node that was met. In particular the body of a copy
    of a loop is a copy of the loop's body. -/
theorem Analysis.rebuild_ends {g : Graph} (built : g.Built) (complete : g.Complete) (earlier : Analysis) :
    ∃ a r f origin, earlier.run g = (a, none) ∧
      (∀ depth, (g.loopCount + 1) * g.size ≤ depth → a.copy g depth g.entry ⟨.empty, ∅⟩ = .ok r) ∧
      a.rebuild g = .ok f ∧ f = { r.2.graph with entry := r.1 } ∧ f.Built ∧ f.Arena ∧
      origin f.entry = g.entry ∧ (∀ id x : NodeId, r.2.cache[id]? = some x → x < f.size ∧ origin x = id) ∧
      (∀ x instr, f.node? x = some ⟨x, instr⟩ →
        ∃ n, g.node? (origin x) = some n ∧ instr.relabel origin = a.foldedInstr n) ∧
      ∀ x cond body join, x < f.size → g.node? (origin x) = some ⟨origin x, .loop cond body join⟩ →
        ∃ cond' body' join', f.node? x = some ⟨x, .loop cond' body' join'⟩ ∧ origin body' = body ∧
          origin join' = join := by
  obtain ⟨a, run, hasRun, analysed⟩ := Analysis.run_analysed built.arena complete earlier
  obtain ⟨r, origin, copied, rebuilt, made⟩ := Analysis.rebuild_copied analysed hasRun
  have fold := made.foldOf
  have builtCopy : Graph.Built { r.2.graph with entry := r.1 } :=
    (copy_built _ copied .empty).setEntry (Graph.setEntry_eq_ok.mpr ⟨made.inside, rfl⟩)
  exact ⟨a, r, _, origin, run, fun depth le => copy_deeper le copied, rebuilt, rfl, builtCopy, fold.arena,
    fold.entry, fun _ _ => made.mirrors.cached, fun _ _ => fold.node, fun _ _ _ _ => fold.loop⟩

/-- Calls that build two loops, the one in the body of the other, and make the inner loop the
    entry. The inner loop is copied as the body of the outer one while its own join, which is
    the outer loop, is being copied, and then again. -/
def Graph.enteredByInnerLoop : List Graph.Call :=
  [.addLoop (.binary .lt (.var "x") (.int 3)) 0,
    .addLoop (.binary .lt (.var "y") (.var "x")) 1,
    .addAssign "y" (.binary .add (.var "y") (.int 1)) 2,
    .setBody 1 2,
    .setBody 2 3,
    .setEntry 2]

theorem Analysis.rebuild_ends_enteredByInnerLoop :
    let g := Graph.build Graph.enteredByInnerLoop
    g.Built ∧ g.Complete ∧ ∃ (a : Analysis) (f : Graph) (origin : NodeId → NodeId),
      Analysis.new.run g = (a, none) ∧ a.rebuild g = .ok f ∧ f.Arena ∧
      ∃ inner body outer body' join join', f.node? f.entry = some ⟨f.entry, .loop inner body join⟩ ∧
        origin body = 3 ∧ f.node? join = some ⟨join, .loop outer body' join'⟩ ∧ origin body' = 2 := by
  intro g
  have built : g.Built := ⟨_, rfl⟩
  have complete : g.Complete := Graph.forall_live (by decide)
  obtain ⟨a, r, f, origin, run, -, rebuilt, -, -, arena, entry, -, -, loop⟩ :=
    Analysis.rebuild_ends built complete .new
  have isInner : g.node? (origin f.entry) =
      some ⟨origin f.entry, .loop (.binary .lt (.var "y") (.var "x")) 3 1⟩ := by
    rw [entry]
    rfl
  obtain ⟨inner, body, join, here, stems, stemsJoin⟩ := loop f.entry _ _ _ arena.entry_lt isInner
  have inside : join < f.size := Nat.lt_trans (arena.placed here).2 arena.entry_lt
  have isOuter : g.node? (origin join) =
      some ⟨origin join, .loop (.binary .lt (.var "x") (.int 3)) 2 0⟩ := by
    rw [stemsJoin]
    rfl
  obtain ⟨outer, body', join', here', stems', -⟩ := loop join _ _ _ inside isOuter
  exact ⟨built, complete, a, f, origin, run, rebuilt, arena, inner, body, outer, body', join, join', here,
    stems, here', stems'⟩

end FlowFold
