import FlowFold.Proofs.Folding
import FlowFold.Proofs.Likeness
import FlowFold.Proofs.Renaming

/-! # What a folded graph inherits

Edges of a copy stem from edges, so what is live in a folded graph stems from what is live
in the graph. An expression of the folded graph is the one it stems from or a constant: the
folded graph is complete if the graph is, and well formed if the graph is.

If each node was copied once, edges also lead to edges of the copies, and the copy of a
nested graph is nested.
-/

namespace FlowFold

theorem Instr.ahead_relabel (instr : Instr) (f : NodeId → NodeId) :
    (instr.relabel f).ahead = instr.ahead.map f := by
  cases instr <;> rfl

theorem Instr.body?_relabel (instr : Instr) (f : NodeId → NodeId) :
    (instr.relabel f).body? = instr.body?.map f := by
  cases instr <;> rfl

namespace Node

theorem key?_relabel (instr : Instr) (id : NodeId) (f : NodeId → NodeId) :
    (Node.mk id (instr.relabel f)).key? = (Node.mk id instr).key? := by
  cases instr <;> rfl

theorem expression_relabel (instr : Instr) (id : NodeId) (f : NodeId → NodeId) {id' : NodeId} :
    (Node.mk id (instr.relabel f)).expression = (Node.mk id' instr).expression := by
  cases instr <;> rfl

theorem key_of_expression {n : Node} {e : Expr} (has : n.expression = some e) : ∃ k, n.key? = some k := by
  obtain ⟨id, instr⟩ := n
  cases instr with
  | quit => cases has
  | assign | ret | branch | loop => exact ⟨_, rfl⟩

theorem key?_eq_var {instr : Instr} {id id' : NodeId} {y : String} :
    (Node.mk id instr).key? = some (.var y) ↔ (Node.mk id' instr).key? = some (.var y) := by
  cases instr with
  | quit | assign => exact Iff.rfl
  | ret | branch | loop => simp [key?, (Key.var_ne_expr y _).symm]

end Node

namespace Analysis

variable (a : Analysis)

theorem key?_foldedInstr (n : Node) : (Node.mk n.id (a.foldedInstr n)).key? = n.key? := by
  obtain ⟨id, instr⟩ := n
  cases instr <;> rfl

theorem expression_foldedInstr {n : Node} {k : Key} {e : Expr} (own : n.key? = some k)
    (has : n.expression = some e) {id : NodeId} :
    (Node.mk id (a.foldedInstr n)).expression = some (a.exprAt n.id k e) := by
  obtain ⟨_, instr⟩ := n
  cases instr with
  | quit => cases own
  | assign | ret | branch | loop =>
      cases own
      cases has
      rfl

theorem ahead_foldedInstr (n : Node) : (a.foldedInstr n).ahead = n.instr.ahead := by
  obtain ⟨id, instr⟩ := n
  cases instr <;> rfl

theorem body?_foldedInstr (n : Node) : (a.foldedInstr n).body? = n.instr.body? := by
  obtain ⟨id, instr⟩ := n
  cases instr <;> rfl

theorem successors_foldedInstr (n : Node) : (Node.mk n.id (a.foldedInstr n)).successors = n.successors := by
  obtain ⟨id, instr⟩ := n
  cases instr <;> rfl

end Analysis

namespace Graph

variable {f g : Graph} {a : Analysis} {origin copy : NodeId → NodeId} {x : NodeId}

theorem Live.stands (live : g.Live x) : g.Stands x := by
  refine .inr ?_
  induction live with
  | refl => exact .refl
  | tail _ edge ih => exact ih.tail (.inl edge)

namespace FoldOf

variable (fold : f.FoldOf a g origin)
include fold

theorem handles_map (inside : x < f.size) : g.handles (origin x) = (f.handles x).map origin := by
  obtain ⟨instr, n, here, found, folded⟩ := fold.exists_copy inside
  rw [handles_eq found, handles_eq here, ← Instr.handles_relabel, folded, a.handles_foldedInstr]

theorem ahead_map (inside : x < f.size) : g.ahead (origin x) = (f.ahead x).map origin := by
  obtain ⟨instr, n, here, found, folded⟩ := fold.exists_copy inside
  rw [ahead_eq found, ahead_eq here, ← Instr.ahead_relabel, folded, a.ahead_foldedInstr]

theorem body?_map (inside : x < f.size) : g.body? (origin x) = (f.body? x).map origin := by
  obtain ⟨instr, n, here, found, folded⟩ := fold.exists_copy inside
  rw [body?_eq found, body?_eq here, ← Instr.body?_relabel, folded, a.body?_foldedInstr]

theorem targets_map (inside : x < f.size) : g.targets (origin x) = (f.targets x).map origin := by
  obtain ⟨instr, n, here, found, folded⟩ := fold.exists_copy inside
  rw [targets_eq found, targets_eq here, ← Node.map_target_relabel _ n.id, folded, a.successors_foldedInstr]

theorem live (live : f.Live x) : g.Live (origin x) := by
  induction live with
  | refl =>
      rw [fold.entry]
      exact .entry g
  | @tail y z before edge ih =>
      refine ih.edge ?_
      rw [fold.targets_map (fold.arena.live_lt before)]
      exact List.mem_map_of_mem edge

theorem key_var {n n' : Node} (here : f.node? x = some n') (found : g.node? (origin x) = some n)
    (y : String) : n'.key? = some (.var y) ↔ n.key? = some (.var y) := by
  obtain ⟨instr, m, here', found', folded⟩ := fold.exists_copy (lt_size_of_node? here)
  obtain rfl : n' = ⟨x, instr⟩ := Option.some.inj (here.symm.trans here')
  obtain rfl : n = m := Option.some.inj (found.symm.trans found')
  rw [← a.key?_foldedInstr n, ← folded, Node.key?_relabel, Node.key?_eq_var]

theorem expression (arena : g.Arena) {n' : Node} {e' : Expr} (here : f.node? x = some n')
    (has' : n'.expression = some e') :
    ∃ n k e, g.node? (origin x) = some n ∧ n.key? = some k ∧ n.expression = some e ∧
      e' = a.exprAt (origin x) k e := by
  obtain ⟨instr, n, here', found, folded⟩ := fold.exists_copy (lt_size_of_node? here)
  obtain rfl : n' = ⟨x, instr⟩ := Option.some.inj (here.symm.trans here')
  rw [← Node.expression_relabel instr n.id origin, folded] at has'
  obtain ⟨k, own⟩ := Node.key_of_expression has'
  rw [a.key?_foldedInstr] at own
  obtain ⟨e, has⟩ := Node.expression_of_key own
  rw [a.expression_foldedInstr own has, arena.id_eq found] at has'
  exact ⟨n, k, e, found, own, has, (Option.some.inj has').symm⟩

theorem complete (arena : g.Arena) (complete : g.Complete) : f.Complete := by
  intro x n' live here e' has'
  obtain ⟨n, k, e, found, -, has, rfl⟩ := fold.expression arena here has'
  have whole := complete (origin x) n (fold.live live) found e has
  unfold Analysis.exprAt
  split
  · rename_i fact _
    cases fact with
    | known v => trivial
    | unknown => exact whole
  · exact whole

theorem wellFormed (analysed : g.Analysed a.out) (wf : g.WellFormed) : f.WellFormed := by
  intro x n' live here e' has'
  obtain ⟨n, k, e, found, own, has, rfl⟩ := fold.expression analysed.arena here has'
  exact analysed.wellFormed_exprAt wf (fold.live live) found own has

end FoldOf

/-! ## A copy of a nested graph -/

namespace FoldOnce

variable (once : f.FoldOnce a g origin copy)
include once

theorem eq_of_origin_eq {y : NodeId} (insideX : x < f.size) (insideY : y < f.size)
    (same : origin x = origin y) : x = y := by
  rw [← once.back x insideX, same, once.back y insideY]

theorem targets_copy (stands : g.Stands x) : f.targets (copy x) = (g.targets x).map copy := by
  have inside := once.inside x stands
  have targets := once.targets_map inside
  rw [once.forth x stands] at targets
  have same : (f.targets (copy x)).map (copy ∘ origin) = (f.targets (copy x)).map id :=
    List.map_congr_left fun y edge => once.back y (once.arena.target_lt edge)
  rw [targets, List.map_map, same, List.map_id]

theorem live_copy (live : g.Live x) : f.Live (copy x) := by
  induction live with
  | refl =>
      rw [once.copy_entry]
      exact .entry f
  | @tail y z before edge ih =>
      refine ih.edge ?_
      rw [once.targets_copy (Live.stands before)]
      exact List.mem_map_of_mem edge

theorem nested (nested : g.Nested) : f.Nested := by
  intro loop b isLoop
  have loopLt := (once.arena.handle_lt (mem_handles.mpr (.inr isLoop))).1
  have body_map {x b : NodeId} (isBody : f.body? x = some b) : g.body? (origin x) = some (origin b) := by
    rw [once.body?_map (once.arena.handle_lt (mem_handles.mpr (.inr isBody))).1, isBody, Option.map_some]
  obtain ⟨region, headed⟩ := nested (origin loop) (origin b) (body_map isLoop)
  refine ⟨{ x | x < f.size ∧ origin x ∈ region }, ?_, ?_, ?_, ?_, ?_⟩
  · rintro ⟨-, inRegion⟩
    rw [once.entry] at inRegion
    exact headed.entry inRegion
  · intro b' isBody
    have inside := (once.arena.handle_lt (mem_handles.mpr (.inr isBody))).2
    exact (headed.body _ (body_map isBody)).imp (once.eq_of_origin_eq inside loopLt) fun inRegion =>
      ⟨inside, inRegion⟩
  · rintro x ⟨insideX, inRegion⟩ h handle
    have inside := (once.arena.handle_lt handle).2
    have handle' : origin h ∈ g.handles (origin x) := by
      rw [once.handles_map insideX]
      exact List.mem_map_of_mem handle
    exact (headed.stays _ inRegion _ handle').imp (once.eq_of_origin_eq inside loopLt) fun inRegion =>
      ⟨inside, inRegion⟩
  · rintro x h ahead ⟨-, inRegion⟩
    have inside := (once.arena.handle_lt (mem_handles.mpr (.inl ahead))).1
    refine ⟨inside, headed.ahead _ (origin h) ?_ inRegion⟩
    rw [once.ahead_map inside]
    exact List.mem_map_of_mem ahead
  · rintro x b' isBody ⟨-, inRegion⟩
    have inside := (once.arena.handle_lt (mem_handles.mpr (.inr isBody))).1
    exact (headed.through _ _ (body_map isBody) inRegion).imp (once.eq_of_origin_eq inside loopLt) fun inRegion =>
      ⟨inside, inRegion⟩

end FoldOnce

end Graph

end FlowFold
