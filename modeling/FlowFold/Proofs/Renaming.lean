import Mathlib.Data.Set.Function
import FlowFold.Proofs.CopyOnce

/-! # Folding renames the nodes

A node stands if it is `quit` or if the entry leads to it, by edges or by the joins of
branches. Folding a nested graph gives each node that stands a new handle, one to one, and
fills the new arena with them. Up to these handles it changes nothing but expressions: where
the analysis knows a constant under a live node's own key, the copy has the constant.
-/

namespace FlowFold

namespace Graph

/-- Control may go from the one node to the other, or the other is the join of a branch. -/
def Leads (g : Graph) (a b : NodeId) : Prop :=
  b ∈ g.targets a ∨ ∃ cond yes no, g.node? a = some ⟨a, .branch cond yes no b⟩

/-- The nodes that the entry leads to, and `quit`. -/
def Stands (g : Graph) (id : NodeId) : Prop := id = 0 ∨ Relation.ReflTransGen g.Leads g.entry id

variable {f g : Graph} {a : Analysis} {origin copy : NodeId → NodeId}

theorem Arena.leads_iff (arena : g.Arena) {x y : NodeId} : g.Leads x y ↔ y ∈ g.handles x := by
  cases found : g.node? x with
  | none => simp [Leads, handles, targets, successors, found]
  | some n =>
      obtain ⟨id, instr⟩ := n
      obtain rfl : id = x := arena.id_eq found
      rw [handles_eq found, Leads, targets_eq found, found]
      cases instr with
      | quit | assign | ret | loop => simp [Node.successors, Instr.handles]
      | branch cond yes no join =>
          have join_eq : join = y ↔ y = join := eq_comm
          simp [Node.successors, Instr.handles, or_assoc, join_eq]

theorem Arena.stands_handle (arena : g.Arena) {x y : NodeId} (stands : g.Stands x)
    (handle : y ∈ g.handles x) : g.Stands y := by
  rcases stands with rfl | path
  · rw [arena.handles_zero] at handle
    cases handle
  · exact .inr (path.tail (arena.leads_iff.mpr handle))

/-- A fold that has each node that stands once: `copy` takes it to its copy, and `origin`
    takes the copy back. -/
structure FoldOnce (f : Graph) (a : Analysis) (g : Graph) (origin copy : NodeId → NodeId) : Prop
    extends f.FoldOf a g origin where
  quit : copy 0 = 0
  back : ∀ x, x < f.size → copy (origin x) = x
  stands : ∀ x, x < f.size → g.Stands (origin x)
  inside : ∀ id, g.Stands id → copy id < f.size
  forth : ∀ id, g.Stands id → origin (copy id) = id

namespace FoldOnce

theorem bijOn (once : f.FoldOnce a g origin copy) : Set.BijOn copy { id | g.Stands id } { x | x < f.size } :=
  Set.InvOn.bijOn ⟨once.forth, once.back⟩ once.inside once.stands

theorem copy_entry (once : f.FoldOnce a g origin copy) : copy g.entry = f.entry := by
  rw [← once.entry, once.back f.entry once.arena.entry_lt]

theorem node_copy (once : f.FoldOnce a g origin copy) {id : NodeId} {n : Node} (stands : g.Stands id)
    (found : g.node? id = some n) :
    f.node? (copy id) = some ⟨copy id, (a.foldedInstr n).relabel copy⟩ := by
  have inside := once.inside id stands
  obtain ⟨instr, m, here, found', folded⟩ := once.exists_copy inside
  obtain rfl : m = n := by
    rw [once.forth id stands, found] at found'
    exact (Option.some.inj found').symm
  have same : (instr.relabel origin).relabel copy = instr := by
    rw [Instr.relabel_relabel]
    refine Instr.relabel_eq_self fun h handle => ?_
    exact once.back h ((once.arena.placed here).handles_lt inside h handle)
  rw [here, ← folded, same]

end FoldOnce

end Graph

namespace Copying.Copied

variable {a : Analysis} {g : Graph} {origin : NodeId → NodeId} {r : NodeId × Copying}

theorem cached_of_covers (made : Copied a g id [] ⟨.empty, ∅⟩ g.entry r origin) (covers : r.2.Covers)
    {x : NodeId} (inside : x < r.2.graph.size) : x = 0 ∨ r.2.cache[origin x]? = some x := by
  by_cases zero : x = 0
  · exact .inl zero
  · obtain ⟨k, entry⟩ := covers x (Nat.pos_of_ne_zero zero) inside
    obtain rfl : origin x = k := (made.mirrors.cached entry).2
    exact .inr entry

theorem quit_of_origin (arena : g.Arena) (made : Copied a g id [] ⟨.empty, ∅⟩ g.entry r origin) {x : NodeId}
    (inside : x < r.2.graph.size) (stems : origin x = 0) : x = 0 := by
  obtain ⟨instr, n, here, found, folded⟩ := made.foldOf.exists_copy inside
  rw [stems, arena.node_zero, Option.some.injEq] at found
  subst found
  have placed := made.mirrors.arena.placed here
  cases instr with
  | quit => exact placed
  | assign | ret | branch | loop => cases folded

/-- What stands has been copied. The induction is along a path from the entry: the handles
    of a copy are copies of the handles. -/
theorem cached_of_stands (arena : g.Arena) (made : Copied a g id [] ⟨.empty, ∅⟩ g.entry r origin)
    (covers : r.2.Covers) {x : NodeId} (stands : g.Stands x) : x = 0 ∨ x ∈ r.2.cache := by
  rcases stands with rfl | path
  · exact .inl rfl
  induction path with
  | refl => exact .inr made.noted
  | @tail y z _ leads ih =>
      have handle := arena.leads_iff.mp leads
      rcases ih with rfl | member
      · rw [arena.handles_zero] at handle
        cases handle
      obtain ⟨y', entry⟩ := mem_iff_entry.mp member
      obtain ⟨inside, rfl⟩ := made.mirrors.cached entry
      obtain ⟨instr, n, here, found, folded⟩ := made.foldOf.exists_copy inside
      rw [Graph.handles_eq found, ← a.handles_foldedInstr, ← folded, Instr.handles_relabel] at handle
      obtain ⟨z', handle', rfl⟩ := List.mem_map.mp handle
      rcases made.cached_of_covers covers ((made.mirrors.arena.placed here).handles_lt inside z' handle') with
        rfl | entry'
      · exact .inl made.mirrors.quit
      · exact .inr (mem_iff_entry.mpr ⟨z', entry'⟩)

theorem foldOnce (arena : g.Arena) (made : Copied a g id [] ⟨.empty, ∅⟩ g.entry r origin)
    (covers : r.2.Covers) (copies : Copies g [g.entry] ⟨.empty, ∅⟩ r.2) :
    Graph.FoldOnce { r.2.graph with entry := r.1 } a g origin fun x => r.2.cache[x]?.getD 0 := by
  have quit : r.2.cache[0]?.getD 0 = 0 := by
    cases entry : r.2.cache[0]? with
    | none => rfl
    | some x =>
        obtain ⟨inside, stems⟩ := made.mirrors.cached entry
        exact made.quit_of_origin arena inside stems
  have copied : ∀ x, g.Stands x →
      r.2.cache[x]?.getD 0 < r.2.graph.size ∧ origin (r.2.cache[x]?.getD 0) = x := by
    intro x stands
    rcases made.cached_of_stands arena covers stands with rfl | member
    · rw [quit]
      exact ⟨made.mirrors.arena.nonempty, made.mirrors.quit⟩
    · obtain ⟨x', entry⟩ := mem_iff_entry.mp member
      rw [entry]
      exact made.mirrors.cached entry
  refine
    { made.foldOf with
      quit := quit
      back := ?_
      stands := ?_
      inside := fun x stands => (copied x stands).1
      forth := fun x stands => (copied x stands).2 }
  · intro x inside
    rcases made.cached_of_covers covers inside with rfl | entry
    · rw [made.mirrors.quit]
      exact quit
    · rw [entry]
      rfl
  · intro x inside
    rcases made.cached_of_covers covers inside with rfl | entry
    · exact .inl made.mirrors.quit
    · have closed := fun x (stands : x ∈ { x | g.Stands x }) (_ : x ∉ (∅ : Std.ExtTreeMap NodeId NodeId)) y
        (handle : y ∈ g.handles x) => arena.stands_handle stands handle
      have start : g.Stands g.entry := .inr .refl
      have member := mem_iff_entry.mpr ⟨x, entry⟩
      rcases copies.confined { x | g.Stands x } closed (by simpa using start) member with none | stands
      · exact absurd none Std.ExtTreeMap.not_mem_empty
      · exact stands

end Copying.Copied

theorem Analysis.rebuild_foldOnce {a : Analysis} {g : Graph} (analysed : g.Analysed a.out)
    (hasRun : a.hasRun = true) (nested : g.Nested) :
    ∃ f origin copy, a.rebuild g = .ok f ∧ f.FoldOnce a g origin copy := by
  obtain ⟨r, origin, copied, rebuilt, made⟩ := rebuild_copied analysed hasRun
  have copies := copy_copies _ copied
  have covers : r.2.Covers := by
    refine copies.covers analysed.arena nested ?_ ?_
    · intro x here loop region headed inside
      obtain rfl : x = g.entry := by simpa using here
      exact absurd inside headed.entry
    · intro x pos inside
      exact absurd pos (Nat.not_lt.mpr (Nat.lt_one_iff.mp inside).le)
  exact ⟨_, origin, _, rebuilt, made.foldOnce analysed.arena covers copies⟩

/-- A program without errors has a nested graph. It can be analysed if all literals are there, and
    once it has been analysed it can be copied. -/
theorem Graph.foldOnce_of_report {program : Stmt} {inputs : List String}
    (clean : (findings program inputs).errors = []) (earlier : Analysis) :
    ∃ g, Graph.ofProgram program = .ok g ∧ g.Built ∧ g.Nested ∧
      (none ∉ program.literals → ∃ a, earlier.run g = (a, none)) ∧
      ∀ a, earlier.run g = (a, none) → a.hasRun = true ∧ g.Analysed a.out ∧
        ∃ f origin copy, a.rebuild g = .ok f ∧ f.FoldOnce a g origin copy := by
  obtain ⟨g, g', formed, built, -, forms, same⟩ := (Stmt.accepted_of_report clean).ofProgram
  have nested := forms.nested built.arena same
  refine ⟨g, formed, built, nested, fun there => ?_, fun a run => ?_⟩
  · obtain ⟨_, -, formed', -, whole, -⟩ := (Stmt.complete_of_report clean there).ofProgram
    obtain rfl := Except.ok.inj (formed.symm.trans formed')
    exact Analysis.run_total built.arena (fun id n _ found e has => whole id n e found has) earlier
  · obtain ⟨hasRun, analysed⟩ := Analysis.analysed_of_run built.arena run
    exact ⟨hasRun, analysed, Analysis.rebuild_foldOnce analysed hasRun nested⟩

/-- The instruction with another expression, if it has one. -/
def Instr.withExpr (e : Expr) : Instr → Instr
  | quit => quit
  | assign name _ next => assign name e next
  | ret _ => ret e
  | branch _ yes no join => branch e yes no join
  | loop _ body join => loop e body join

theorem Node.withExpr_expression {n : Node} {e : Expr} (has : n.expression = some e) :
    n.instr.withExpr e = n.instr := by
  obtain ⟨id, instr⟩ := n
  cases instr with
  | quit => rfl
  | assign | ret | branch | loop =>
      cases has
      rfl

namespace Graph.Analysed

variable {g : Graph} {a : Analysis} {id : NodeId} {n : Node}

theorem foldedInstr_known (analysed : g.Analysed a.out) (live : g.Live id) (found : g.node? id = some n)
    {k : Key} {v : Value} (own : n.key? = some k) (known : (a.out.getD id ∅)[k]? = some (.known v)) :
    a.foldedInstr n = n.instr.withExpr (.const v) := by
  obtain ⟨e, has⟩ := Node.expression_of_key own
  obtain ⟨fact, at_, entry, -⟩ := analysed.factAt_live live found own has
  obtain rfl : fact = .known v := Option.some.inj (entry.symm.trans known)
  have here : n.id = id := analysed.arena.id_eq found
  obtain ⟨_, instr⟩ := n
  subst here
  cases instr with
  | quit => cases own
  | assign | ret | branch | loop =>
      cases own
      simp [Analysis.foldedInstr, Analysis.exprAt, at_, Fact.folded, Instr.withExpr]

theorem foldedInstr_same (analysed : g.Analysed a.out) (found : g.node? id = some n)
    (unknown : ∀ k v, g.Live id → n.key? = some k → (a.out.getD id ∅)[k]? ≠ some (.known v)) :
    a.foldedInstr n = n.instr := by
  have same : ∀ k, n.key? = some k → ∃ w, a.factAt id k = .ok (.unknown w) := by
    intro k own
    by_cases live : g.Live id
    · obtain ⟨e, has⟩ := Node.expression_of_key own
      obtain ⟨fact, at_, entry, -⟩ := analysed.factAt_live live found own has
      cases fact with
      | known v => exact absurd entry (unknown k v live own)
      | unknown w => exact ⟨w, at_⟩
    · exact ⟨_, analysed.factAt_dead live k⟩
  have here : n.id = id := analysed.arena.id_eq found
  obtain ⟨_, instr⟩ := n
  subst here
  cases instr with
  | quit => rfl
  | assign | ret | branch | loop =>
      obtain ⟨w, at_⟩ := same _ rfl
      simp [Analysis.foldedInstr, Analysis.exprAt, at_, Fact.folded]

end Graph.Analysed

/-- Folding the graph of a program copies each node that stands once, and makes no other
    node. The copy of a live node whose expression is known has the constant in its place;
    otherwise a copy has the expression, the variable, the edges and the join of the node.
    The analysis before that comes to its end if all literals of the program are there. -/
theorem Graph.rebuild_bijOn (program : Stmt) (inputs : List String) {report : Report}
    (checked : check program inputs = .ok report) (clean : report.errors = []) (earlier : Analysis) :
    ∃ g, Graph.ofProgram program = .ok g ∧ (none ∉ program.literals → ∃ a, earlier.run g = (a, none)) ∧
      ∀ a, earlier.run g = (a, none) → ∃ f copy, a.rebuild g = .ok f ∧
        Set.BijOn copy { id | g.Stands id } { x | x < f.size } ∧ copy g.entry = f.entry ∧ copy 0 = 0 ∧
        (∀ id, g.Live id → ∃ env, a.outAt id = .ok (some env)) ∧
        ∀ id n, g.Stands id → g.node? id = some n →
          (∀ env k v, g.Live id → a.outAt id = .ok (some env) → n.key? = some k → env[k]? = some (.known v) →
            f.node? (copy id) = some ⟨copy id, (n.instr.withExpr (.const v)).relabel copy⟩) ∧
          ((∀ env k v, g.Live id → a.outAt id = .ok (some env) → n.key? = some k →
              env[k]? ≠ some (.known v)) →
            f.node? (copy id) = some ⟨copy id, n.instr.relabel copy⟩) := by
  obtain ⟨-, rfl⟩ := check_eq_ok.mp checked
  obtain ⟨g, formed, -, -, runs, copies⟩ := Graph.foldOnce_of_report clean earlier
  refine ⟨g, formed, runs, fun a run => ?_⟩
  obtain ⟨hasRun, analysed, f, origin, copy, rebuilt, once⟩ := copies a run
  refine ⟨f, copy, rebuilt, once.bijOn, once.copy_entry, once.quit,
    fun id live => ⟨_, analysed.outAt hasRun live⟩, fun id n stands found => ⟨?_, ?_⟩⟩
  · intro env k v live out own known
    obtain rfl : a.out.getD id ∅ = env := by simpa [analysed.outAt hasRun live] using out
    rw [once.node_copy stands found, analysed.foldedInstr_known live found own known]
  · intro unknown
    rw [once.node_copy stands found, analysed.foldedInstr_same found fun k v live own =>
      unknown _ k v live (analysed.outAt hasRun live) own]

/-- A loop that never comes to its last statement, which is the join of the branch before. -/
def Stmt.deadJoin : Stmt :=
  .block
    [.set "x" (.int 0),
      .while (.binary .lt (.var "x") (.int 3)) (.block
        [.ite (.binary .lt (.int 1) (.int 2)) (.ret (.int 1)) (.ret (.var "x")),
          .set "y" (.int 7)])]

def Graph.deadJoin : Graph where
  nodes :=
    #[⟨0, .quit⟩, ⟨1, .loop (.binary .lt (.var "x") (.int 3)) 5 0⟩, ⟨2, .assign "y" (.int 7) 1⟩,
      ⟨3, .ret (.int 1)⟩, ⟨4, .ret (.var "x")⟩, ⟨5, .branch (.binary .lt (.int 1) (.int 2)) 3 4 2⟩,
      ⟨6, .assign "x" (.int 0) 1⟩]
  entry := 6

/-- The dead join is copied, with its expression as it is, and leads to the copy of the loop. -/
theorem Graph.rebuild_bijOn_deadJoin :
    (∃ report, check Stmt.deadJoin [] = .ok report ∧ report.errors = []) ∧ none ∉ Stmt.deadJoin.literals ∧
      Graph.ofProgram Stmt.deadJoin = .ok .deadJoin ∧
      Graph.deadJoin.Stands 2 ∧ ¬ Graph.deadJoin.Live 2 ∧
      ∃ a f copy, Analysis.new.run .deadJoin = (a, none) ∧ a.rebuild .deadJoin = .ok f ∧
        Set.BijOn copy { id | Graph.deadJoin.Stands id } { x | x < f.size } ∧
        f.node? (copy 2) = some ⟨copy 2, .assign "y" (.int 7) (copy 1)⟩ := by
  have checked : check Stmt.deadJoin [] = .ok (findings Stmt.deadJoin []) := by rfl
  have clean : (findings Stmt.deadJoin []).errors = [] := by decide
  have there : none ∉ Stmt.deadJoin.literals := by decide
  have formed : Graph.ofProgram Stmt.deadJoin = .ok .deadJoin := by rfl
  have stands : Graph.deadJoin.Stands 2 := by
    have entered : Graph.deadJoin.Leads 6 1 := .inl (by decide)
    have tested : Graph.deadJoin.Leads 1 5 := .inl (by decide)
    have joined : Graph.deadJoin.Leads 5 2 := .inr ⟨_, _, _, rfl⟩
    exact .inr (((Relation.ReflTransGen.single entered).tail tested).tail joined)
  have dead : ¬ Graph.deadJoin.Live 2 := by
    have closed : ∀ x ∈ [0, 1, 3, 4, 5, 6], ∀ y ∈ Graph.deadJoin.targets x, y ∈ [0, 1, 3, 4, 5, 6] := by decide
    have inside : ∀ id, Graph.deadJoin.Live id → id ∈ [0, 1, 3, 4, 5, 6] := by
      intro id live
      induction live with
      | refl => decide
      | tail _ edge ih => exact closed _ ih _ edge
    exact fun live => absurd (inside 2 live) (by decide)
  obtain ⟨g, formed', runs, copies⟩ := Graph.rebuild_bijOn Stmt.deadJoin [] checked clean .new
  obtain rfl : g = .deadJoin := Except.ok.inj (formed'.symm.trans formed)
  obtain ⟨a, run⟩ := runs there
  obtain ⟨f, copy, rebuilt, bijOn, -, -, -, node⟩ := copies a run
  refine ⟨⟨_, checked, clean⟩, there, formed, stands, dead, a, f, copy, run, rebuilt, bijOn, ?_⟩
  exact (node 2 _ stands rfl).2 fun _ _ _ live => absurd live dead

end FlowFold
