import FlowFold.Proofs.Connections
import FlowFold.Proofs.Routes

/-! # Joins that never run

A dead join is the join of a live branch to which no path leads from the entry. Several branches
may have the same join; it is listed once, where the walk first meets one of them.

In the graph of a program, the nodes of the two ways out of a branch are fenced in: control
leaves them by the join of the branch, or not at all. So if the join is dead, nothing can end
there but by a return.
-/

namespace FlowFold

def Node.join? (n : Node) : Option NodeId :=
  match n.instr with
  | .branch _ _ _ join => some join
  | _ => none

theorem Node.join?_eq_some {n : Node} {join : NodeId} :
    n.join? = some join ↔ ∃ cond yes no, n.instr = .branch cond yes no join := by
  obtain ⟨id, instr⟩ := n
  cases instr <;> simp [join?]

namespace Graph

/-! ## The order of the list -/

theorem pairwise_findIdx_eraseDups {α : Type} (l : List α) (f : α → Option NodeId) :
    (l.filterMap f).eraseDups.Pairwise fun a b =>
      l.findIdx (fun x => f x == some a) < l.findIdx fun x => f x == some b := by
  induction l generalizing f with
  | nil => simp
  | cons x l ih =>
      -- A value that the head does not have comes one place later than it does in the tail.
      have later : ∀ a, f x ≠ some a →
          (x :: l).findIdx (fun y => f y == some a) = l.findIdx (fun y => f y == some a) + 1 := by
        intro a differs
        rw [List.findIdx_cons, beq_eq_false_iff_ne.mpr differs, cond_false]
      cases first : f x with
      | none =>
          rw [List.filterMap_cons_none first]
          refine (ih f).imp fun {a b} before => ?_
          rw [later a (by simp [first]), later b (by simp [first])]
          exact Nat.succ_lt_succ before
      | some c =>
          rw [List.filterMap_cons_some first, List.eraseDups_cons, List.filter_filterMap, List.pairwise_cons]
          have other : ∀ a ∈ (l.filterMap fun y => (f y).filter fun b => !b == c).eraseDups, f x ≠ some a := by
            intro a member
            simp only [List.mem_eraseDups, List.mem_filterMap, Option.filter_eq_some_iff] at member
            obtain ⟨y, -, -, differs⟩ := member
            rw [first, Ne, Option.some.injEq, eq_comm]
            simpa using differs
          -- For the values that are left it does not matter that the first one was dropped.
          have same : ∀ a, f x ≠ some a →
              (fun y => (f y).filter (fun b => !b == c) == some a) = fun y => f y == some a := by
            intro a differs
            rw [first, Ne, Option.some.injEq, eq_comm] at differs
            funext y
            rw [Bool.eq_iff_iff, beq_iff_eq, beq_iff_eq, Option.filter_eq_some_iff]
            simpa using fun _ => differs
          refine ⟨fun b member => ?_, (ih _).imp_of_mem fun {a b} memberA memberB before => ?_⟩
          · rw [later b (other b member), List.findIdx_cons, first, beq_self_eq_true]
            exact Nat.succ_pos _
          · rw [same a (other a memberA), same b (other b memberB)] at before
            rw [later a (other a memberA), later b (other b memberB)]
            exact Nat.succ_lt_succ before

/-- The place in the walk of the first branch that has the join. -/
def firstBranch (g : Graph) (join : NodeId) : Nat :=
  g.walk.findIdx fun n => n.join? == some join

theorem deadJoins_pairwise (g : Graph) :
    g.deadJoins.Pairwise fun a b => g.firstBranch a < g.firstBranch b :=
  (pairwise_findIdx_eraseDups g.walk Node.join?).filter _

variable {g : Graph}

theorem Arena.mem_deadJoins (arena : g.Arena) {join : NodeId} :
    join ∈ g.deadJoins ↔
      (∃ id cond yes no, g.Live id ∧ g.node? id = some ⟨id, .branch cond yes no join⟩) ∧ ¬ g.Live join := by
  have isJoin : join ∈ g.walk.filterMap Node.join? ↔
      ∃ id cond yes no, g.Live id ∧ g.node? id = some ⟨id, .branch cond yes no join⟩ := by
    simp only [List.mem_filterMap, arena.mem_walk, Node.join?_eq_some]
    constructor
    · rintro ⟨⟨id, instr⟩, ⟨live, found⟩, cond, yes, no, rfl⟩
      exact ⟨id, cond, yes, no, live, found⟩
    · rintro ⟨id, cond, yes, no, live, found⟩
      exact ⟨⟨id, .branch cond yes no join⟩, ⟨live, found⟩, cond, yes, no, rfl⟩
  have reached : g.reaches g.entry (fun n => n.id == join) = true ↔ g.Live join := by
    rw [arena.reaches_iff arena.entry_lt]
    constructor
    · rintro ⟨x, n, path, found, same⟩
      obtain rfl := arena.id_eq found
      rwa [← beq_iff_eq.mp same]
    · intro live
      obtain ⟨instr, found⟩ := arena.live_node live
      exact ⟨join, _, live, found, beq_self_eq_true join⟩
  have dead : join ∈ g.deadJoins ↔ join ∈ g.walk.filterMap Node.join? ∧
      (!g.reaches g.entry fun n => n.id == join) = true := by
    rw [deadJoins, List.mem_filter, List.mem_eraseDups]
    rfl
  rw [dead, isJoin, ← reached]
  simp

/-! ## Between a branch and its join -/

/-- Control leaves the region only by the exit. -/
def Fenced (g : Graph) (exit : NodeId) (region : Set NodeId) : Prop :=
  ∀ x ∈ region, ∀ y ∈ g.targets x, y = exit ∨ y ∈ region

theorem Fenced.path {exit a x : NodeId} {region : Set NodeId} (fenced : g.Fenced exit region)
    (start : a = exit ∨ a ∈ region) (path : g.Path a x) : g.Path a exit ∨ x ∈ region := by
  induction path with
  | refl =>
      rcases start with rfl | inside
      · exact .inl .refl
      · exact .inr inside
  | tail path edge ih =>
      rcases ih with out | inside
      · exact .inl out
      · rcases fenced _ inside _ edge with rfl | inside
        · exact .inl (.tail path edge)
        · exact .inr inside

/-- What stands between a branch and its join. The end of the program is not there. -/
structure Bracket (g : Graph) (yes no join : NodeId) (region : Set NodeId) : Prop where
  fenced : g.Fenced join region
  yes : yes = join ∨ yes ∈ region
  no : no = join ∨ no ∈ region
  quit : 0 ∉ region

theorem Laid.bracket {low high next : Nat} {doors : List Nat} (laid : g.Laid low high next doors)
    {yes no : Nat} (first : yes = next ∨ yes ∈ doors) (second : no = next ∨ no ∈ doors) :
    g.Bracket yes no next { x : Nat | low ≤ x ∧ x < high } where
  fenced := by
    rintro x ⟨above, below⟩ y edge
    obtain ⟨n, found⟩ := exists_node?_of_mem_targets edge
    refine laid.leads x above below y ?_
    rw [targets_eq found] at edge
    rw [handles_eq found]
    exact Node.mem_handles_of_target edge
  yes := first.elim .inl (laid.door yes)
  no := second.elim .inl (laid.door no)
  quit := by
    rintro ⟨above, -⟩
    have before := laid.before
    omega

/-- If the join of a live branch is dead, control stays in the bracket once it has taken the branch.
    A node without successors there is a return, since it is not the end of the program. -/
theorem Bracket.returns (arena : g.Arena) {id yes no join x : NodeId} {cond : Expr} {region : Set NodeId}
    (bracket : g.Bracket yes no join region) (live : g.Live id)
    (found : g.node? id = some ⟨id, .branch cond yes no join⟩) (dead : ¬ g.Live join)
    (path : g.Path yes x ∨ g.Path no x) (last : g.successors x = []) :
    ∃ result, g.node? x = some ⟨x, .ret result⟩ := by
  have liveYes : g.Live yes := live.edge (by simp [targets_eq found, Node.successors])
  have liveNo : g.Live no := live.edge (by simp [targets_eq found, Node.successors])
  have inside : g.Live x ∧ x ∈ region := by
    rcases path with path | path
    · refine ⟨liveYes.trans path, (bracket.fenced.path bracket.yes path).resolve_left fun out => ?_⟩
      exact dead (liveYes.trans out)
    · refine ⟨liveNo.trans path, (bracket.fenced.path bracket.no path).resolve_left fun out => ?_⟩
      exact dead (liveNo.trans out)
  obtain ⟨instr, here⟩ := arena.live_node inside.1
  simp only [Graph.successors, here] at last
  cases instr with
  | ret result => exact ⟨result, here⟩
  | quit =>
      obtain rfl : x = 0 := (arena.quit_iff here).mp rfl
      exact absurd inside.2 bracket.quit
  | assign | branch | loop => cases last

end Graph

theorem Stmt.Forms.bracketed {next start : NodeId} {g g' : Graph} {s : Stmt} (forms : Forms next g s start g')
    (whole : Graph) (same : ∀ id, g.size ≤ id → id < g'.size → whole.node? id = g'.node? id)
    (inside : next < g.size) {id yes no join : NodeId} {cond : Expr} (above : g.size ≤ id) (below : id < g'.size)
    (found : whole.node? id = some ⟨id, .branch cond yes no join⟩) :
    ∃ region, whole.Bracket yes no join region := by
  induction forms with
  | nil => exact absurd below (Nat.not_lt.mpr above)
  | @cons next middle start g g₁ g₂ s rest others first ihOthers ihFirst =>
      by_cases early : id < g₁.size
      · exact ihOthers (Graph.same_before first.grown same) inside above early
      · exact ihFirst (fun id above => same id (Nat.le_trans others.grown.size above))
          (others.start_lt inside) (Nat.not_lt.mp early) below
  | @assign next g | @ret next g =>
      rw [Graph.size_add] at below
      obtain rfl : id = g.size := Nat.le_antisymm (Nat.le_of_lt_succ below) above
      rw [Graph.found_last (.refl _) same] at found
      cases found
  | @ifThen next yes g g₁ cond then_ first _ ih =>
      rw [Graph.size_add] at below
      have sameFirst := Graph.same_before (.add _ _) same
      by_cases early : id < g₁.size
      · exact ih sameFirst inside above early
      · obtain rfl : id = g₁.size := Nat.le_antisymm (Nat.le_of_lt_succ below) (Nat.not_lt.mp early)
        rw [Graph.found_last first.grown same] at found
        cases found
        exact ⟨_, (first.laid whole sameFirst inside).bracket (.inr (.head _)) (.inl rfl)⟩
  | @ifElse next yes no g g₁ g₂ cond then_ otherwise first second _ ihFirst ihSecond =>
      rw [Graph.size_add] at below
      have sameBoth := Graph.same_before (.add _ _) same
      have sameFirst := Graph.same_before second.grown sameBoth
      have sameSecond : ∀ id, g₁.size ≤ id → id < g₂.size → whole.node? id = g₂.node? id :=
        fun id above => sameBoth id (Nat.le_trans first.grown.size above)
      have insideSecond := Nat.lt_of_lt_of_le inside first.grown.size
      by_cases early : id < g₁.size
      · exact ihFirst sameFirst inside above early
      · by_cases middle : id < g₂.size
        · exact ihSecond sameSecond insideSecond (Nat.not_lt.mp early) middle
        · obtain rfl : id = g₂.size := Nat.le_antisymm (Nat.le_of_lt_succ below) (Nat.not_lt.mp middle)
          rw [Graph.found_last (first.grown.trans second.grown) same] at found
          cases found
          have laid := (first.laid whole sameFirst inside).append
            (second.laid whole sameSecond insideSecond) (.inl rfl)
          exact ⟨_, laid.bracket (.inr (.head _)) (.inr (.tail _ (.head _)))⟩
  | @«while» next start g g₁ g₂ cond body _ inner closed ih =>
      obtain ⟨loop, sameBody⟩ := Graph.found_loop inner.grown closed same
      obtain ⟨-, _, _, _, _, -, rfl⟩ := Graph.setBody_eq_ok.mp closed
      rw [Graph.size_modify] at below
      by_cases head : id = g.size
      · subst head
        rw [loop] at found
        cases found
      · refine ih sameBody (by simp) ?_ below
        rw [Graph.size_add]
        exact Nat.lt_of_le_of_ne above (Ne.symm head)

/-- The list of dead joins. On every graph that was built by calls it names, once each and in the
    order in which the walk first meets a branch that has them, exactly the joins of live branches
    to which no path leads from the entry. In the graph of a program without errors, if the join of
    a live branch is listed, then every node without successors to which a path leads from either
    way out of the branch is a return. -/
theorem Graph.deadJoins_exact :
    (∀ g : Graph, g.Built →
      g.deadJoins.Nodup ∧
        g.deadJoins.Pairwise (fun a b => g.firstBranch a < g.firstBranch b) ∧
        ∀ join, join ∈ g.deadJoins ↔
          (∃ id cond yes no, g.Live id ∧ g.node? id = some ⟨id, .branch cond yes no join⟩) ∧ ¬ g.Live join) ∧
    ∀ (program : Stmt) (inputs : List String) (report : Report),
      check program inputs = .ok report → report.errors = [] →
      ∃ g, Graph.ofProgram program = .ok g ∧
        ∀ id cond yes no join, g.Live id → g.node? id = some ⟨id, .branch cond yes no join⟩ →
          join ∈ g.deadJoins → ∀ x, g.Path yes x ∨ g.Path no x → g.successors x = [] →
            ∃ result, g.node? x = some ⟨x, .ret result⟩ := by
  constructor
  · intro g built
    refine ⟨g.deadJoins_pairwise.imp ?_, g.deadJoins_pairwise, fun join => built.arena.mem_deadJoins⟩
    rintro a _ before rfl
    exact Nat.lt_irrefl _ before
  · intro program inputs report checked clean
    obtain ⟨-, rfl⟩ := check_eq_ok.mp checked
    obtain ⟨g, g', formed, built, -, forms, same⟩ := (Stmt.accepted_of_report clean).ofProgram
    refine ⟨g, formed, fun id cond yes no join live found dead x path last => ?_⟩
    have arena := built.arena
    have notQuit : id ≠ 0 := by
      rintro rfl
      rw [arena.node_zero] at found
      cases found
    have below : id < g'.size := Graph.lt_size_of_node? ((same id).symm.trans found)
    obtain ⟨region, bracket⟩ := forms.bracketed g (fun id _ _ => same id) Graph.Arena.empty.nonempty
      (Nat.pos_of_ne_zero notQuit) below found
    exact bracket.returns arena live found (arena.mem_deadJoins.mp dead).2 path last

/-- Two branches, one inside the other, with the same join. A loop comes before one of the returns. -/
def Stmt.sharedJoin : Stmt :=
  .block
    [.ite (.binary .lt (.var "x") (.int 3))
        (.block
          [.while (.binary .lt (.var "y") (.var "x")) (.set "y" (.binary .add (.var "y") (.int 1))),
            .ret (.var "y")])
        (.ite (.binary .eq (.var "x") (.int 4)) (.ret (.int 0)) (.ret (.var "x"))),
      .set "z" (.int 1)]

def Graph.sharedJoin : Graph where
  nodes :=
    #[⟨0, .quit⟩, ⟨1, .assign "z" (.int 1) 0⟩, ⟨2, .ret (.var "y")⟩,
      ⟨3, .loop (.binary .lt (.var "y") (.var "x")) 4 2⟩,
      ⟨4, .assign "y" (.binary .add (.var "y") (.int 1)) 3⟩, ⟨5, .ret (.int 0)⟩, ⟨6, .ret (.var "x")⟩,
      ⟨7, .branch (.binary .eq (.var "x") (.int 4)) 5 6 1⟩, ⟨8, .branch (.binary .lt (.var "x") (.int 3)) 3 7 1⟩]
  entry := 8

/-- The loop of the outer branch can only be followed by the return. -/
theorem Graph.deadJoins_exact_sharedJoin :
    check Stmt.sharedJoin ["x", "y"] = .ok ⟨[], [⟨.unreachable, [.index 1], .stmt (.set "z" (.int 1))⟩]⟩ ∧
      Graph.ofProgram Stmt.sharedJoin = .ok .sharedJoin ∧
      Graph.sharedJoin.Built ∧ 1 ∈ Graph.sharedJoin.deadJoins ∧ Graph.sharedJoin.Path 3 2 ∧
      ∃ result, Graph.sharedJoin.node? 2 = some ⟨2, .ret result⟩ := by
  have checked : check Stmt.sharedJoin ["x", "y"] =
      .ok ⟨[], [⟨.unreachable, [.index 1], .stmt (.set "z" (.int 1))⟩]⟩ := by rfl
  have formed : Graph.ofProgram Stmt.sharedJoin = .ok .sharedJoin := by rfl
  have accepted : Stmt.sharedJoin.Accepted :=
    Stmt.accepted_of_report (by decide : (findings Stmt.sharedJoin ["x", "y"]).errors = [])
  obtain ⟨g, -, formed', built, -⟩ := accepted.ofProgram
  obtain rfl : g = .sharedJoin := Except.ok.inj (formed'.symm.trans formed)
  have walked : Graph.sharedJoin.reachable = [8, 3, 4, 2, 7, 5, 6] := by
    simp [Graph.reachable, Graph.search_cons, Graph.search_nil, Graph.node?, Graph.targets, Graph.successors,
      Node.successors, Graph.sharedJoin]
  have dead : 1 ∈ Graph.sharedJoin.deadJoins := by
    refine ((Graph.deadJoins_exact.1 _ built).2.2 1).mpr ⟨⟨8, _, _, _, .entry _, rfl⟩, fun live => ?_⟩
    rw [← built.arena.mem_reachable, walked] at live
    exact absurd live (by decide)
  have path : Graph.sharedJoin.Path 3 2 := .single (by decide)
  obtain ⟨g, formed'', returns⟩ := Graph.deadJoins_exact.2 Stmt.sharedJoin ["x", "y"] _ checked rfl
  obtain rfl : g = .sharedJoin := Except.ok.inj (formed''.symm.trans formed)
  exact ⟨checked, formed, built, dead, path, returns 8 _ 3 7 1 (.entry _) rfl dead 2 (.inl path) rfl⟩

end FlowFold
