import FlowFold.Proofs.Interpreter
import FlowFold.Proofs.Warnings

/-! # The nodes of statements

The nodes of a statement stand in a row in the graph, entered at a start and left for a
follower. Each site of the statement has a node, which does what its step says. An edge
leads to the node of a site that control gets to from there in the tree, or to the follower
of a statement that control gets past. So the nodes that can be reached from the start of a
program are those of the sites that control can get to, whether or not only paths count
that do not assign some variable.
-/

namespace FlowFold

/-- What an instruction does is what a step says. -/
def Instr.Does : Instr → Stmt → Prop
  | assign name value _, .assign target value' => target = some name ∧ value' = value
  | ret result, .ret result' => result' = result
  | branch cond _ _ _, .ite cond' _ _ => cond' = cond
  | loop cond _ _, .while cond' _ => cond' = cond
  | _, _ => False

def Node.Assigns (n : Node) (x : String) : Prop :=
  ∃ value next, n.instr = .assign x value next

namespace Graph

def Assigns (g : Graph) (id : NodeId) (x : String) : Prop :=
  ∃ n, g.node? id = some n ∧ n.Assigns x

/-- Control can go on from one node to the other. If a variable is given, the first node
    does not assign it. -/
def Onward (g : Graph) (x : Option String) (a b : NodeId) : Prop :=
  b ∈ g.targets a ∧ ∀ y ∈ x, ¬ g.Assigns a y

variable {g : Graph} {x : Option String} {id own b : NodeId}

theorem onward_assign {name : String} {value : Expr} {next : NodeId}
    (found : g.node? id = some ⟨own, .assign name value next⟩) :
    g.Onward x id b ↔ b = next ∧ (Stmt.assign (some name) value).passes x = true := by
  have assigns : ∀ y, g.Assigns id y ↔ name = y := by
    intro y
    simp [Assigns, Node.Assigns, found]
  rw [Onward, targets_eq found]
  cases x <;> simp [Node.successors, Stmt.passes, assigns]

theorem onward_ret {result : Expr} (found : g.node? id = some ⟨own, .ret result⟩) : ¬ g.Onward x id b := by
  simp [Onward, targets_eq found, Node.successors]

theorem onward_branch {cond : Expr} {yes no join : NodeId}
    (found : g.node? id = some ⟨own, .branch cond yes no join⟩) : g.Onward x id b ↔ b = yes ∨ b = no := by
  simp [Onward, targets_eq found, Node.successors, Assigns, Node.Assigns, found]

theorem onward_loop {cond : Expr} {body join : NodeId}
    (found : g.node? id = some ⟨own, .loop cond body join⟩) : g.Onward x id b ↔ b = body ∨ b = join := by
  simp [Onward, targets_eq found, Node.successors, Assigns, Node.Assigns, found]

end Graph

namespace Stmt

/-- The nodes of a statement in a graph are those from `base` up to `top`. They are entered at
    `start` and left for `next`. An else branch that is absent has no nodes. -/
inductive Spans (g : Graph) : NodeId → Nat → Stmt → NodeId → Nat → Prop where
  | missing {next : NodeId} {base : Nat} : Spans g next base .missing next base
  | nil {next : NodeId} {base : Nat} : Spans g next base (.block []) next base
  | cons {next middle start : NodeId} {base mid top : Nat} {s : Stmt} {rest : List Stmt}
      (others : Spans g next base (.block rest) middle mid) (first : Spans g middle mid s start top) :
      Spans g next base (.block (s :: rest)) start top
  | assign {next : NodeId} {base : Nat} {name : String} {value : Expr}
      (found : g.node? base = some ⟨base, .assign name value next⟩) :
      Spans g next base (.assign (some name) value) base (base + 1)
  | ret {next : NodeId} {base : Nat} {result : Expr} (found : g.node? base = some ⟨base, .ret result⟩) :
      Spans g next base (.ret result) base (base + 1)
  | ite {next yes no : NodeId} {base mid top : Nat} {cond : Expr} {then_ otherwise : Stmt}
      (first : Spans g next base then_ yes mid) (second : Spans g next mid otherwise no top)
      (found : g.node? top = some ⟨top, .branch cond yes no next⟩) :
      Spans g next base (.ite cond then_ otherwise) top (top + 1)
  | while {next start : NodeId} {base top : Nat} {cond : Expr} {body : Stmt}
      (found : g.node? base = some ⟨base, .loop cond start next⟩)
      (inner : Spans g base (base + 1) body start top) : Spans g next base (.while cond body) base top

theorem Forms.spans {next start : NodeId} {g g' : Graph} {s : Stmt} (forms : Forms next g s start g')
    (whole : Graph) (same : ∀ id, g.size ≤ id → id < g'.size → whole.node? id = g'.node? id) :
    Spans whole next g.size s start g'.size := by
  induction forms with
  | nil => exact .nil
  | cons others first ihOthers ihFirst =>
      exact .cons (ihOthers (Graph.same_before first.grown same))
        (ihFirst fun id above => same id (Nat.le_trans others.grown.size above))
  | assign =>
      rw [Graph.size_add]
      exact .assign (Graph.found_last (.refl _) same)
  | ret =>
      rw [Graph.size_add]
      exact .ret (Graph.found_last (.refl _) same)
  | ifThen first _ ih =>
      rw [Graph.size_add]
      exact .ite (ih (Graph.same_before (.add _ _) same)) .missing (Graph.found_last first.grown same)
  | ifElse first second _ ihFirst ihSecond =>
      have same₂ := Graph.same_before (.add _ _) same
      rw [Graph.size_add]
      exact .ite (ihFirst (Graph.same_before second.grown same₂))
        (ihSecond fun id above => same₂ id (Nat.le_trans first.grown.size above))
        (Graph.found_last (first.grown.trans second.grown) same)
  | «while» _ inner closed ih =>
      obtain ⟨found, sameBody⟩ := Graph.found_loop inner.grown closed same
      obtain ⟨-, _, _, _, _, -, rfl⟩ := Graph.setBody_eq_ok.mp closed
      have spans := ih sameBody
      rw [Graph.size_add] at spans
      rw [Graph.size_modify]
      exact .while found spans

variable {g : Graph} {x : Option String}

mutual

theorem Spans.top_eq (s : Stmt) {next start : NodeId} {base top : Nat}
    (spans : Spans g next base s start top) (x : Option String) (reached : Bool) (place : Place) :
    top = base + (s.sites x reached place base).length := by
  cases s with
  | block body => exact Spans.top_eqAll body spans x reached place 0
  | assign | ret =>
      cases spans
      rfl
  | ite cond then_ otherwise =>
      cases spans with
      | ite first second found =>
          obtain rfl := Spans.top_eq then_ first x reached (place ++ [.thenBranch])
          obtain rfl := Spans.top_eq otherwise second x reached (place ++ [.elseBranch])
          simp [sites, Nat.add_assoc]
  | «while» cond body =>
      cases spans with
      | «while» found inner =>
          obtain rfl := Spans.top_eq body inner x reached (place ++ [.body])
          simp [sites, Nat.add_assoc, Nat.add_comm 1]
  | missing =>
      cases spans
      rfl
  | hollow | foreign => cases spans

theorem Spans.top_eqAll (body : List Stmt) {next start : NodeId} {base top : Nat}
    (spans : Spans g next base (.block body) start top) (x : Option String) (reached : Bool) (place : Place)
    (i : Nat) : top = base + (sitesAll x reached place i base body).length := by
  cases body with
  | nil =>
      cases spans
      rfl
  | cons s rest =>
      cases spans with
      | cons others first =>
          obtain rfl := Spans.top_eqAll rest others x (reached && s.passes x) place (i + 1)
          obtain rfl := Spans.top_eq s first x reached (place ++ [.index i])
          simp [sitesAll, Nat.add_assoc]

end

mutual

theorem Spans.does (s : Stmt) {next start : NodeId} {base top : Nat} (spans : Spans g next base s start top)
    {reached : Bool} {place : Place} {site : Site} (member : site ∈ s.sites x reached place base) :
    ∃ instr, g.node? site.id = some ⟨site.id, instr⟩ ∧ instr.Does site.stmt := by
  cases s with
  | block body => exact Spans.doesAll body spans member
  | assign target value =>
      cases spans with
      | assign found =>
          obtain rfl := List.mem_singleton.mp member
          exact ⟨_, found, rfl, rfl⟩
  | ret result =>
      cases spans with
      | ret found =>
          obtain rfl := List.mem_singleton.mp member
          exact ⟨_, found, rfl⟩
  | ite cond then_ otherwise =>
      cases spans with
      | ite first second found =>
          obtain rfl := Spans.top_eq then_ first x reached (place ++ [.thenBranch])
          obtain rfl := Spans.top_eq otherwise second x reached (place ++ [.elseBranch])
          simp only [sites, List.mem_append, List.mem_singleton, or_assoc] at member
          rcases member with inYes | inNo | rfl
          · exact Spans.does then_ first inYes
          · exact Spans.does otherwise second inNo
          · exact ⟨_, found, rfl⟩
  | «while» cond body =>
      cases spans with
      | «while» found inner =>
          rcases List.mem_cons.mp member with rfl | inBody
          · exact ⟨_, found, rfl⟩
          · exact Spans.does body inner inBody
  | missing | hollow | foreign => cases member

theorem Spans.doesAll (body : List Stmt) {next start : NodeId} {base top : Nat}
    (spans : Spans g next base (.block body) start top) {reached : Bool} {place : Place} {i : Nat}
    {site : Site} (member : site ∈ sitesAll x reached place i base body) :
    ∃ instr, g.node? site.id = some ⟨site.id, instr⟩ ∧ instr.Does site.stmt := by
  cases body with
  | nil => cases member
  | cons s rest =>
      cases spans with
      | cons others first =>
          obtain rfl := Spans.top_eqAll rest others x (reached && s.passes x) place (i + 1)
          rcases List.mem_append.mp member with inRest | inFirst
          · exact Spans.doesAll rest others inRest
          · exact Spans.does s first inFirst

end

/-! ## Where control can get -/

/-- Control can get to a node: it is that of a site that control gets to, or the follower of what
    control gets past. -/
def Gets (sites : List Site) (passes : Bool) (next id : NodeId) : Prop :=
  id = next ∧ passes = true ∨ ∃ site ∈ sites, site.reached = true ∧ site.id = id

theorem Gets.mono {sites sites' : List Site} {passes passes' : Bool} {next id : NodeId}
    (gets : Gets sites passes next id) (more : sites ⊆ sites') (wider : passes = true → passes' = true) :
    Gets sites' passes' next id := by
  rcases gets with ⟨rfl, past⟩ | ⟨site, member, here⟩
  · exact .inl ⟨rfl, wider past⟩
  · exact .inr ⟨site, more member, here⟩

/-- What control gets to on its way to a follower, it gets to on the way past the follower. -/
theorem Gets.before {sites later : List Site} {passes past : Bool} {middle next id : NodeId}
    (gets : Gets sites passes middle id) (rest : passes = true → Gets later past next middle) :
    Gets (later ++ sites) (passes && past) next id := by
  rcases gets with ⟨rfl, here⟩ | ⟨site, member, here⟩
  · exact (rest here).mono (List.subset_append_left _ _) (by simp [here])
  · exact .inr ⟨site, List.mem_append_right _ member, here⟩

theorem Gets.ofThen {cond : Expr} {then_ otherwise : Stmt} {place : Place} {base : Nat} {next id : NodeId}
    (gets : Gets (then_.sites x true (place ++ [.thenBranch]) base) (then_.passes x) next id) :
    Gets ((Stmt.ite cond then_ otherwise).sites x true place base)
      ((Stmt.ite cond then_ otherwise).passes x) next id :=
  gets.mono (by simp [sites]) (by simp +contextual [passes])

theorem Gets.ofElse {cond : Expr} {then_ otherwise : Stmt} {place : Place} {base : Nat} {next id : NodeId}
    (gets : Gets (otherwise.sites x true (place ++ [.elseBranch])
      (base + (then_.sites x true (place ++ [.thenBranch]) base).length)) (otherwise.passes x) next id) :
    Gets ((Stmt.ite cond then_ otherwise).sites x true place base)
      ((Stmt.ite cond then_ otherwise).passes x) next id :=
  gets.mono (by simp [sites]) (by simp +contextual [passes])

/-- A body is followed by its loop, to which control gets. -/
theorem Gets.ofBody {cond : Expr} {body : Stmt} {place : Place} {base : Nat} {next id : NodeId}
    (gets : Gets (body.sites x true (place ++ [.body]) (base + 1)) (body.passes x) base id) :
    Gets ((Stmt.while cond body).sites x true place base) ((Stmt.while cond body).passes x) next id := by
  rcases gets with ⟨rfl, -⟩ | ⟨site, member, here⟩
  · exact .inr ⟨_, List.mem_cons_self, rfl, rfl⟩
  · exact .inr ⟨site, List.mem_cons_of_mem _ member, here⟩

mutual

theorem Spans.gets_start (s : Stmt) {next start : NodeId} {base top : Nat}
    (spans : Spans g next base s start top) (x : Option String) (place : Place) :
    Gets (s.sites x true place base) (s.passes x) next start := by
  cases s with
  | block body => exact Spans.gets_startAll body spans x place 0
  | assign | ret | «while» =>
      cases spans
      exact .inr ⟨_, List.mem_cons_self, rfl, rfl⟩
  | ite cond then_ otherwise =>
      cases spans with
      | ite first second found =>
          obtain rfl := Spans.top_eq then_ first x true (place ++ [.thenBranch])
          obtain rfl := Spans.top_eq otherwise second x true (place ++ [.elseBranch])
          exact .inr ⟨_, List.mem_append_right _ List.mem_cons_self, rfl, rfl⟩
  | missing =>
      cases spans
      exact .inl ⟨rfl, rfl⟩
  | hollow | foreign => cases spans

theorem Spans.gets_startAll (body : List Stmt) {next start : NodeId} {base top : Nat}
    (spans : Spans g next base (.block body) start top) (x : Option String) (place : Place) (i : Nat) :
    Gets (sitesAll x true place i base body) (passesAll x body) next start := by
  cases body with
  | nil =>
      cases spans
      exact .inl ⟨rfl, rfl⟩
  | cons s rest =>
      cases spans with
      | cons others first =>
          obtain rfl := Spans.top_eqAll rest others x (true && s.passes x) place (i + 1)
          refine (Spans.gets_start s first x (place ++ [.index i])).before fun past => ?_
          rw [past]
          exact Spans.gets_startAll rest others x place (i + 1)

end

mutual

/-- From a site that control gets to, every edge leads to where control gets. -/
theorem Spans.gets_onward (s : Stmt) {next start : NodeId} {base top : Nat}
    (spans : Spans g next base s start top) {place : Place} {site : Site}
    (member : site ∈ s.sites x true place base) (here : site.reached = true) {id : NodeId}
    (onward : g.Onward x site.id id) : Gets (s.sites x true place base) (s.passes x) next id := by
  cases s with
  | block body => exact Spans.gets_onwardAll body spans member here onward
  | assign target value =>
      cases spans with
      | assign found =>
          obtain rfl := List.mem_singleton.mp member
          exact .inl ((Graph.onward_assign found).mp onward)
  | ret result =>
      cases spans with
      | ret found =>
          obtain rfl := List.mem_singleton.mp member
          exact absurd onward (Graph.onward_ret found)
  | ite cond then_ otherwise =>
      cases spans with
      | ite first second found =>
          obtain rfl := Spans.top_eq then_ first x true (place ++ [.thenBranch])
          obtain rfl := Spans.top_eq otherwise second x true (place ++ [.elseBranch])
          simp only [sites, List.mem_append, List.mem_singleton, or_assoc] at member
          rcases member with inYes | inNo | rfl
          · exact (Spans.gets_onward then_ first inYes here onward).ofThen
          · exact (Spans.gets_onward otherwise second inNo here onward).ofElse
          · rcases (Graph.onward_branch found).mp onward with rfl | rfl
            · exact (Spans.gets_start then_ first x _).ofThen
            · exact (Spans.gets_start otherwise second x _).ofElse
  | «while» cond body =>
      cases spans with
      | «while» found inner =>
          rcases List.mem_cons.mp member with rfl | inside
          · rcases (Graph.onward_loop found).mp onward with rfl | rfl
            · exact (Spans.gets_start body inner x _).ofBody
            · exact .inl ⟨rfl, rfl⟩
          · exact (Spans.gets_onward body inner inside here onward).ofBody
  | missing | hollow | foreign => cases member

theorem Spans.gets_onwardAll (body : List Stmt) {next start : NodeId} {base top : Nat}
    (spans : Spans g next base (.block body) start top) {place : Place} {i : Nat} {site : Site}
    (member : site ∈ sitesAll x true place i base body) (here : site.reached = true) {id : NodeId}
    (onward : g.Onward x site.id id) :
    Gets (sitesAll x true place i base body) (passesAll x body) next id := by
  cases body with
  | nil => cases member
  | cons s rest =>
      cases spans with
      | cons others first =>
          obtain rfl := Spans.top_eqAll rest others x (true && s.passes x) place (i + 1)
          rcases List.mem_append.mp member with inRest | inFirst
          -- the rest is reached only if control gets past the first statement
          · have past : s.passes x = true := by simpa using reached_of_mem_sitesAll rest inRest here
            rw [past] at inRest
            refine (Spans.gets_onwardAll rest others inRest here onward).mono ?_ (by simp [passesAll, past])
            simp [sitesAll, past]
          · refine (Spans.gets_onward s first inFirst here onward).before fun past => ?_
            rw [past]
            exact Spans.gets_startAll rest others x place (i + 1)

end

mutual

/-- A set of nodes that is closed under edges and has the start of a statement has everything that
    control gets to. -/
theorem Spans.gets_closed (s : Stmt) {next start : NodeId} {base top : Nat}
    (spans : Spans g next base s start top) {L : NodeId → Prop}
    (closed : ∀ a b, L a → g.Onward x a b → L b) (first : L start) (place : Place) :
    ∀ id, Gets (s.sites x true place base) (s.passes x) next id → L id := by
  cases s with
  | block body => exact Spans.gets_closedAll body spans closed first place 0
  | assign target value =>
      cases spans with
      | assign found =>
          rintro id (⟨rfl, past⟩ | ⟨site, member, -, rfl⟩)
          · exact closed _ _ first ((Graph.onward_assign found).mpr ⟨rfl, past⟩)
          · obtain rfl := List.mem_singleton.mp member
            exact first
  | ret result =>
      cases spans with
      | ret found =>
          rintro id (⟨-, past⟩ | ⟨site, member, -, rfl⟩)
          · cases past
          · obtain rfl := List.mem_singleton.mp member
            exact first
  | ite cond then_ otherwise =>
      cases spans with
      | ite onYes onNo found =>
          obtain rfl := Spans.top_eq then_ onYes x true (place ++ [.thenBranch])
          obtain rfl := Spans.top_eq otherwise onNo x true (place ++ [.elseBranch])
          have yes := Spans.gets_closed then_ onYes closed
            (closed _ _ first ((Graph.onward_branch found).mpr (.inl rfl))) (place ++ [.thenBranch])
          have no := Spans.gets_closed otherwise onNo closed
            (closed _ _ first ((Graph.onward_branch found).mpr (.inr rfl))) (place ++ [.elseBranch])
          rintro id (⟨rfl, past⟩ | ⟨site, member, here, rfl⟩)
          · rcases Bool.or_eq_true_iff.mp past with past | past
            · exact yes _ (.inl ⟨rfl, past⟩)
            · exact no _ (.inl ⟨rfl, past⟩)
          · simp only [sites, List.mem_append, List.mem_singleton, or_assoc] at member
            rcases member with inYes | inNo | rfl
            · exact yes _ (.inr ⟨site, inYes, here, rfl⟩)
            · exact no _ (.inr ⟨site, inNo, here, rfl⟩)
            · exact first
  | «while» cond body =>
      cases spans with
      | «while» found inner =>
          have within := Spans.gets_closed body inner closed
            (closed _ _ first ((Graph.onward_loop found).mpr (.inl rfl))) (place ++ [.body])
          rintro id (⟨rfl, -⟩ | ⟨site, member, here, rfl⟩)
          · exact closed _ _ first ((Graph.onward_loop found).mpr (.inr rfl))
          · rcases List.mem_cons.mp member with rfl | inBody
            · exact first
            · exact within _ (.inr ⟨site, inBody, here, rfl⟩)
  | missing =>
      cases spans
      rintro id (⟨rfl, -⟩ | ⟨site, member, -⟩)
      · exact first
      · cases member
  | hollow | foreign => cases spans

theorem Spans.gets_closedAll (body : List Stmt) {next start : NodeId} {base top : Nat}
    (spans : Spans g next base (.block body) start top) {L : NodeId → Prop}
    (closed : ∀ a b, L a → g.Onward x a b → L b) (first : L start) (place : Place) (i : Nat) :
    ∀ id, Gets (sitesAll x true place i base body) (passesAll x body) next id → L id := by
  cases body with
  | nil =>
      cases spans
      rintro id (⟨rfl, -⟩ | ⟨site, member, -⟩)
      · exact first
      · cases member
  | cons s rest =>
      cases spans with
      | cons others own =>
          obtain rfl := Spans.top_eqAll rest others x (true && s.passes x) place (i + 1)
          have here := Spans.gets_closed s own closed first (place ++ [.index i])
          have later : s.passes x = true →
              ∀ id, Gets (sitesAll x true place (i + 1) base rest) (passesAll x rest) next id → L id :=
            fun past => Spans.gets_closedAll rest others closed (here _ (.inl ⟨rfl, past⟩)) place (i + 1)
          rintro id (⟨rfl, past⟩ | ⟨site, member, gets, rfl⟩)
          · obtain ⟨past, pastRest⟩ := Bool.and_eq_true_iff.mp past
            exact later past _ (.inl ⟨rfl, pastRest⟩)
          · rcases List.mem_append.mp member with inRest | inFirst
            · have past : s.passes x = true := by simpa using reached_of_mem_sitesAll rest inRest gets
              rw [past] at inRest
              exact later past _ (.inr ⟨site, inRest, gets, rfl⟩)
            · exact here _ (.inr ⟨site, inFirst, gets, rfl⟩)

end

end Stmt

/-- The nodes of a program's graph that can be reached, on paths that do not assign `x` if a variable
    is given, are those of the sites that control gets to, and `quit` if control gets past the
    whole program. -/
theorem Graph.onward_iff {g : Graph} (arena : g.Arena) {program : Stmt} {top : Nat}
    (spans : program.Spans g 0 1 g.entry top) (x : Option String) (id : NodeId) :
    Relation.ReflTransGen (g.Onward x) g.entry id ↔
      Stmt.Gets (program.sites x true [] 1) (program.passes x) 0 id := by
  constructor
  · intro path
    induction path with
    | refl => exact Stmt.Spans.gets_start program spans x []
    | tail _ onward ih =>
        rcases ih with ⟨rfl, -⟩ | ⟨site, member, here, rfl⟩
        · have none := onward.1
          rw [targets_eq arena.node_zero] at none
          cases none
        · exact Stmt.Spans.gets_onward program spans member here onward
  · exact Stmt.Spans.gets_closed program spans (fun _ _ => .tail) .refl [] id

end FlowFold
