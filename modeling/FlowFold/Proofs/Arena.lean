import Mathlib.Logic.Relation
import FlowFold.Graph.Search

/-! # The arena of a graph that was built by calls

A graph is built by calls of its interface, in any order and with any arguments. A
call that fails changes nothing. Whatever the calls were, the arena keeps one
invariant: each node knows its own position, the handles of a node point to older
nodes, and only the body of a loop may be any node of the arena.

Paths follow the edges of a graph. A node is live if a path leads to it from the
entry; the join of a branch may well be a node that is not.
-/

namespace FlowFold

theorem except_bind_eq_ok {ε α β : Type} {first : Except ε α} {rest : α → Except ε β} {b : β} :
    first >>= rest = .ok b ↔ ∃ a, first = .ok a ∧ rest a = .ok b := by
  cases first with
  | error e => simp [bind, Except.bind]
  | ok a => simp [bind, Except.bind]

namespace Graph

/-- A call of the interface with which graphs are built. -/
inductive Call where
  | addAssign (name : String) (value : Expr) (next : NodeId)
  | addReturn (result : Expr)
  | addBranch (cond : Expr) (yes no join : NodeId)
  | addLoop (cond : Expr) (join : NodeId)
  | setBody (loop body : NodeId)
  | setEntry (id : NodeId)
  deriving Repr, DecidableEq

def Call.apply (g : Graph) : Call → Except Fault Graph
  | addAssign name value next => (g.addAssign name value next).map (·.2)
  | addReturn result => .ok (g.addReturn result).2
  | addBranch cond yes no join => (g.addBranch cond yes no join).map (·.2)
  | addLoop cond join => (g.addLoop cond join).map (·.2)
  | setBody loop body => g.setBody loop body
  | setEntry id => g.setEntry id

/-- The graph after some calls on the empty graph. A call that fails changes nothing. -/
def build (calls : List Call) : Graph :=
  calls.foldl (fun g call => (call.apply g).toOption.getD g) .empty

def Built (g : Graph) : Prop := ∃ calls, build calls = g

/-! ## What each operation does to the arena -/

theorem node_eq_ok {g : Graph} {id : NodeId} {n : Node} : g.node id = .ok n ↔ g.node? id = some n := by
  unfold node
  cases g.node? id <;> simp

theorem node?_eq_none {g : Graph} {id : NodeId} : g.node? id = none ↔ g.size ≤ id := by
  simp [node?, size]

theorem exists_node? {g : Graph} {id : NodeId} (inside : id < g.size) : ∃ n, g.node? id = some n :=
  ⟨g.nodes[id], Array.getElem?_eq_getElem inside⟩

theorem require_eq_ok {g : Graph} {id : NodeId} {u : Unit} : g.require id = .ok u ↔ id < g.size := by
  unfold require
  split <;> simp_all

@[simp] theorem size_add (g : Graph) (instr : Instr) : (g.add instr).2.size = g.size + 1 := by
  simp [add, size]

@[simp] theorem add_fst (g : Graph) (instr : Instr) : (g.add instr).1 = g.size := rfl

@[simp] theorem add_entry (g : Graph) (instr : Instr) : (g.add instr).2.entry = g.entry := rfl

theorem node?_add (g : Graph) (instr : Instr) (id : NodeId) :
    (g.add instr).2.node? id = if id = g.size then some ⟨g.size, instr⟩ else g.node? id := by
  simp only [add, node?, size, Array.getElem?_push]
  rfl

@[simp] theorem node?_add_size (g : Graph) (instr : Instr) :
    (g.add instr).2.node? g.size = some ⟨g.size, instr⟩ := by
  rw [node?_add, if_pos rfl]

theorem node?_add_of_lt {g : Graph} {instr : Instr} {id : NodeId} (inside : id < g.size) :
    (g.add instr).2.node? id = g.node? id := by
  rw [node?_add, if_neg (Nat.ne_of_lt inside)]

@[simp] theorem size_modify (g : Graph) (id : NodeId) (instr : Instr) :
    (g.modify id instr).size = g.size := by
  simp [modify, size]

@[simp] theorem modify_entry (g : Graph) (id : NodeId) (instr : Instr) :
    (g.modify id instr).entry = g.entry := rfl

theorem node?_modify (g : Graph) (id : NodeId) (instr : Instr) (other : NodeId) :
    (g.modify id instr).node? other =
      if id = other then (g.node? other).map ({ · with instr }) else g.node? other := by
  simp only [modify, node?, Array.getElem?_modify]

theorem addAssign_eq_ok {g : Graph} {name : String} {value : Expr} {next : NodeId}
    {r : NodeId × Graph} :
    g.addAssign name value next = .ok r ↔ next < g.size ∧ g.add (.assign name value next) = r := by
  simp [addAssign, except_bind_eq_ok, require_eq_ok, pure, Except.pure]

theorem addBranch_eq_ok {g : Graph} {cond : Expr} {yes no join : NodeId} {r : NodeId × Graph} :
    g.addBranch cond yes no join = .ok r ↔
      (yes < g.size ∧ no < g.size ∧ join < g.size) ∧ g.add (.branch cond yes no join) = r := by
  simp [addBranch, except_bind_eq_ok, require_eq_ok, pure, Except.pure, and_assoc]

theorem addLoop_eq_ok {g : Graph} {cond : Expr} {join : NodeId} {r : NodeId × Graph} :
    g.addLoop cond join = .ok r ↔ join < g.size ∧ g.add (.loop cond 0 join) = r := by
  simp [addLoop, except_bind_eq_ok, require_eq_ok, pure, Except.pure]

theorem setEntry_eq_ok {g g' : Graph} {id : NodeId} :
    g.setEntry id = .ok g' ↔ id < g.size ∧ { g with entry := id } = g' := by
  simp [setEntry, except_bind_eq_ok, require_eq_ok, pure, Except.pure]

theorem setBody_eq_ok {g g' : Graph} {loop body : NodeId} :
    g.setBody loop body = .ok g' ↔
      body < g.size ∧ ∃ id cond old join, g.node? loop = some ⟨id, .loop cond old join⟩ ∧
        g.modify loop (.loop cond body join) = g' := by
  simp only [setBody, except_bind_eq_ok, require_eq_ok, node_eq_ok, exists_const]
  refine and_congr_right fun _ => ⟨?_, ?_⟩
  · rintro ⟨⟨id, instr⟩, found, same⟩
    cases instr with
    | loop cond old join => exact ⟨id, cond, old, join, found, by simpa [pure, Except.pure] using same⟩
    | quit | assign | ret | branch => simp [throw, throwThe, MonadExceptOf.throw] at same
  · rintro ⟨id, cond, old, join, found, same⟩
    exact ⟨_, found, by simpa [pure, Except.pure] using same⟩

end Graph

/-! ## The invariant -/

/-- The handles of an instruction at a position of an arena. All point down, except for
    the body of a loop, which only has to be in the arena. -/
def Instr.Placed (size position : Nat) : Instr → Prop
  | quit => position = 0
  | assign _ _ next => next < position
  | ret _ => 0 < position
  | branch _ yes no join => yes < position ∧ no < position ∧ join < position
  | loop _ body join => body < size ∧ join < position

theorem Instr.Placed.grow {size position more : Nat} {instr : Instr}
    (placed : instr.Placed size position) (le : size ≤ more) : instr.Placed more position := by
  cases instr with
  | quit | assign | ret | branch => exact placed
  | loop cond body join => exact ⟨Nat.lt_of_lt_of_le placed.1 le, placed.2⟩

namespace Graph

/-- What every graph keeps while it is built. -/
structure Arena (g : Graph) : Prop where
  nonempty : 0 < g.size
  entry_lt : g.entry < g.size
  id_eq : ∀ {id n}, g.node? id = some n → n.id = id
  placed : ∀ {id n}, g.node? id = some n → n.instr.Placed g.size id

namespace Arena

theorem empty : Arena Graph.empty where
  nonempty := Nat.one_pos
  entry_lt := Nat.one_pos
  id_eq := by
    intro id n found
    cases id with
    | zero => cases found; rfl
    | succ id => simp [node?, Graph.empty] at found
  placed := by
    intro id n found
    cases id with
    | zero => cases found; rfl
    | succ id => simp [node?, Graph.empty] at found

/-- A node is added with handles that are in the arena already, so they point down. -/
theorem add {g : Graph} {instr : Instr} (arena : g.Arena) (placed : instr.Placed (g.size + 1) g.size) :
    (g.add instr).2.Arena where
  nonempty := by simp
  entry_lt := by
    rw [add_entry, size_add]
    exact Nat.lt_succ_of_lt arena.entry_lt
  id_eq := by
    intro id n found
    rw [node?_add] at found
    split at found
    · cases found
      symm
      assumption
    · exact arena.id_eq found
  placed := by
    intro id n found
    rw [node?_add] at found
    rw [size_add]
    split at found
    · rename_i same
      cases found
      exact same ▸ placed
    · exact (arena.placed found).grow (Nat.le_succ _)

theorem setBody {g g' : Graph} {loop body : NodeId} (arena : g.Arena)
    (done : g.setBody loop body = .ok g') : g'.Arena := by
  obtain ⟨inside, id, cond, old, join, found, rfl⟩ := setBody_eq_ok.mp done
  have before : ∀ {other n}, (g.modify loop (.loop cond body join)).node? other = some n →
      other = loop ∧ n = ⟨id, .loop cond body join⟩ ∨ g.node? other = some n := by
    intro other n here
    rw [node?_modify] at here
    split at here
    · rename_i same
      subst same
      rw [found, Option.map_some, Option.some.injEq] at here
      exact .inl ⟨rfl, here.symm⟩
    · exact .inr here
  exact
    { nonempty := by simpa using arena.nonempty
      entry_lt := by simpa using arena.entry_lt
      id_eq := by
        intro other n here
        rcases before here with ⟨rfl, rfl⟩ | here
        · have own : id = other := arena.id_eq found
          exact own
        · exact arena.id_eq here
      placed := by
        intro other n here
        rw [size_modify]
        rcases before here with ⟨rfl, rfl⟩ | here
        · exact ⟨inside, (arena.placed found).2⟩
        · exact arena.placed here }

theorem apply {g g' : Graph} {call : Call} (arena : g.Arena) (done : call.apply g = .ok g') :
    g'.Arena := by
  have mapped : ∀ {r : Except Fault (NodeId × Graph)}, r.map (·.2) = .ok g' → ∃ id, r = .ok (id, g') := by
    intro r same
    cases r with
    | error f => cases same
    | ok r => cases same; exact ⟨r.1, rfl⟩
  cases call with
  | addAssign name value next =>
      obtain ⟨id, ok⟩ := mapped done
      obtain ⟨inside, same⟩ := addAssign_eq_ok.mp ok
      cases same
      exact arena.add inside
  | addReturn result =>
      cases done
      exact arena.add arena.nonempty
  | addBranch cond yes no join =>
      obtain ⟨id, ok⟩ := mapped done
      obtain ⟨inside, same⟩ := addBranch_eq_ok.mp ok
      cases same
      exact arena.add inside
  | addLoop cond join =>
      obtain ⟨id, ok⟩ := mapped done
      obtain ⟨inside, same⟩ := addLoop_eq_ok.mp ok
      cases same
      exact arena.add ⟨Nat.succ_pos _, inside⟩
  | setBody loop body => exact arena.setBody done
  | setEntry id =>
      obtain ⟨inside, rfl⟩ := setEntry_eq_ok.mp done
      exact ⟨arena.nonempty, inside, arena.id_eq, arena.placed⟩

end Arena

theorem Built.arena {g : Graph} (built : g.Built) : g.Arena := by
  obtain ⟨calls, rfl⟩ := built
  unfold build
  -- The invariant goes along the calls, from the empty graph on.
  have run : ∀ (g : Graph), g.Arena →
      (calls.foldl (fun g call => (Call.apply g call).toOption.getD g) g).Arena := by
    induction calls with
    | nil => exact fun g arena => arena
    | cons call calls ih =>
        intro g arena
        refine ih _ ?_
        cases done : Call.apply g call with
        | error f => simpa [done, Except.toOption] using arena
        | ok g' => simpa [done, Except.toOption] using arena.apply done
  exact run _ Arena.empty

theorem Built.empty : Graph.empty.Built := ⟨[], rfl⟩

theorem Built.apply {g g' : Graph} (built : g.Built) (call : Call) (done : call.apply g = .ok g') :
    g'.Built := by
  obtain ⟨calls, rfl⟩ := built
  refine ⟨calls ++ [call], ?_⟩
  simp only [build, List.foldl_append, List.foldl_cons, List.foldl_nil] at done ⊢
  rw [done]
  rfl

namespace Built

variable {g : Graph}

theorem addAssign (built : g.Built) {name : String} {value : Expr} {next : NodeId}
    (inside : next < g.size) : (g.add (.assign name value next)).2.Built := by
  refine built.apply (.addAssign name value next) ?_
  rw [Call.apply, addAssign_eq_ok.mpr ⟨inside, rfl⟩]
  rfl

theorem addReturn (built : g.Built) {result : Expr} : (g.add (.ret result)).2.Built :=
  built.apply (.addReturn result) rfl

theorem addBranch (built : g.Built) {cond : Expr} {yes no join : NodeId}
    (inside : yes < g.size ∧ no < g.size ∧ join < g.size) :
    (g.add (.branch cond yes no join)).2.Built := by
  refine built.apply (.addBranch cond yes no join) ?_
  rw [Call.apply, addBranch_eq_ok.mpr ⟨inside, rfl⟩]
  rfl

theorem addLoop (built : g.Built) {cond : Expr} {join : NodeId} (inside : join < g.size) :
    (g.add (.loop cond 0 join)).2.Built := by
  refine built.apply (.addLoop cond join) ?_
  rw [Call.apply, addLoop_eq_ok.mpr ⟨inside, rfl⟩]
  rfl

end Built

/-! ## Paths -/

/-- A path of edges, possibly empty, leads from one node to another. -/
def Path (g : Graph) : NodeId → NodeId → Prop := Relation.ReflTransGen fun a b => b ∈ g.targets a

/-- A path leads to the node from the entry. -/
def Live (g : Graph) (id : NodeId) : Prop := g.Path g.entry id

theorem Live.entry (g : Graph) : g.Live g.entry := Relation.ReflTransGen.refl

theorem Live.edge {g : Graph} {a b : NodeId} (live : g.Live a) (edge : b ∈ g.targets a) : g.Live b :=
  Relation.ReflTransGen.tail live edge

theorem targets_eq {g : Graph} {id : NodeId} {n : Node} (found : g.node? id = some n) :
    g.targets id = n.successors.map (·.target) := by
  rw [targets, Graph.successors, found]

theorem exists_node?_of_mem_targets {g : Graph} {a b : NodeId} (edge : b ∈ g.targets a) :
    ∃ n, g.node? a = some n := by
  cases found : g.node? a with
  | none => simp [targets, Graph.successors, found] at edge
  | some n => exact ⟨n, rfl⟩

theorem forall_live {g : Graph} {P : Node → Prop} (all : ∀ n ∈ g.nodes.toList, P n) :
    ∀ id n, g.Live id → g.node? id = some n → P n := by
  intro id n _ found
  exact all n (Array.mem_toList_iff.mpr (Array.mem_of_getElem? found))

namespace Arena

variable {g : Graph}

theorem target_lt (arena : g.Arena) {a b : NodeId} (edge : b ∈ g.targets a) : b < g.size := by
  obtain ⟨⟨id, instr⟩, found⟩ := exists_node?_of_mem_targets edge
  have inside := lt_size_of_node? found
  have placed := arena.placed found
  rw [targets_eq found] at edge
  cases instr with
  | quit | ret => simp [Node.successors] at edge
  | assign name value next =>
      obtain rfl : b = next := by simpa [Node.successors] using edge
      exact Nat.lt_trans placed inside
  | branch cond yes no join =>
      obtain rfl | rfl : b = yes ∨ b = no := by simpa [Node.successors] using edge
      · exact Nat.lt_trans placed.1 inside
      · exact Nat.lt_trans placed.2.1 inside
  | loop cond body join =>
      obtain rfl | rfl : b = body ∨ b = join := by simpa [Node.successors] using edge
      · exact placed.1
      · exact Nat.lt_trans placed.2 inside

theorem live_lt (arena : g.Arena) {id : NodeId} (live : g.Live id) : id < g.size := by
  induction live with
  | refl => exact arena.entry_lt
  | tail _ edge _ => exact arena.target_lt edge

/-- Position 0 is `quit`, since no handle points below it. -/
theorem node_zero (arena : g.Arena) : g.node? 0 = some ⟨0, .quit⟩ := by
  obtain ⟨⟨own, instr⟩, found⟩ := exists_node? arena.nonempty
  obtain rfl : own = 0 := arena.id_eq found
  have placed := arena.placed found
  cases instr with
  | quit => exact found
  | assign | ret => exact absurd placed (Nat.not_lt_zero _)
  | branch => exact absurd placed.1 (Nat.not_lt_zero _)
  | loop => exact absurd placed.2 (Nat.not_lt_zero _)

theorem live_node (arena : g.Arena) {id : NodeId} (live : g.Live id) :
    ∃ instr, g.node? id = some ⟨id, instr⟩ := by
  obtain ⟨⟨own, instr⟩, found⟩ := exists_node? (arena.live_lt live)
  obtain rfl := arena.id_eq found
  exact ⟨instr, found⟩

end Arena

end Graph

end FlowFold
