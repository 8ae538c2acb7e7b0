import FlowFold.Proofs.Nesting

/-! # Graphs built in place, and their cycles

A caller who keeps a graph and changes it in place looks up every handle of a call before
anything is written. A call that fails has therefore written nothing, and the graph kept is
the one that the calls build.

A route is a path with its edges written out. All edges lead to older nodes, except from a
loop into its body, so a route goes down until it enters a body. In particular there is no
other way to come back to where it started.
-/

namespace FlowFold

/-- Work on a graph that is kept by the caller. What has been written stays written if a later
    step fails. -/
abbrev InPlace := ExceptT Fault (StateM Graph)

namespace InPlace

def lookUp {α : Type} (ask : Graph → Except Fault α) : InPlace α :=
  fun g => (ask g, g)

def write (change : Graph → Graph) : InPlace Unit :=
  fun g => (.ok (), change g)

/-- What is left in the graph when the work has ended, either way. -/
def left {α : Type} (work : InPlace α) (g : Graph) : Graph := (work g).2

theorem lookUp_bind {α β : Type} (ask : Graph → Except Fault α) (rest : α → InPlace β) (g : Graph) :
    (lookUp ask >>= rest) g =
      match ask g with
      | .error f => (.error f, g)
      | .ok a => rest a g := by
  simp only [bind, ExceptT.bind, ExceptT.mk, StateT.bind, lookUp]
  cases ask g <;> rfl

end InPlace

namespace Graph

open InPlace in
def Call.perform : Call → InPlace Unit
  | addAssign name value next => do
      lookUp (·.require next)
      write fun g => (g.add (.assign name value next)).2
  | addReturn result => write fun g => (g.add (.ret result)).2
  | addBranch cond yes no join => do
      lookUp (·.require yes)
      lookUp (·.require no)
      lookUp (·.require join)
      write fun g => (g.add (.branch cond yes no join)).2
  | addLoop cond join => do
      lookUp (·.require join)
      write fun g => (g.add (.loop cond 0 join)).2
  | setBody loop body => do
      lookUp (·.require body)
      let n ← lookUp (·.node loop)
      match n.instr with
      | .loop cond _ join => write fun g => g.modify loop (.loop cond body join)
      | _ => throw (.notLoop n.text)
  | setEntry id => do
      lookUp (·.require id)
      write fun g => { g with entry := id }

/-- The graph that is left by calls in place, one after another, whether they fail or not. -/
def performed (calls : List Call) : Graph :=
  calls.foldl (fun g call => call.perform.left g) .empty

/-- A call in place does what it does to a graph that is passed on; if it fails, it has
    written nothing. -/
theorem Call.perform_eq (call : Call) (g : Graph) :
    call.perform g =
      match call.apply g with
      | .error f => (.error f, g)
      | .ok g' => (.ok (), g') := by
  cases call with
  | addAssign name value next =>
      simp only [perform, apply, InPlace.lookUp_bind, Graph.addAssign]
      cases g.require next <;> rfl
  | addReturn result => rfl
  | addBranch cond yes no join =>
      simp only [perform, apply, InPlace.lookUp_bind, Graph.addBranch]
      cases g.require yes with
      | error f => rfl
      | ok =>
          cases g.require no with
          | error f => rfl
          | ok => cases g.require join <;> rfl
  | addLoop cond join =>
      simp only [perform, apply, InPlace.lookUp_bind, Graph.addLoop]
      cases g.require join <;> rfl
  | setBody loop body =>
      simp only [perform, apply, InPlace.lookUp_bind, Graph.setBody]
      cases g.require body with
      | error f => rfl
      | ok =>
          cases g.node loop with
          | error f => rfl
          | ok n =>
              obtain ⟨id, instr⟩ := n
              cases instr <;> rfl
  | setEntry id =>
      simp only [perform, apply, InPlace.lookUp_bind, Graph.setEntry]
      cases g.require id <;> rfl

theorem Call.left_perform (call : Call) (g : Graph) :
    call.perform.left g = (call.apply g).toOption.getD g := by
  rw [InPlace.left, perform_eq]
  cases call.apply g <;> rfl

theorem performed_eq_build (calls : List Call) : performed calls = build calls := by
  simp only [performed, build, Call.left_perform]

/-! ## Routes -/

/-- A path with its edges, each with the node that it leaves. -/
inductive Route (g : Graph) : NodeId → List (NodeId × Edge) → NodeId → Prop where
  | nil {a : NodeId} : Route g a [] a
  | cons {a b : NodeId} {e : Edge} {steps : List (NodeId × Edge)} (edge : e ∈ g.successors a)
      (rest : Route g e.target steps b) : Route g a ((a, e) :: steps) b

/-- The step leaves a loop by its body. -/
def EntersBody (g : Graph) (step : NodeId × Edge) : Prop :=
  ∃ cond join, g.node? step.1 = some ⟨step.1, .loop cond step.2.target join⟩ ∧ step.2.kind = .yes

namespace Arena

variable {g : Graph}

theorem edge_down (arena : g.Arena) {a : NodeId} {e : Edge} (edge : e ∈ g.successors a) :
    e.target < a ∨ g.EntersBody (a, e) := by
  cases found : g.node? a with
  | none => simp [Graph.successors, found] at edge
  | some n =>
      obtain ⟨own, instr⟩ := n
      obtain rfl : own = a := arena.id_eq found
      have placed := arena.placed found
      simp only [Graph.successors, found] at edge
      cases instr with
      | quit | ret => cases edge
      | assign name value next =>
          obtain rfl := List.mem_singleton.mp edge
          exact .inl placed
      | branch cond yes no join =>
          obtain rfl | rfl : e = ⟨yes, .yes⟩ ∨ e = ⟨no, .no⟩ := by simpa [Node.successors] using edge
          · exact .inl placed.1
          · exact .inl placed.2.1
      | loop cond body join =>
          obtain rfl | rfl : e = ⟨body, .yes⟩ ∨ e = ⟨join, .no⟩ := by simpa [Node.successors] using edge
          · exact .inr ⟨cond, join, found, rfl⟩
          · exact .inl placed.2

/-- A route that enters no body loses height with every step. -/
theorem route_down (arena : g.Arena) {a b : Nat} {steps : List (NodeId × Edge)}
    (route : g.Route a steps b) (plain : ∀ step ∈ steps, ¬ g.EntersBody step) :
    b + steps.length ≤ a := by
  induction route with
  | nil => exact Nat.le_refl _
  | @cons a b e steps edge rest ih =>
      have down : e.target < a := (arena.edge_down edge).resolve_right (plain _ List.mem_cons_self)
      have below := ih fun step member => plain step (List.mem_cons_of_mem _ member)
      exact Nat.succ_le_of_lt (Nat.lt_of_le_of_lt below down)

theorem cycle_enters_body (arena : g.Arena) {a : Nat} {steps : List (NodeId × Edge)}
    (cycle : g.Route a steps a) (nonempty : steps ≠ []) : ∃ step ∈ steps, g.EntersBody step := by
  by_contra none
  have down := arena.route_down cycle fun step member enters => none ⟨step, member, enters⟩
  have some := List.length_pos_iff.mpr nonempty
  omega

theorem quit_iff (arena : g.Arena) {id : NodeId} {n : Node} (found : g.node? id = some n) :
    n.instr = .quit ↔ id = 0 := by
  constructor
  · intro quit
    have placed := arena.placed found
    rwa [quit] at placed
  · rintro rfl
    rw [arena.node_zero] at found
    cases found
    rfl

end Arena

/-- Whatever calls have been made on a graph in place, failed ones included: every node knows its
    position, `quit` is at position 0 and nowhere else, all handles are in the arena, and all but
    the bodies of loops point down, so that every cycle enters a body. One more call, if it
    fails, leaves the graph as it was. -/
theorem performed_invariant (calls : List Call) :
    let g := performed calls
    0 < g.size ∧
      (∀ id n, g.node? id = some n → n.id = id ∧ (n.instr = .quit ↔ id = 0)) ∧
      g.entry < g.size ∧
      (∀ id, ∀ h ∈ g.handles id, h < g.size) ∧
      (∀ id, ∀ h ∈ g.ahead id, h < id) ∧
      (∀ a steps, g.Route a steps a → steps ≠ [] → ∃ step ∈ steps, g.EntersBody step) ∧
      ∀ call fault, (Call.perform call g).1 = .error fault → call.perform.left g = g := by
  intro g
  have arena : g.Arena := Built.arena ⟨calls, (performed_eq_build calls).symm⟩
  refine ⟨arena.nonempty, fun id n found => ⟨arena.id_eq found, arena.quit_iff found⟩, arena.entry_lt,
    fun id h handle => (arena.handle_lt handle).2, fun id h ahead => arena.ahead_lt ahead,
    fun a steps cycle nonempty => arena.cycle_enters_body cycle nonempty, fun call fault failed => ?_⟩
  rw [Call.perform_eq] at failed
  rw [Call.left_perform]
  cases done : call.apply g with
  | error f => rfl
  | ok g' =>
      rw [done] at failed
      cases failed

end Graph

end FlowFold
