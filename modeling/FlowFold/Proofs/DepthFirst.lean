import Mathlib.Logic.Function.Iterate
import FlowFold.Proofs.Listing

/-! # The course of a search

A search calls itself on the targets of a node before it goes on with the handles that are
left. Its course is the finite tree of these calls. No rule of a course passes over a handle
without a node, so a search that has a course ends, and it looks up no handle in vain.

A traversal with a stack of its own makes no calls: it pops a handle, and unless the handle is
listed already it lists it and pushes the targets. Along the course of a search it lists the
same handles in the same order.
-/

namespace FlowFold.Graph

/-- How a search goes, from the handles to look at and those seen before to its result. -/
inductive Course (g : Graph) (stop : Node → Bool) :
    List NodeId → List NodeId → Option Node × List NodeId → Prop where
  | nil {seen : List NodeId} : Course g stop [] seen (none, seen)
  /-- A handle that was seen before is passed over. -/
  | old {id : NodeId} {rest seen : List NodeId} {r : Option Node × List NodeId} (again : id ∈ seen)
      (others : Course g stop rest seen r) : Course g stop (id :: rest) seen r
  /-- The search stops at a new node. -/
  | halt {id : NodeId} {n : Node} {rest seen : List NodeId} (new : id ∉ seen)
      (found : g.node? id = some n) (stops : stop n = true) :
      Course g stop (id :: rest) seen (some n, id :: seen)
  /-- The search stops below a new node. -/
  | within {id : NodeId} {n m : Node} {rest seen seen' : List NodeId} (new : id ∉ seen)
      (found : g.node? id = some n) (goes : stop n = false)
      (below : Course g stop (g.targets id) (id :: seen) (some m, seen')) :
      Course g stop (id :: rest) seen (some m, seen')
  /-- The search does not stop below a new node, and goes on with the rest. -/
  | past {id : NodeId} {n : Node} {rest seen seen' : List NodeId} {r : Option Node × List NodeId}
      (new : id ∉ seen) (found : g.node? id = some n) (goes : stop n = false)
      (below : Course g stop (g.targets id) (id :: seen) (none, seen'))
      (others : Course g stop rest seen' r) : Course g stop (id :: rest) seen r

variable {g : Graph} {stop : Node → Bool} {todo seen : List NodeId} {r : Option Node × List NodeId}

/-- Every search for handles of the arena has a course. As in the search itself, a call on the
    targets of a node leaves fewer nodes unseen. -/
theorem Arena.course (arena : g.Arena) (stop : Node → Bool) (todo seen : List NodeId) :
    (∀ id ∈ todo, id < g.size) → g.Course stop todo seen (g.search stop todo seen) := by
  cases todo with
  | nil =>
      intro _
      rw [search_nil]
      exact .nil
  | cons id rest =>
      intro inside
      have insideRest : ∀ x ∈ rest, x < g.size := fun x later => inside x (.tail _ later)
      rw [search_cons]
      by_cases old : id ∈ seen
      · rw [if_pos old]
        exact .old old (arena.course stop rest seen insideRest)
      · obtain ⟨n, found⟩ := exists_node? (inside id (.head _))
        have fewer := unseen_cons_lt (lt_size_of_node? found) old
        rw [if_neg old, found]
        by_cases stops : stop n = true
        · simp only [stops, if_true]
          exact .halt old found stops
        · have goes : stop n = false := by simpa using stops
          have below := arena.course stop (g.targets id) (id :: seen) fun x edge => arena.target_lt edge
          have least := unseen_search_le g stop (g.targets id) (id :: seen)
          simp only [goes]
          rcases inner : g.search stop (g.targets id) (id :: seen) with ⟨_ | m, seen'⟩
          · rw [inner] at below least
            have smaller : g.unseen seen' < g.unseen seen := Nat.lt_of_le_of_lt least fewer
            exact .past old found goes below (arena.course stop rest seen' insideRest)
          · rw [inner] at below
            exact .within old found goes below
termination_by (g.unseen seen, todo.length)
decreasing_by
  · exact Prod.Lex.right _ (Nat.lt_succ_self _)
  · exact Prod.Lex.left _ _ fewer
  · exact Prod.Lex.left _ _ smaller

/-! ## A stack of handles -/

/-- A traversal with a stack: the handles to pop, the next one first, and those that have been
    listed, in order. -/
structure Stacked where
  stack : List NodeId
  listed : List NodeId
  deriving Repr, DecidableEq

/-- Pop a handle. If it is listed already, skip it; otherwise list it and push its targets from
    the last to the first, so that the first is popped next. -/
def pop (g : Graph) : Stacked → Stacked
  | ⟨[], listed⟩ => ⟨[], listed⟩
  | ⟨id :: stack, listed⟩ =>
      if id ∈ listed then ⟨stack, listed⟩
      else ⟨(g.targets id).foldr List.cons stack, listed ++ [id]⟩

theorem pop_listed {id : NodeId} {stack listed : List NodeId} (again : id ∈ listed) :
    g.pop ⟨id :: stack, listed⟩ = ⟨stack, listed⟩ := by
  rw [pop, if_pos again]

theorem pop_new {id : NodeId} {stack listed : List NodeId} (new : id ∉ listed) :
    g.pop ⟨id :: stack, listed⟩ = ⟨g.targets id ++ stack, listed ++ [id]⟩ := by
  rw [pop, if_neg new, List.foldr_cons_eq_append, List.map_id']

/-- A search that is not stopped lists the new handles in the order in which they are popped. It
    takes a pop for each handle to look at and for each edge out of a new node. -/
theorem Course.pops (course : g.Course stop todo seen r) (unstopped : r.1 = none) (stack : List NodeId) :
    ∃ new : List NodeId, r.2 = new.reverse ++ seen ∧
      g.pop^[todo.length + (new.flatMap g.targets).length] ⟨todo ++ stack, seen.reverse⟩ =
        ⟨stack, r.2.reverse⟩ := by
  induction course generalizing stack with
  | nil => exact ⟨[], by simp⟩
  | @old id rest seen r again others ih =>
      obtain ⟨new, listed, pops⟩ := ih unstopped stack
      refine ⟨new, listed, ?_⟩
      rw [List.length_cons, Nat.add_right_comm, Function.iterate_succ_apply, List.cons_append,
        pop_listed (List.mem_reverse.mpr again), pops]
  | halt | within => cases unstopped
  | @past id n rest seen seen' r new found goes below others ihBelow ihOthers =>
      obtain ⟨new₁, listed₁, pops₁⟩ := ihBelow rfl (rest ++ stack)
      obtain ⟨new₂, listed₂, pops₂⟩ := ihOthers unstopped stack
      have count : (id :: rest).length + ((id :: (new₁ ++ new₂)).flatMap g.targets).length =
          (rest.length + (new₂.flatMap g.targets).length) +
            ((g.targets id).length + (new₁.flatMap g.targets).length) + 1 := by
        simp only [List.length_cons, List.flatMap_cons, List.flatMap_append, List.length_append]
        omega
      refine ⟨id :: (new₁ ++ new₂), ?_, ?_⟩
      · simpa [listed₂] using listed₁
      · rw [count, Function.iterate_succ_apply, List.cons_append, pop_new (by simpa using new),
          ← List.reverse_cons, Function.iterate_add_apply, pops₁, pops₂]

/-- The traversal of a graph that was built by calls, however cyclic it is: it ends, and it looks
    up no handle in vain; it lists no node twice, and exactly the nodes to which a path leads from
    the entry; and the order is that in which a traversal with a stack lists them, which makes a
    pop for each edge out of a listed node and one for the entry. -/
theorem walk_depth_first {g : Graph} (built : g.Built) :
    g.Course (fun _ => false) [g.entry] [] (none, g.reachable.reverse) ∧
      g.walk.map (·.id) = g.reachable ∧
      g.reachable.Nodup ∧
      (∀ id, id ∈ g.reachable ↔ g.Live id) ∧
      g.pop^[(g.reachable.flatMap g.targets).length + 1] ⟨[g.entry], []⟩ = ⟨[], g.reachable⟩ := by
  have arena := built.arena
  have result : g.search (fun _ => false) [g.entry] [] = (none, g.reachable.reverse) := by
    rw [reachable, List.reverse_reverse, ← g.search_never [g.entry] []]
  have course : g.Course (fun _ => false) [g.entry] [] (none, g.reachable.reverse) :=
    result ▸ arena.course _ _ _ (by simpa using arena.entry_lt)
  refine ⟨course, arena.walk_ids, g.reachable_nodup, fun id => arena.mem_reachable, ?_⟩
  obtain ⟨new, listed, pops⟩ := course.pops rfl []
  obtain rfl : g.reachable = new := by simpa using listed
  simpa [Nat.add_comm] using pops

/-- The way back into the loop is popped and skipped. -/
theorem walk_depth_first_countdown :
    let g := build countdown
    g.Built ∧ g.reachable.Nodup ∧ g.pop^[6] ⟨[5], []⟩ = ⟨[], [5, 4, 2, 3, 1]⟩ := by
  intro g
  have built : g.Built := ⟨_, rfl⟩
  obtain ⟨-, -, nodup, -, pops⟩ := walk_depth_first built
  rw [reachable_countdown] at pops
  exact ⟨built, nodup, pops⟩

end FlowFold.Graph
