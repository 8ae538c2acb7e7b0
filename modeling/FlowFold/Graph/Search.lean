import FlowFold.Graph.Basic
import Std.Data.ExtTreeMap

/-! # Searching graphs

`Graph.search` goes through the nodes that can be reached from some handles, depth
first and in the order of the edges, each node once, until a test holds. It gives
the node where it stopped and every handle it looked at, the latest first. All
other traversals are searches: `walk` is one that never stops, and `connect` asks
whether one stops.

The search ends because every node it enters is new, and the arena has only so many.
-/

namespace FlowFold

namespace Graph

/-- How many nodes of the arena are not in a list of handles. -/
def unseen (g : Graph) (seen : List NodeId) : Nat :=
  (List.range g.size).countP fun id => !seen.contains id

theorem unseen_cons_lt {g : Graph} {seen : List NodeId} {id : NodeId}
    (inside : id < g.size) (new : id ∉ seen) : g.unseen (id :: seen) < g.unseen seen := by
  have fewer : ∀ ids : List NodeId,
      ids.countP (fun x => !(id :: seen).contains x) ≤ ids.countP (fun x => !seen.contains x) ∧
      (id ∈ ids →
        ids.countP (fun x => !(id :: seen).contains x) < ids.countP fun x => !seen.contains x) := by
    intro ids
    induction ids with
    | nil => exact ⟨Nat.le_refl _, fun h => nomatch h⟩
    | cons x ids ih =>
        simp only [List.countP_cons, List.mem_cons]
        by_cases same : x = id
        · have gone : (!(id :: seen).contains x) = false := by simp [same]
          have there : (!seen.contains x) = true := by simp [same, new]
          simp only [gone, there, if_true, Bool.false_eq_true, if_false]
          exact ⟨by omega, fun _ => by omega⟩
        · have kept : (!(id :: seen).contains x) = (!seen.contains x) := by simp [same]
          rw [kept]
          exact ⟨by omega, fun h => by
            have := ih.2 (h.resolve_left fun e => same e.symm)
            omega⟩
  exact (fewer _).2 (List.mem_range.mpr inside)

theorem lt_size_of_node? {g : Graph} {id : NodeId} {n : Node} (h : g.node? id = some n) :
    id < g.size := by
  unfold node? at h
  exact (Array.getElem?_eq_some_iff.mp h).1

/-- The search, with the reason why it ends: it never forgets a handle. -/
def searchFrom (g : Graph) (stop : Node → Bool) (todo seen : List NodeId) :
    { r : Option Node × List NodeId // g.unseen r.2 ≤ g.unseen seen } :=
  match todo with
  | [] => ⟨(none, seen), Nat.le_refl _⟩
  | id :: rest =>
      if new : id ∈ seen then searchFrom g stop rest seen
      else
        match found : g.node? id with
        | none => searchFrom g stop rest seen
        | some n =>
            have fewer := unseen_cons_lt (lt_size_of_node? found) new
            if stop n then ⟨(some n, id :: seen), Nat.le_of_lt fewer⟩
            else
              match searchFrom g stop (g.targets id) (id :: seen) with
              | ⟨(some m, seen'), h⟩ => ⟨(some m, seen'), by simp only at h ⊢; omega⟩
              | ⟨(none, seen'), h⟩ =>
                  let ⟨r, h'⟩ := searchFrom g stop rest seen'
                  ⟨r, by simp only at h; omega⟩
termination_by (g.unseen seen, todo.length)
decreasing_by
  · exact Prod.Lex.right _ (by simp)
  · exact Prod.Lex.right _ (by simp)
  · exact Prod.Lex.left _ _ fewer
  · exact Prod.Lex.left _ _ (by simp only at h; omega)

/-- Go through the nodes that can be reached from the handles `todo`, except those
    seen before, depth first, until `stop` holds. Gives the node where it stopped,
    if any, and the handles seen so far, the latest first.

    A handle without a node is passed over, where looking it up would be a fault. No search from
    handles of the arena meets one in a graph built by calls: its course (`Graph.Arena.course`)
    has no rule that passes over such a handle. -/
def search (g : Graph) (stop : Node → Bool) (todo seen : List NodeId) :
    Option Node × List NodeId :=
  (searchFrom g stop todo seen).1

theorem search_nil (g : Graph) (stop : Node → Bool) (seen : List NodeId) :
    g.search stop [] seen = (none, seen) := by
  rw [search, searchFrom]

theorem search_cons (g : Graph) (stop : Node → Bool) (id : NodeId) (rest seen : List NodeId) :
    g.search stop (id :: rest) seen =
      if id ∈ seen then g.search stop rest seen
      else
        match g.node? id with
        | none => g.search stop rest seen
        | some n =>
            if stop n then (some n, id :: seen)
            else
              match g.search stop (g.targets id) (id :: seen) with
              | (some m, seen') => (some m, seen')
              | (none, seen') => g.search stop rest seen' := by
  rw [search, searchFrom]
  split
  · rfl
  · split
    · rename_i found
      simp [found, search]
    · rename_i n found
      simp only [found]
      split
      · rfl
      · simp only [search]
        split <;> rename_i h <;> simp [h]

/-- The handles that can be reached from the entry, depth first. -/
def reachable (g : Graph) : List NodeId :=
  (g.search (fun _ => false) [g.entry] []).2.reverse

/-- The nodes that can be reached from the entry, depth first. -/
def walk (g : Graph) : List Node :=
  g.reachable.filterMap g.node?

/-- For every reachable node, the nodes that have it as a target, in the order of the
    walk. A node with two edges to it is listed twice. -/
def predecessors (g : Graph) : Std.ExtTreeMap NodeId (List NodeId) :=
  g.reachable.foldl (fun preds p =>
    (g.targets p).foldl (fun preds target => preds.alter target fun known =>
      some (known.getD [] ++ [p])) (preds.insertIfNew p [])) ∅

/-- Whether a node that meets a test can be reached from a handle. -/
def reaches (g : Graph) (start : NodeId) (stop : Node → Bool) : Bool :=
  (g.search stop [start] []).1.isSome

/-- A question about a node; asking it may fail. -/
abbrev Test := Node → Except Fault Bool

/-- The answer of `connect`, with the handles of the nodes on which the two tests
    were tried, in order. -/
structure Connection where
  found : Bool
  starts : List NodeId
  ends : List NodeId
  deriving Repr, DecidableEq

/-- Search for the end of a connection. A test that fails ends the search as well. -/
def connectFrom (g : Graph) (stop : Test) (start : NodeId) : Except Fault (Bool × List NodeId) :=
  let settled : Node → Bool := fun n =>
    match stop n with
    | .ok false => false
    | _ => true
  match g.search settled [start] [] with
  | (none, seen) => .ok (false, seen.reverse)
  | (some n, seen) => do return (← stop n, seen.reverse)

/-- Try the nodes of a list as the start of a connection, until one is. -/
def connectAny (g : Graph) (start stop : Test) : List Node → Except Fault Connection
  | [] => .ok ⟨false, [], []⟩
  | n :: rest => do
      if ← start n then
        let (found, tried) ← g.connectFrom stop n.id
        if found then return ⟨true, [n.id], tried⟩
        let c ← connectAny g start stop rest
        return ⟨c.found, n.id :: c.starts, tried ++ c.ends⟩
      else
        let c ← connectAny g start stop rest
        return ⟨c.found, n.id :: c.starts, c.ends⟩

/-- Whether a path leads from a reachable node that meets `start` to a node that
    meets `stop`; the two may be the same node. Without `start`, paths start at the
    entry. -/
def connect (g : Graph) (start stop : Option Test) : Except Fault Connection :=
  match start, stop with
  | _, none => .error .noEnd
  | none, some stop => do
      let (found, tried) ← g.connectFrom stop g.entry
      return ⟨found, [], tried⟩
  | some start, some stop => g.connectAny start stop g.walk

/-- The joins of reachable branches that no path from the entry leads to. Both ways
    out of such a branch return, and what follows it never runs. -/
def deadJoins (g : Graph) : List NodeId :=
  let joins := g.walk.filterMap fun n =>
    match n.instr with
    | .branch _ _ _ join => some join
    | _ => none
  joins.eraseDups.filter fun join => !g.reaches g.entry fun n => n.id == join

end Graph

end FlowFold
