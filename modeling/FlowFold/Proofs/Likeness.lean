import Mathlib.Data.Set.Function
import FlowFold.Graph.Drawing
import FlowFold.Proofs.Copy

/-! # Graphs that look alike

A map between the live nodes of two graphs keeps their looks if it takes the entry to the
entry, keeps what each node does and commutes with the edges. The join of a branch may be
dead; then the join of the image must be dead as well, but nothing else matters about it.

A search commutes with such a map, so the two walks number the nodes in the same way, and
the two listings have the same lines.
-/

namespace FlowFold

namespace Node

theorem map_target_relabel (n : Node) (id : NodeId) (ψ : NodeId → NodeId) :
    (Node.mk id (n.instr.relabel ψ)).successors.map (·.target) = (n.successors.map (·.target)).map ψ := by
  obtain ⟨own, instr⟩ := n
  cases instr <;> rfl

theorem mem_handles_of_target {n : Node} {h : NodeId} (target : h ∈ n.successors.map (·.target)) :
    h ∈ n.instr.handles := by
  obtain ⟨own, instr⟩ := n
  cases instr with
  | quit | ret => cases target
  | assign | loop => exact target
  | branch cond yes no join => exact List.mem_append_left [join] target

end Node

namespace Graph

/-- The one graph looks like the other under a map of its live nodes. -/
structure Alike (g f : Graph) (φ : NodeId → NodeId) : Prop where
  entry : φ g.entry = f.entry
  injOn : Set.InjOn φ { id | g.Live id }
  node : ∀ {id n}, g.Live id → g.node? id = some n → ∃ ψ : NodeId → NodeId,
    f.node? (φ id) = some ⟨φ id, n.instr.relabel ψ⟩ ∧
    ∀ h ∈ n.instr.handles, (g.Live h ↔ f.Live (ψ h)) ∧ (g.Live h → ψ h = φ h)

section

variable {g : Graph} {id : NodeId} {rest seen : List NodeId}

theorem search_old (old : id ∈ seen) :
    (g.search (fun _ => false) (id :: rest) seen).2 = (g.search (fun _ => false) rest seen).2 := by
  rw [search_cons, if_pos old]

theorem search_new {n : Node} (new : id ∉ seen) (found : g.node? id = some n) :
    (g.search (fun _ => false) (id :: rest) seen).2 =
      (g.search (fun _ => false) rest (g.search (fun _ => false) (g.targets id) (id :: seen)).2).2 := by
  have unstopped := g.search_never (g.targets id) (id :: seen)
  rw [search_cons, if_neg new, found]
  rcases inner : g.search (fun _ => false) (g.targets id) (id :: seen) with ⟨_ | m, seen'⟩
  · rfl
  · rw [inner] at unstopped
    cases unstopped

end

def numberedLine (x : String × Nat) : String := "[" ++ Text.padLeft '0' 3 (toString x.2) ++ "] " ++ x.1

theorem dump_eq_lines (g : Graph) :
    g.dump = String.join (((g.walk.map (dumpLine g.reachable)).zipIdx.map numberedLine).map (· ++ "\n")) := by
  rw [dump, List.zipIdx_map, List.map_map, List.map_map]
  rfl

namespace Alike

variable {g f : Graph} {φ : NodeId → NodeId} {id : NodeId}

theorem targets (alike : g.Alike f φ) {n : Node} (live : g.Live id) (found : g.node? id = some n) :
    f.targets (φ id) = (g.targets id).map φ := by
  obtain ⟨ψ, found', same⟩ := alike.node live found
  rw [targets_eq found', n.map_target_relabel, ← targets_eq found]
  refine List.map_congr_left fun h edge => ?_
  exact (same h (Node.mem_handles_of_target (by rwa [← targets_eq found]))).2 (live.edge edge)

theorem mem_map_iff (alike : g.Alike f φ) {ids : List NodeId} (live : g.Live id) (all : ∀ x ∈ ids, g.Live x) :
    φ id ∈ ids.map φ ↔ id ∈ ids := by
  rw [List.mem_map]
  constructor
  · rintro ⟨x, member, same⟩
    rwa [← alike.injOn (all x member) live same]
  · exact fun member => ⟨id, member, rfl⟩

theorem map_search (arena : g.Arena) (alike : g.Alike f φ) (todo seen : List NodeId) :
    (∀ x ∈ todo, g.Live x) → (∀ x ∈ seen, g.Live x) →
      (f.search (fun _ => false) (todo.map φ) (seen.map φ)).2 =
        (g.search (fun _ => false) todo seen).2.map φ := by
  cases todo with
  | nil =>
      intro _ _
      rw [List.map_nil, search_nil, search_nil]
  | cons id rest =>
      intro liveTodo liveSeen
      have live : g.Live id := liveTodo id (.head _)
      have liveRest : ∀ x ∈ rest, g.Live x := fun x later => liveTodo x (.tail _ later)
      rw [List.map_cons]
      by_cases old : id ∈ seen
      · rw [search_old old, search_old ((alike.mem_map_iff live liveSeen).mpr old)]
        exact map_search arena alike rest seen liveRest liveSeen
      · obtain ⟨instr, found⟩ := arena.live_node live
        obtain ⟨ψ, found', -⟩ := alike.node live found
        have new := (alike.mem_map_iff live liveSeen).not.mpr old
        have fewer := unseen_cons_lt (lt_size_of_node? found) old
        have below := g.search_explored (fun _ => false) (g.targets id) (id :: seen)
        have least := unseen_search_le g (fun _ => false) (g.targets id) (id :: seen)
        have liveBelow : ∀ x ∈ (g.search (fun _ => false) (g.targets id) (id :: seen)).2, g.Live x := by
          intro x member
          rcases below.path_below x member with before | path
          · exact liveSeen x before
          · exact live.trans path
        have inner := map_search arena alike (g.targets id) (id :: seen) (fun x edge => live.edge edge)
          (List.forall_mem_cons.mpr ⟨live, liveSeen⟩)
        rw [search_new old found, search_new new found', alike.targets live found, ← List.map_cons, inner]
        exact map_search arena alike rest _ liveRest liveBelow
termination_by (g.unseen seen, todo.length)
decreasing_by
  · exact Prod.Lex.right _ (Nat.lt_succ_self _)
  · exact Prod.Lex.left _ _ fewer
  · exact Prod.Lex.left _ _ (Nat.lt_of_le_of_lt least fewer)

theorem reachable (arena : g.Arena) (alike : g.Alike f φ) : f.reachable = g.reachable.map φ := by
  have search := alike.map_search arena [g.entry] [] (by simpa using Live.entry g) (by simp)
  rw [Graph.reachable, Graph.reachable, List.map_reverse, ← search, List.map_singleton, alike.entry,
    List.map_nil]

theorem idxOf?_map {ids : List NodeId} (inj : ∀ x ∈ ids, φ x = φ id → x = id) :
    (ids.map φ).idxOf? (φ id) = ids.idxOf? id := by
  induction ids with
  | nil => rfl
  | cons x ids ih =>
      have same : φ x = φ id ↔ x = id := ⟨inj x (.head _), congrArg φ⟩
      rw [List.map_cons, List.idxOf?_cons, List.idxOf?_cons, ih fun y later => inj y (.tail _ later)]
      simp [same]

/-- A handle of a live node has the number of its image, or is not drawn, like its image. -/
theorem numberText_eq (arena : g.Arena) (arena' : f.Arena) (alike : g.Alike f φ) {h h' : NodeId}
    (same : (g.Live h ↔ f.Live h') ∧ (g.Live h → h' = φ h)) :
    numberText f.reachable h' = numberText g.reachable h := by
  have all : ∀ x ∈ g.reachable, g.Live x := fun x => arena.mem_reachable.mp
  unfold numberText
  by_cases live : g.Live h
  · obtain rfl := same.2 live
    rw [alike.reachable arena, idxOf?_map fun x member => alike.injOn (all x member) live]
  · have dead : h ∉ g.reachable := fun member => live (arena.mem_reachable.mp member)
    have dead' : h' ∉ f.reachable := fun member => live (same.1.mpr (arena'.mem_reachable.mp member))
    rw [List.idxOf?_eq_none_iff.mpr dead, List.idxOf?_eq_none_iff.mpr dead']

theorem dumpLine_relabel {order order' : List NodeId} (n : Node) (id : NodeId) (ψ : NodeId → NodeId)
    (same : ∀ h ∈ n.instr.handles, numberText order' (ψ h) = numberText order h) :
    dumpLine order' ⟨id, n.instr.relabel ψ⟩ = dumpLine order n := by
  obtain ⟨own, instr⟩ := n
  cases instr <;> simp_all [dumpLine, Instr.relabel, Instr.handles]

theorem dump (arena : g.Arena) (arena' : f.Arena) (alike : g.Alike f φ) : f.dump = g.dump := by
  have lines : f.walk.map (dumpLine f.reachable) = g.walk.map (dumpLine g.reachable) := by
    rw [walk, walk, List.map_filterMap, List.map_filterMap]
    nth_rewrite 2 [alike.reachable arena]
    rw [List.filterMap_map]
    refine List.filterMap_congr fun id member => ?_
    have live := arena.mem_reachable.mp member
    obtain ⟨instr, found⟩ := arena.live_node live
    obtain ⟨ψ, found', same⟩ := alike.node live found
    rw [Function.comp_apply, found, found', Option.map_some, Option.map_some, dumpLine_relabel]
    exact fun h handle => alike.numberText_eq arena arena' (same h handle)
  rw [dump_eq_lines, dump_eq_lines, lines]

end Alike

end Graph

end FlowFold
