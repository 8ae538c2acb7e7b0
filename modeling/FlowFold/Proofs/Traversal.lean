import Mathlib.Data.List.Nodup
import FlowFold.Proofs.Arena

/-! # What a search sees

A search that does not stop sees exactly the nodes to which a path leads from the
handles it starts with, and each once. The argument is the usual one for depth-first
search: what has been seen is closed under edges, up to the nodes seen before.
-/

namespace FlowFold.Graph

/-- What a search has done when it ends: it went along paths only, and unless it was
    stopped, it left nothing out. -/
structure Explored (g : Graph) (stop : Node → Bool) (todo seen : List NodeId)
    (r : Option Node × List NodeId) : Prop where
  kept : seen <:+ r.2
  nodup : seen.Nodup → r.2.Nodup
  path : ∀ x ∈ r.2, x ∈ seen ∨ ∃ t ∈ todo, g.Path t x
  stops : ∀ n, r.1 = some n → stop n = true
  done : r.1 = none → ∀ t ∈ todo, t < g.size → t ∈ r.2
  closed : r.1 = none → ∀ x ∈ r.2, x ∉ seen → ∀ y ∈ g.targets x, y < g.size → y ∈ r.2

namespace Explored

variable {g : Graph} {stop : Node → Bool} {id : NodeId} {rest seen : List NodeId}
  {r : Option Node × List NodeId}

theorem nil : Explored g stop [] seen (none, seen) where
  kept := List.suffix_refl seen
  nodup := fun distinct => distinct
  path := fun _ member => .inl member
  stops := nofun
  done := nofun
  closed := fun _ _ member new => absurd member new

theorem halt {n : Node} (new : id ∉ seen) (stops : stop n = true) :
    Explored g stop (id :: rest) seen (some n, id :: seen) where
  kept := List.suffix_cons id seen
  nodup := fun distinct => List.nodup_cons.mpr ⟨new, distinct⟩
  path := by
    intro x member
    rcases List.mem_cons.mp member with rfl | old
    · exact .inr ⟨x, List.mem_cons_self, .refl⟩
    · exact .inl old
  stops := by
    intro m same
    cases same
    exact stops
  done := nofun
  closed := nofun

/-- A handle that needs no search, because it was seen before or has no node, is skipped. -/
theorem skip (settled : id < g.size → id ∈ seen) (tail : Explored g stop rest seen r) :
    Explored g stop (id :: rest) seen r where
  kept := tail.kept
  nodup := tail.nodup
  path := by
    intro x member
    refine (tail.path x member).imp_right ?_
    rintro ⟨t, among, path⟩
    exact ⟨t, List.mem_cons_of_mem id among, path⟩
  stops := tail.stops
  done := by
    intro unstopped t member inside
    rcases List.mem_cons.mp member with rfl | member
    · exact tail.kept.subset (settled inside)
    · exact tail.done unstopped t member inside
  closed := tail.closed

theorem path_below (below : Explored g stop (g.targets id) (id :: seen) r) :
    ∀ x ∈ r.2, x ∈ seen ∨ g.Path id x := by
  intro x member
  rcases below.path x member with old | ⟨t, edge, path⟩
  · rcases List.mem_cons.mp old with rfl | old
    · exact .inr .refl
    · exact .inl old
  · exact .inr (.head edge path)

theorem stopped {m : Node} {seen' : List NodeId} (new : id ∉ seen)
    (below : Explored g stop (g.targets id) (id :: seen) (some m, seen')) :
    Explored g stop (id :: rest) seen (some m, seen') where
  kept := (List.suffix_cons id seen).trans below.kept
  nodup := fun distinct => below.nodup (List.nodup_cons.mpr ⟨new, distinct⟩)
  path := fun x member => (below.path_below x member).imp_right fun path => ⟨id, List.mem_cons_self, path⟩
  stops := below.stops
  done := nofun
  closed := nofun

/-- A new node is seen, then all that is below it, and then the rest. -/
theorem enter {seen' : List NodeId} (new : id ∉ seen)
    (below : Explored g stop (g.targets id) (id :: seen) (none, seen'))
    (tail : Explored g stop rest seen' r) : Explored g stop (id :: rest) seen r where
  kept := ((List.suffix_cons id seen).trans below.kept).trans tail.kept
  nodup := fun distinct => tail.nodup (below.nodup (List.nodup_cons.mpr ⟨new, distinct⟩))
  path := by
    intro x member
    rcases tail.path x member with old | ⟨t, among, path⟩
    · exact (below.path_below x old).imp_right fun path => ⟨id, List.mem_cons_self, path⟩
    · exact .inr ⟨t, List.mem_cons_of_mem id among, path⟩
  stops := tail.stops
  done := by
    intro unstopped t member inside
    rcases List.mem_cons.mp member with rfl | member
    · exact tail.kept.subset (below.kept.subset List.mem_cons_self)
    · exact tail.done unstopped t member inside
  closed := by
    intro unstopped x member fresh y edge inside
    by_cases old : x ∈ seen'
    · refine tail.kept.subset ?_
      by_cases here : x = id
      · exact below.done rfl y (here ▸ edge) inside
      · exact below.closed rfl x old (by simp [here, fresh]) y edge inside
    · exact tail.closed unstopped x member old y edge inside

end Explored

theorem unseen_search_le (g : Graph) (stop : Node → Bool) (todo seen : List NodeId) :
    g.unseen (g.search stop todo seen).2 ≤ g.unseen seen :=
  (g.searchFrom stop todo seen).2

/-- Every search explores. The recursion is that of the search itself: into the targets
    of a new node, with fewer nodes unseen, or on to the rest. -/
theorem search_explored (g : Graph) (stop : Node → Bool) (todo seen : List NodeId) :
    Explored g stop todo seen (g.search stop todo seen) := by
  cases todo with
  | nil =>
      rw [search_nil]
      exact .nil
  | cons id rest =>
      rw [search_cons]
      split
      · rename_i old
        exact .skip (fun _ => old) (search_explored g stop rest seen)
      · rename_i new
        cases found : g.node? id with
        | none =>
            exact .skip (fun inside => absurd inside (Nat.not_lt.mpr (node?_eq_none.mp found)))
              (search_explored g stop rest seen)
        | some n =>
            have fewer := unseen_cons_lt (lt_size_of_node? found) new
            by_cases stops : stop n = true
            · simp only [stops, if_true]
              exact .halt new stops
            · simp only [stops]
              have below := search_explored g stop (g.targets id) (id :: seen)
              have least := unseen_search_le g stop (g.targets id) (id :: seen)
              rcases inner : g.search stop (g.targets id) (id :: seen) with ⟨_ | m, seen'⟩
              · rw [inner] at below least
                have smaller : g.unseen seen' < g.unseen seen := Nat.lt_of_le_of_lt least fewer
                exact .enter new below (search_explored g stop rest seen')
              · rw [inner] at below
                exact .stopped new below
termination_by (g.unseen seen, todo.length)
decreasing_by
  · exact Prod.Lex.right _ (Nat.lt_succ_self _)
  · exact Prod.Lex.left _ _ fewer
  · exact Prod.Lex.left _ _ smaller
  · exact Prod.Lex.right _ (Nat.lt_succ_self _)

theorem search_never (g : Graph) (todo seen : List NodeId) :
    (g.search (fun _ => false) todo seen).1 = none := by
  cases found : (g.search (fun _ => false) todo seen).1 with
  | none => rfl
  | some n => simpa using (g.search_explored (fun _ => false) todo seen).stops n found

theorem reachable_nodup (g : Graph) : g.reachable.Nodup := by
  rw [reachable, List.nodup_reverse]
  exact (g.search_explored (fun _ => false) [g.entry] []).nodup List.nodup_nil

theorem nodup_eraseDups {α : Type} [BEq α] [LawfulBEq α] (l : List α) : l.eraseDups.Nodup := by
  cases l with
  | nil => simp
  | cons a l =>
      have shorter := List.length_filter_le (fun b => !b == a) l
      rw [List.eraseDups_cons, List.nodup_cons, List.mem_eraseDups]
      exact ⟨by simp, nodup_eraseDups _⟩
termination_by l.length

theorem Arena.mem_search {g : Graph} (arena : g.Arena) {stop : Node → Bool} {start x : NodeId}
    (inside : start < g.size) (unstopped : (g.search stop [start] []).1 = none) (path : g.Path start x) :
    x ∈ (g.search stop [start] []).2 := by
  have explored := g.search_explored stop [start] []
  induction path with
  | refl => exact explored.done unstopped start (.head _) inside
  | tail _ edge ih => exact explored.closed unstopped _ ih List.not_mem_nil _ edge (arena.target_lt edge)

theorem Arena.mem_reachable {g : Graph} (arena : g.Arena) {id : NodeId} :
    id ∈ g.reachable ↔ g.Live id := by
  have explored := g.search_explored (fun _ => false) [g.entry] []
  have unstopped := g.search_never [g.entry] []
  rw [reachable, List.mem_reverse]
  constructor
  · intro member
    rcases explored.path id member with old | ⟨t, among, path⟩
    · cases old
    · obtain rfl := List.mem_singleton.mp among
      exact path
  · exact fun live => arena.mem_search arena.entry_lt unstopped live

theorem Arena.mem_walk {g : Graph} (arena : g.Arena) {n : Node} :
    n ∈ g.walk ↔ g.Live n.id ∧ g.node? n.id = some n := by
  rw [walk, List.mem_filterMap]
  constructor
  · rintro ⟨id, walked, found⟩
    obtain rfl := arena.id_eq found
    exact ⟨arena.mem_reachable.mp walked, found⟩
  · rintro ⟨live, found⟩
    exact ⟨n.id, arena.mem_reachable.mpr live, found⟩

end FlowFold.Graph
