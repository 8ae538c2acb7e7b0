import FlowFold.Proofs.DepthFirst

/-! # Connections are paths

A search from a node stops if and only if a path leads from there to a node that meets the
test. This is not a fact about single calls of the search: a call gives up at a node that was
seen before, even if the search below that node is still going on. But what a whole search has
seen without stopping is closed under edges, and the test holds nowhere in it.

A connection with a test for its start is searched for from each live node that meets this
test, one after another, until a search stops.
-/

namespace FlowFold

namespace Graph

variable {g : Graph} {stop : Node → Bool} {todo seen : List NodeId} {r : Option Node × List NodeId}

/-! ## What a search finds -/

theorem Course.met {m : Node} (course : g.Course stop todo seen r) (stopped : r.1 = some m) :
    ∃ t ∈ todo, ∃ x, g.Path t x ∧ g.node? x = some m ∧ stop m = true := by
  induction course with
  | nil => cases stopped
  | old _ _ ih =>
      obtain ⟨t, among, met⟩ := ih stopped
      exact ⟨t, .tail _ among, met⟩
  | halt _ found stops =>
      cases stopped
      exact ⟨_, .head _, _, .refl, found, stops⟩
  | within _ _ _ _ ih =>
      obtain ⟨t, edge, x, path, met⟩ := ih stopped
      exact ⟨_, .head _, x, .head edge path, met⟩
  | past _ _ _ _ _ _ ih =>
      obtain ⟨t, among, met⟩ := ih stopped
      exact ⟨t, .tail _ among, met⟩

theorem Course.unmet (course : g.Course stop todo seen r) (unstopped : r.1 = none) {x : NodeId} {n : Node}
    (member : x ∈ r.2) (fresh : x ∉ seen) (here : g.node? x = some n) : stop n = false := by
  induction course with
  | nil => exact absurd member fresh
  | old _ _ ih => exact ih unstopped member fresh
  | halt | within => cases unstopped
  | @past id _ _ _ seen' _ _ found goes _ _ ihBelow ihOthers =>
      by_cases old : x ∈ seen'
      · by_cases same : x = id
        · subst same
          rw [found] at here
          cases here
          exact goes
        · exact ihBelow rfl old (by simp [same, fresh])
      · exact ihOthers unstopped member old

theorem Arena.reaches_iff (arena : g.Arena) {start : NodeId} (inside : start < g.size) :
    g.reaches start stop = true ↔ ∃ x n, g.Path start x ∧ g.node? x = some n ∧ stop n = true := by
  have course := arena.course stop [start] [] (by simpa using inside)
  unfold reaches
  cases stopped : (g.search stop [start] []).1 with
  | some m =>
      obtain ⟨t, among, x, path, met⟩ := course.met stopped
      obtain rfl := List.mem_singleton.mp among
      simp only [Option.isSome_some, true_iff]
      exact ⟨x, m, path, met⟩
  | none =>
      simp only [Option.isSome_none, Bool.false_eq_true, false_iff]
      rintro ⟨x, n, path, found, stops⟩
      have unmet := course.unmet stopped (arena.mem_search inside stopped path) List.not_mem_nil found
      rw [unmet] at stops
      cases stops

/-! ## Connections -/

/-- With a test that cannot fail, the search for the end of a connection is a plain search. -/
theorem connectFrom_pure (g : Graph) (stop : Node → Bool) (start : NodeId) :
    ∃ tried, g.connectFrom (fun n => .ok (stop n)) start = .ok (g.reaches start stop, tried) := by
  have settled : ∀ test : Node → Bool, (∀ n, test n = stop n) → g.search test = g.search stop :=
    fun test same => by rw [funext same]
  unfold connectFrom reaches
  dsimp only
  rw [settled _ fun n => by cases stop n <;> rfl]
  have stops := (g.search_explored stop [start] []).stops
  rcases searched : g.search stop [start] [] with ⟨_ | n, seen⟩
  · exact ⟨seen.reverse, rfl⟩
  · rw [searched] at stops
    refine ⟨seen.reverse, ?_⟩
    simp only [stops n rfl]
    rfl

theorem connectAny_pure (g : Graph) (start stop : Node → Bool) (nodes : List Node) :
    ∃ c, g.connectAny (fun n => .ok (start n)) (fun n => .ok (stop n)) nodes = .ok c ∧
      (c.found = true ↔ ∃ n ∈ nodes, start n = true ∧ g.reaches n.id stop = true) := by
  induction nodes with
  | nil => exact ⟨_, rfl, by simp⟩
  | cons n nodes ih =>
      obtain ⟨c, others, found⟩ := ih
      obtain ⟨tried, first⟩ := g.connectFrom_pure stop n.id
      simp only [connectAny, others, first, bind, Except.bind]
      cases starts : start n with
      | false => exact ⟨_, rfl, by simp [found, starts]⟩
      | true =>
          cases reaches : g.reaches n.id stop with
          | false => exact ⟨_, rfl, by simp [found, reaches]⟩
          | true => exact ⟨_, rfl, by simp [starts, reaches]⟩

/-- Where a connection may start: at a live node that meets the test, and at the entry if there
    is no test. -/
def Starts (g : Graph) (start : Option (Node → Bool)) (s : NodeId) : Prop :=
  match start with
  | none => s = g.entry
  | some test => g.Live s ∧ ∃ n, g.node? s = some n ∧ test n = true

/-- On a graph that was built by calls a connection can always be asked for, and it is found if
    and only if a path, possibly empty, leads from where it may start to a node that meets the
    test for its end. -/
theorem connect_iff_path {g : Graph} (built : g.Built) (start : Option (Node → Bool)) (stop : Node → Bool) :
    ∃ c, g.connect (start.map fun test n => .ok (test n)) (some fun n => .ok (stop n)) = .ok c ∧
      (c.found = true ↔
        ∃ s e n, g.Starts start s ∧ g.Path s e ∧ g.node? e = some n ∧ stop n = true) := by
  have arena := built.arena
  cases start with
  | none =>
      obtain ⟨tried, searched⟩ := g.connectFrom_pure stop g.entry
      refine ⟨⟨g.reaches g.entry stop, [], tried⟩, ?_, ?_⟩
      · simp only [Option.map_none, connect, searched]
        rfl
      · rw [arena.reaches_iff arena.entry_lt]
        simp [Starts]
  | some test =>
      obtain ⟨c, tried, found⟩ := g.connectAny_pure test stop g.walk
      refine ⟨c, tried, found.trans ?_⟩
      constructor
      · rintro ⟨n, walked, starts, reaches⟩
        obtain ⟨live, here⟩ := arena.mem_walk.mp walked
        obtain ⟨e, m, path, met⟩ := (arena.reaches_iff (arena.live_lt live)).mp reaches
        exact ⟨n.id, e, m, ⟨live, n, here, starts⟩, path, met⟩
      · rintro ⟨s, e, m, ⟨live, n, here, starts⟩, path, met⟩
        obtain rfl := arena.id_eq here
        exact ⟨n, arena.mem_walk.mpr ⟨live, here⟩, starts,
          (arena.reaches_iff (arena.live_lt live)).mpr ⟨e, m, path, met⟩⟩

/-- By the body of the loop a connection leads to the branch inside. No connection leads from the
    entry to `quit`, the join of that branch. -/
theorem connect_iff_path_countdown :
    let g := build countdown
    g.Built ∧
      (∃ c, g.connect (some fun n => .ok (n.id == 3)) (some fun n => .ok (n.id == 4)) = .ok c ∧
        c.found = true) ∧
      ∃ c, g.connect none (some fun n => .ok (n.id == 0)) = .ok c ∧ c.found = false := by
  intro g
  have built : g.Built := ⟨_, rfl⟩
  have live : ∀ id, g.Live id ↔ id ∈ [5, 4, 2, 3, 1] := fun id => by
    rw [← built.arena.mem_reachable, reachable_countdown]
  obtain ⟨c, asked, found⟩ := connect_iff_path built (some fun n => n.id == 3) fun n => n.id == 4
  obtain ⟨c', asked', found'⟩ := connect_iff_path built none fun n => n.id == 0
  refine ⟨built, ⟨c, asked, found.mpr ?_⟩, c', asked', ?_⟩
  · have round : g.Path 3 4 := .tail (.single (by decide : 5 ∈ g.targets 3)) (by decide)
    exact ⟨3, 4, _, ⟨(live 3).mpr (by decide), _, rfl, rfl⟩, round, rfl, rfl⟩
  · rw [Bool.eq_false_iff, Ne, found']
    rintro ⟨s, e, n, rfl, path, here, quit⟩
    obtain rfl : e = 0 := (built.arena.id_eq here).symm.trans (by simpa using quit)
    exact absurd ((live 0).mp path) (by decide)

end Graph

end FlowFold
