import FlowFold.Proofs.Traversal

/-! # Edges seen from their targets

The predecessors are collected while the graph is walked. A node may be a target before it is
walked, after that, or both, when it lies on a cycle. Whichever comes first starts the list of the
node, and nothing starts it again, so in the end the lists hold each edge of a live node once, at its
target and in the order of the walk. They are kept for live nodes only, since a live node has no
edge to another node than a live one.
-/

namespace FlowFold.Graph

/-! ## One node of the walk -/

/-- Put a node at the end of the list of another, which has one from then on. -/
def note (p : NodeId) (preds : Std.ExtTreeMap NodeId (List NodeId)) (target : NodeId) :
    Std.ExtTreeMap NodeId (List NodeId) :=
  preds.alter target fun known => some (known.getD [] ++ [p])

/-- What is collected at one node of the walk: the node has a list from then on, and it is noted at
    each of its targets. -/
def collect (g : Graph) (preds : Std.ExtTreeMap NodeId (List NodeId)) (p : NodeId) :
    Std.ExtTreeMap NodeId (List NodeId) :=
  (g.targets p).foldl (note p) (preds.insertIfNew p [])

section

variable {g : Graph} {p id : NodeId}

theorem getD_note (ids : List NodeId) (preds : Std.ExtTreeMap NodeId (List NodeId)) :
    (ids.foldl (note p) preds).getD id [] = preds.getD id [] ++ (ids.filter (· = id)).map fun _ => p := by
  induction ids generalizing preds with
  | nil => simp
  | cons target ids ih =>
      rw [List.foldl_cons, ih, note, Std.ExtTreeMap.getD_alter, Std.ExtTreeMap.getD_eq_getD_getElem?]
      by_cases same : target = id
      · simp [same]
      · simp [same]

theorem mem_note (ids : List NodeId) (preds : Std.ExtTreeMap NodeId (List NodeId)) :
    id ∈ ids.foldl (note p) preds ↔ id ∈ preds ∨ id ∈ ids := by
  induction ids generalizing preds with
  | nil => simp
  | cons target ids ih =>
      rw [List.foldl_cons, ih, note, Std.ExtTreeMap.mem_alter, List.mem_cons]
      by_cases same : target = id
      · simp [same]
      · have other : ¬ id = target := fun e => same e.symm
        simp [same, other]

theorem getD_collect (preds : Std.ExtTreeMap NodeId (List NodeId)) :
    (g.collect preds p).getD id [] =
      preds.getD id [] ++ ((g.targets p).filter (· = id)).map fun _ => p := by
  have entered : (preds.insertIfNew p []).getD id [] = preds.getD id [] := by
    rw [Std.ExtTreeMap.getD_insertIfNew]
    split
    · rename_i fresh
      obtain rfl : p = id := by simpa using fresh.1
      rw [Std.ExtTreeMap.getD_eq_fallback fresh.2]
    · rfl
  rw [collect, getD_note, entered]

theorem mem_collect (preds : Std.ExtTreeMap NodeId (List NodeId)) :
    id ∈ g.collect preds p ↔ id ∈ preds ∨ id = p ∨ id ∈ g.targets p := by
  rw [collect, mem_note, Std.ExtTreeMap.mem_insertIfNew, Nat.compare_eq_eq, eq_comm, or_assoc, or_left_comm]

/-! ## The whole walk -/

theorem getD_foldl_collect (ps : List NodeId) (preds : Std.ExtTreeMap NodeId (List NodeId)) :
    (ps.foldl g.collect preds).getD id [] =
      preds.getD id [] ++ ps.flatMap fun p => ((g.targets p).filter (· = id)).map fun _ => p := by
  induction ps generalizing preds with
  | nil => simp
  | cons p ps ih => rw [List.foldl_cons, ih, getD_collect, List.flatMap_cons, List.append_assoc]

theorem mem_foldl_collect (ps : List NodeId) (preds : Std.ExtTreeMap NodeId (List NodeId)) :
    id ∈ ps.foldl g.collect preds ↔ id ∈ preds ∨ ∃ p ∈ ps, id = p ∨ id ∈ g.targets p := by
  induction ps generalizing preds with
  | nil => simp
  | cons p ps ih =>
      rw [List.foldl_cons, ih, mem_collect, or_assoc]
      simp only [List.mem_cons, exists_eq_or_imp]

theorem predecessors_eq_foldl (g : Graph) : g.predecessors = g.reachable.foldl g.collect ∅ := rfl

/-- The predecessors of a node, in the order of the walk, each as often as it has edges
    to the node. -/
theorem getD_predecessors (g : Graph) (id : NodeId) :
    g.predecessors.getD id [] =
      g.reachable.flatMap fun p => ((g.targets p).filter (· = id)).map fun _ => p := by
  rw [predecessors_eq_foldl, getD_foldl_collect, Std.ExtTreeMap.getD_empty, List.nil_append]

theorem mem_predecessors : p ∈ g.predecessors.getD id [] ↔ p ∈ g.reachable ∧ id ∈ g.targets p := by
  simp only [getD_predecessors, List.mem_flatMap, List.mem_map, List.mem_filter, decide_eq_true_eq]
  constructor
  · rintro ⟨q, walked, target, ⟨edge, rfl⟩, rfl⟩
    exact ⟨walked, edge⟩
  · rintro ⟨walked, edge⟩
    exact ⟨p, walked, id, ⟨edge, rfl⟩, rfl⟩

/-- The nodes that have a list are those of the walk: every target of a live node is live. -/
theorem Arena.mem_keys_predecessors (arena : g.Arena) : id ∈ g.predecessors ↔ id ∈ g.reachable := by
  rw [predecessors_eq_foldl, mem_foldl_collect]
  constructor
  · rintro (none | ⟨p, walked, rfl | edge⟩)
    · exact absurd none Std.ExtTreeMap.not_mem_empty
    · exact walked
    · exact arena.mem_reachable.mpr ((arena.mem_reachable.mp walked).edge edge)
  · intro walked
    exact .inr ⟨id, walked, .inl rfl⟩

end

/-! ## Number and order -/

theorem count_map_const (p q id : NodeId) (ids : List NodeId) :
    ((ids.filter (· = id)).map fun _ => p).count q = if p = q then ids.countP (· = id) else 0 := by
  rw [List.map_const', List.count_replicate, List.countP_eq_length_filter]
  simp

theorem count_flatMap_targets {g : Graph} {ps : List NodeId} (distinct : ps.Nodup) (q id : NodeId) :
    (ps.flatMap fun p => ((g.targets p).filter (· = id)).map fun _ => p).count q =
      if q ∈ ps then (g.targets q).countP (· = id) else 0 := by
  induction ps with
  | nil => simp
  | cons p ps ih =>
      obtain ⟨new, distinct⟩ := List.nodup_cons.mp distinct
      rw [List.flatMap_cons, List.count_append, count_map_const, ih distinct]
      by_cases here : p = q
      · subst here
        simp [new]
      · have other : ¬ q = p := fun e => here e.symm
        simp [here, other]

theorem count_predecessors (g : Graph) (p id : NodeId) :
    (g.predecessors.getD id []).count p =
      if p ∈ g.reachable then (g.successors p).countP (·.target = id) else 0 := by
  rw [getD_predecessors, count_flatMap_targets g.reachable_nodup, targets, List.countP_map]
  rfl

theorem reachable_pairwise (g : Graph) :
    g.reachable.Pairwise fun p q => g.reachable.idxOf p < g.reachable.idxOf q := by
  rw [List.pairwise_iff_getElem]
  intro i j hi hj before
  rwa [g.reachable_nodup.idxOf_getElem, g.reachable_nodup.idxOf_getElem]

theorem predecessors_pairwise (g : Graph) (id : NodeId) :
    (g.predecessors.getD id []).Pairwise fun p q => g.reachable.idxOf p ≤ g.reachable.idxOf q := by
  have same : ∀ p x, x ∈ ((g.targets p).filter (· = id)).map (fun _ => p) → x = p := by
    intro p x member
    obtain ⟨_, -, rfl⟩ := List.mem_map.mp member
    rfl
  rw [getD_predecessors, List.pairwise_flatMap]
  constructor
  · intro p _
    rw [List.map_const']
    exact List.pairwise_replicate.mpr (.inr (Nat.le_refl _))
  · refine g.reachable_pairwise.imp fun {p q} before x first y second => ?_
    rw [same p x first, same q y second]
    exact Nat.le_of_lt before

/-- The predecessors are the edges of the live nodes, seen from their targets. The nodes that have a
    list are those of the walk; a list holds each node of the walk as often as it has edges to the
    node in question, and no other node; and it is in the order of the walk. -/
theorem predecessors_exact {g : Graph} (built : g.Built) :
    (∀ id, id ∈ g.predecessors ↔ id ∈ g.reachable) ∧
      ∀ id ∈ g.reachable, ∃ preds, g.predecessors[id]? = some preds ∧
        (∀ p, preds.count p = if p ∈ g.reachable then (g.successors p).countP (·.target = id) else 0) ∧
        preds.Pairwise fun p q => g.reachable.idxOf p ≤ g.reachable.idxOf q := by
  have arena := built.arena
  refine ⟨fun id => arena.mem_keys_predecessors, fun id walked => ?_⟩
  refine ⟨g.predecessors.getD id [], ?_, fun p => g.count_predecessors p id, g.predecessors_pairwise id⟩
  exact Std.ExtTreeMap.getElem?_eq_some_getD (arena.mem_keys_predecessors.mpr walked)

/-- A loop that can be entered at its head and at its body, which is a branch with the same way out
    on either side. A dead node leads to the head as well. -/
def twoEntries : List Call :=
  [.addReturn (.var "x"),
    .addLoop (.binary .lt (.var "x") (.int 3)) 1,
    .addAssign "x" (.binary .add (.var "x") (.int 1)) 2,
    .addBranch (.binary .eq (.var "x") (.int 1)) 3 3 3,
    .setBody 2 4,
    .addAssign "x" (.int 0) 2,
    .addBranch (.var "y") 2 4 2,
    .setEntry 6]

theorem reachable_twoEntries : (build twoEntries).reachable = [6, 2, 4, 3, 1] := by
  have entry : (build twoEntries).entry = 6 := rfl
  have nodes : (build twoEntries).nodes =
      #[⟨0, .quit⟩, ⟨1, .ret (.var "x")⟩, ⟨2, .loop (.binary .lt (.var "x") (.int 3)) 4 1⟩,
        ⟨3, .assign "x" (.binary .add (.var "x") (.int 1)) 2⟩, ⟨4, .branch (.binary .eq (.var "x") (.int 1)) 3 3 3⟩,
        ⟨5, .assign "x" (.int 0) 2⟩, ⟨6, .branch (.var "y") 2 4 2⟩] := rfl
  simp [reachable, search_cons, search_nil, node?, targets, successors, Node.successors, entry, nodes]

/-- The branch inside is listed twice at the node where both its ways lead. The head of the loop has
    the entry and the end of the body, which is walked later, but not the dead node. -/
theorem predecessors_exact_twoEntries :
    let g := build twoEntries
    g.Built ∧ (3 ∈ g.reachable ∧ ∃ preds, g.predecessors[3]? = some preds ∧ preds.count 4 = 2) ∧
      (2 ∈ g.reachable ∧ ∃ preds, g.predecessors[2]? = some preds ∧
        preds.count 6 = 1 ∧ preds.count 3 = 1 ∧ preds.count 5 = 0) := by
  intro g
  have built : g.Built := ⟨_, rfl⟩
  have walked : g.reachable = [6, 2, 4, 3, 1] := reachable_twoEntries
  have third : 3 ∈ g.reachable := by rw [walked]; decide
  have second : 2 ∈ g.reachable := by rw [walked]; decide
  obtain ⟨-, lists⟩ := predecessors_exact built
  obtain ⟨preds, listed, count, -⟩ := lists 3 third
  obtain ⟨preds', listed', count', -⟩ := lists 2 second
  rw [walked] at count count'
  refine ⟨built, ⟨third, preds, listed, ?_⟩, second, preds', listed', ?_, ?_, ?_⟩
  · rw [count]; decide
  · rw [count']; decide
  · rw [count']; decide
  · rw [count']; decide

end FlowFold.Graph
