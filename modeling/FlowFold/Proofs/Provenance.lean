import FlowFold.Proofs.Effort
import FlowFold.Proofs.Inherited
import FlowFold.Proofs.Unassigned

/-! # Where the entries of an environment come from

A node records under its own key, and the entry stays with control from there on. So the
keys at a node are those of the nodes that control may have passed, on some route from the
entry.

The entry under a variable need not be a constant. Nothing is known on the way into the
program, and a route that does not assign the variable carries this along. The same holds
after a cycle that does not assign it, even if the variable is a constant on every way into
the cycle: when the cycle is visited first, nothing has come round it yet, and as nothing on
the cycle assigns the variable, nothing ever does. Where such a route leads, the variable is
unknown, and an expression that mentions it stays as it is.
-/

namespace FlowFold

namespace Node

variable {n : Node}

theorem key_eq_var {x : String} : n.key? = some (.var x) ↔ n.Assigns x := by
  obtain ⟨id, instr⟩ := n
  cases instr with
  | assign name value next => simp [key?, Assigns, Key.var_inj]
  | quit => simp [key?, Assigns]
  | ret | branch | loop => simp [key?, Assigns, (Key.var_ne_expr x id).symm]

theorem key_eq_expr {m : NodeId} : n.key? = some (.expr m) ↔ n.id = m ∧ n.instr.IsResult := by
  obtain ⟨id, instr⟩ := n
  cases instr with
  | assign name value next => simp [key?, Instr.IsResult, Key.var_ne_expr]
  | quit => simp [key?, Instr.IsResult]
  | ret | branch | loop => simp [key?, Instr.IsResult, Key.expr_inj]

end Node

namespace Graph

variable {g : Graph} {a b id m : NodeId} {steps steps' : List (NodeId × Edge)}

/-! ## Routes and paths -/

theorem Route.append (first : g.Route a steps m) (second : g.Route m steps' b) :
    g.Route a (steps ++ steps') b := by
  induction first with
  | nil => exact second
  | cons edge _ ih => exact .cons edge (ih second)

theorem Route.path (route : g.Route a steps b) : g.Path a b := by
  induction route with
  | nil => exact .refl
  | cons edge _ ih => exact .head (List.mem_map_of_mem edge) ih

theorem Path.route (path : g.Path a b) : ∃ steps, g.Route a steps b := by
  induction path using Relation.ReflTransGen.head_induction_on with
  | refl => exact ⟨[], .nil⟩
  | head target _ ih =>
      obtain ⟨steps, route⟩ := ih
      obtain ⟨e, edge, rfl⟩ := List.mem_map.mp target
      exact ⟨_, .cons edge route⟩

theorem Route.between (route : g.Route a steps b) {e : Edge} (left : (m, e) ∈ steps) :
    g.Path a m ∧ g.Path m b := by
  induction route with
  | nil => cases left
  | @cons a b edge steps out rest ih =>
      have onward : edge.target ∈ g.targets a := List.mem_map_of_mem out
      cases left with
      | head => exact ⟨.refl, .head onward rest.path⟩
      | tail _ later =>
          have within := ih later
          exact ⟨.head onward within.1, within.2⟩

/-- Some route from the entry to the second node passes the first, or ends there. -/
def MayPass (g : Graph) (m id : NodeId) : Prop :=
  ∃ steps, g.Route g.entry steps id ∧ (m = id ∨ ∃ e, (m, e) ∈ steps)

theorem mayPass_iff : g.MayPass m id ↔ g.Live m ∧ g.Path m id := by
  constructor
  · rintro ⟨steps, route, rfl | ⟨e, left⟩⟩
    · exact ⟨route.path, .refl⟩
    · exact route.between left
  · rintro ⟨live, path⟩
    obtain ⟨before, toNode⟩ := live.route
    obtain ⟨after, onward⟩ := path.route
    refine ⟨before ++ after, toNode.append onward, ?_⟩
    cases onward with
    | nil => exact .inl rfl
    | cons edge rest => exact .inr ⟨_, List.mem_append_right _ List.mem_cons_self⟩

/-! ## The keys at a node -/

/-- An entry that is committed was recorded by a node that control may have passed. -/
theorem Arena.passed_of_mem (arena : g.Arena) {p : Progress} (steps : Progress.Steps g (.start g) p)
    (live : g.Live id) {k : Key} (member : k ∈ p.out.getD id ∅) :
    ∃ m n, g.MayPass m id ∧ g.node? m = some n ∧ n.key? = some k := by
  simp only [mayPass_iff]
  revert k
  refine Progress.steps_all (fun id env => ∀ {k : Key}, k ∈ env → ∃ m n, (g.Live m ∧ g.Path m id) ∧
    g.node? m = some n ∧ n.key? = some k) ?_ ?_ steps id live
  · intro id k member
    exact absurd member Std.ExtTreeMap.not_mem_empty
  · intro out id env passed live leaves k member
    obtain ⟨instr, found⟩ := arena.live_node live
    rcases (arena.mem_leaving found leaves).mp member with own | ⟨p, liveP, edge, here⟩
    · exact ⟨id, _, ⟨live, .refl⟩, found, own⟩
    · obtain ⟨m, n, ⟨liveM, path⟩, foundM, own⟩ := passed p liveP here
      exact ⟨m, n, ⟨liveM, path.tail edge⟩, foundM, own⟩

theorem Analysed.mem_of_path {out : OutMap} (analysed : g.Analysed out) {n : Node} {k : Key}
    (live : g.Live m) (found : g.node? m = some n) (own : n.key? = some k) (path : g.Path m id) :
    k ∈ out.getD id ∅ := by
  induction path with
  | refl => exact (analysed.arena.mem_leaving found (analysed.solution.leaving live)).mpr (.inl own)
  | @tail p id before edge ih =>
      have liveP : g.Live p := live.trans before
      have liveId : g.Live id := liveP.edge edge
      obtain ⟨instr, found'⟩ := analysed.arena.live_node liveId
      apply (analysed.arena.mem_leaving found' (analysed.solution.leaving liveId)).mpr
      exact .inr ⟨p, liveP, edge, ih⟩

end Graph

theorem Analysis.mem_out_iff {g : Graph} (arena : g.Arena) {earlier a : Analysis}
    (run : earlier.run g = (a, none)) (analysed : g.Analysed a.out) {id : NodeId} (live : g.Live id)
    {k : Key} :
    k ∈ a.out.getD id ∅ ↔ ∃ m n, g.MayPass m id ∧ g.node? m = some n ∧ n.key? = some k := by
  constructor
  · intro member
    obtain ⟨p, steps, -, -, rfl⟩ := Analysis.steps_of_run arena run
    exact arena.passed_of_mem steps live member
  · rintro ⟨m, n, passed, found, own⟩
    obtain ⟨liveM, path⟩ := Graph.mayPass_iff.mp passed
    exact analysed.mem_of_path liveM found own path

/-- At every live node the analysis has entries under the variables that some node assigns on a
    route there from the entry, and under the returns, branches and loops on such a route, the node
    itself included. It has no others. -/
theorem Analysis.keys_on_routes {g : Graph} (built : g.Built) (complete : g.Complete) (earlier : Analysis) :
    ∃ a, earlier.run g = (a, none) ∧ ∀ id, g.Live id → ∃ env, a.outAt id = .ok (some env) ∧
      (∀ x, Key.var x ∈ env ↔ ∃ m, g.MayPass m id ∧ g.Assigns m x) ∧
      (∀ m, Key.expr m ∈ env ↔ g.MayPass m id ∧ m ∈ g.results) ∧
      ∀ k ∈ env, (∃ x, k = .var x) ∨ ∃ m, k = .expr m := by
  have arena := built.arena
  obtain ⟨a, run, hasRun, analysed⟩ := Analysis.run_analysed arena complete earlier
  refine ⟨a, run, fun id live => ⟨_, analysed.outAt hasRun live, ?_, ?_, ?_⟩⟩
  · intro x
    simp only [Analysis.mem_out_iff arena run analysed live, Node.key_eq_var, Graph.Assigns]
    constructor
    · rintro ⟨m, n, passed, found, assigns⟩
      exact ⟨m, passed, n, found, assigns⟩
    · rintro ⟨m, passed, n, found, assigns⟩
      exact ⟨m, n, passed, found, assigns⟩
  · intro m
    simp only [Analysis.mem_out_iff arena run analysed live, Node.key_eq_expr]
    constructor
    · rintro ⟨m', ⟨own, instr⟩, passed, found, rfl, result⟩
      obtain rfl : own = m' := arena.id_eq found
      exact ⟨passed, instr, (Graph.mayPass_iff.mp passed).1, found, result⟩
    · rintro ⟨passed, instr, -, found, result⟩
      exact ⟨m, _, passed, found, rfl, result⟩
  · intro k member
    obtain ⟨_, n, -, -, own⟩ := analysed.records id k member
    exact (Node.key_cases own).imp_right fun same => ⟨n.id, same⟩

/-- The entry is in the body of the loop, so what the loop records comes round to it. What the
    return records does not. -/
theorem Analysis.keys_on_routes_enteredInBody :
    let g := Graph.build Graph.enteredInBody
    g.Built ∧ g.Complete ∧ ∃ a env, Analysis.new.run g = (a, none) ∧ a.outAt 4 = .ok (some env) ∧
      Key.expr 2 ∈ env ∧ Key.var "x" ∈ env ∧ Key.expr 1 ∉ env := by
  intro g
  have built : g.Built := ⟨_, rfl⟩
  have complete : g.Complete := Graph.forall_live (by decide)
  obtain ⟨a, run, keys⟩ := Analysis.keys_on_routes built complete .new
  obtain ⟨env, out, vars, exprs, -⟩ := keys 4 (.entry g)
  have toLoop : g.Path 4 2 := (Relation.ReflTransGen.single (by decide)).tail (b := 3) (by decide)
  have round : g.Path 2 4 := .single (by decide)
  refine ⟨built, complete, a, env, run, out, (exprs 2).mpr ⟨?_, ?_⟩, (vars "x").mpr ⟨3, ?_, ?_⟩, ?_⟩
  · exact Graph.mayPass_iff.mpr ⟨toLoop, round⟩
  · exact ⟨_, toLoop, rfl, trivial⟩
  · exact Graph.mayPass_iff.mpr ⟨.single (by decide), .head (b := 2) (by decide) round⟩
  · exact ⟨_, rfl, _, _, rfl⟩
  · intro member
    obtain ⟨-, path⟩ := Graph.mayPass_iff.mp ((exprs 1).mp member).1
    cases path using Relation.ReflTransGen.head_induction_on with
    | head edge =>
        have final : g.targets 1 = [] := by decide
        simp [final] at edge

/-! ## What cannot be known -/

/-- After the node nothing is known under the key. -/
def Analysis.KnowsNothing (a : Analysis) (id : NodeId) (k : Key) : Prop :=
  ∃ env, a.outAt id = .ok (some env) ∧ env.get k = .nothing

theorem Env.Plain.get_eq_nothing {env : Env} (plain : env.Plain) {k : Key}
    (unknown : ∀ v, env[k]? ≠ some (.known v)) : env.get k = .nothing := by
  by_cases member : k ∈ env
  · have entry := Env.getElem?_eq_get member
    rcases plain k _ entry with none | ⟨v, known⟩
    · exact none
    · exact absurd (known ▸ entry) (unknown v)
  · exact Std.ExtTreeMap.getD_eq_fallback member

/-- An operation is known only if its operands are, so one variable without a constant is enough. -/
theorem Expr.evaluate_unknown {env : Env} {x : String} (unknown : ∀ v, env[Key.var x]? ≠ some (.known v))
    {e : Expr} (mentioned : x ∈ e.names) (v : Value) : e.evaluate env ≠ .ok (.known v) := by
  induction e generalizing v with
  | var name =>
      obtain rfl := List.mem_singleton.mp mentioned
      intro known
      exact unknown v (Env.get_eq_known.mp (Except.ok.inj known))
  | binary op left right ihl ihr =>
      intro known
      obtain ⟨f, l, r, -, leftOk, rightOk, -⟩ := evaluate_binary_known.mp known
      rcases List.mem_append.mp mentioned with inLeft | inRight
      · exact ihl inLeft l leftOk
      · exact ihr inRight r rightOk
  | const | missing | hollow | foreign => cases mentioned

namespace Graph

/-- No node that the route leaves assigns the variable. -/
def Avoids (g : Graph) (x : String) (steps : List (NodeId × Edge)) : Prop :=
  ∀ step ∈ steps, ¬ g.Assigns step.1 x

/-- A route leads to the node on which no node before the last one assigns the variable. It starts
    at the entry, or at a live node on a cycle that does not assign the variable either. -/
def Untracked (g : Graph) (x : String) (id : NodeId) : Prop :=
  ∃ start steps, g.Route start steps id ∧ g.Avoids x steps ∧
    (start = g.entry ∨ g.Live start ∧ ∃ cycle, g.Route start cycle start ∧ cycle ≠ [] ∧ g.Avoids x cycle)

/-- Live nodes that do not record under a key, each of which is the entry or is entered from
    another one of them. -/
structure Silent (g : Graph) (k : Key) (region : Set NodeId) : Prop where
  live : ∀ id ∈ region, g.Live id
  silent : ∀ id ∈ region, ∀ n, g.node? id = some n → n.key? ≠ some k
  entered : ∀ id ∈ region, id = g.entry ∨ ∃ p ∈ region, id ∈ g.targets p

variable {g : Graph} {id : NodeId} {x : String}

/-- No constant is ever committed under the key in such a region. At the start there is none, and
    one of the ways into each node is from outside or from the region. -/
theorem Silent.unknown (arena : g.Arena) {k : Key} {region : Set NodeId} (silent : g.Silent k region)
    {p : Progress} (steps : Progress.Steps g (.start g) p) (inside : id ∈ region) (v : Value) :
    (p.out.getD id ∅)[k]? ≠ some (.known v) := by
  revert v
  refine Progress.steps_all (fun id env => id ∈ region → ∀ v, env[k]? ≠ some (.known v)) ?_ ?_ steps id
    (silent.live id inside) inside
  · intro id _ v known
    simp at known
  · intro out id env unknown live leaves inside v known
    obtain ⟨n, found, left⟩ := leaving_eq_ok.mp leaves
    rw [Node.transfer_other left (silent.silent id inside n found)] at known
    rcases silent.entered id inside with rfl | ⟨p, insideP, edge⟩
    · exact arena.into_entry known
    · have liveP := silent.live p insideP
      exact unknown p liveP insideP v (arena.into_edge liveP edge known)

theorem cycle_iff {a : NodeId} : (∃ cycle, g.Route a cycle a ∧ cycle ≠ [] ∧ g.Avoids x cycle) ↔
    Relation.TransGen (g.Onward (some x)) a a := by
  rw [Relation.TransGen.head'_iff]
  constructor
  · rintro ⟨cycle, round, nonempty, avoids⟩
    cases round with
    | nil => exact absurd rfl nonempty
    | @cons _ _ e rest edge back =>
        obtain ⟨here, later⟩ := List.forall_mem_cons.mp avoids
        refine ⟨e.target, ⟨List.mem_map_of_mem edge, by simpa using here⟩, ?_⟩
        exact route_iff.mp ⟨rest, back, later⟩
  · rintro ⟨b, ⟨target, free⟩, back⟩
    obtain ⟨rest, round, later⟩ := route_iff.mpr back
    obtain ⟨e, edge, rfl⟩ := List.mem_map.mp target
    exact ⟨_, .cons edge round, List.cons_ne_nil _ _, List.forall_mem_cons.mpr ⟨free x rfl, later⟩⟩

theorem untracked_iff : g.Untracked x id ↔ ∃ start, Relation.ReflTransGen (g.Onward (some x)) start id ∧
    (start = g.entry ∨ g.Live start ∧ Relation.TransGen (g.Onward (some x)) start start) := by
  simp only [Untracked, cycle_iff]
  constructor
  · rintro ⟨start, steps, route, avoids, begins⟩
    exact ⟨start, route_iff.mp ⟨steps, route, avoids⟩, begins⟩
  · rintro ⟨start, path, begins⟩
    obtain ⟨steps, route, avoids⟩ := route_iff.mpr path
    exact ⟨start, steps, route, avoids, begins⟩

theorem Onward.path {a b : NodeId} (path : Relation.ReflTransGen (g.Onward (some x)) a b) : g.Path a b :=
  Relation.ReflTransGen.mono (fun _ _ (onward : g.Onward (some x) _ _) => onward.1) a b path

theorem Untracked.live (untracked : g.Untracked x id) : g.Live id := by
  obtain ⟨start, path, rfl | ⟨live, -⟩⟩ := untracked_iff.mp untracked
  · exact Onward.path path
  · exact live.trans (Onward.path path)

/-- Control comes to such a node from outside or from another one that does not assign the variable.
    At the start of the route this is the last node of the cycle. -/
theorem Untracked.entered (untracked : g.Untracked x id) :
    id = g.entry ∨ ∃ p, g.Untracked x p ∧ ¬ g.Assigns p x ∧ id ∈ g.targets p := by
  simp only [untracked_iff] at untracked ⊢
  obtain ⟨start, path, begins⟩ := untracked
  cases path with
  | refl =>
      refine begins.imp_right fun ⟨live, cycle⟩ => ?_
      obtain ⟨p, path, onward⟩ := Relation.TransGen.tail'_iff.mp cycle
      exact ⟨p, ⟨id, path, .inr ⟨live, cycle⟩⟩, onward.2 x rfl, onward.1⟩
  | @tail p _ before onward => exact .inr ⟨p, ⟨start, before, begins⟩, onward.2 x rfl, onward.1⟩

theorem silent_untracked (g : Graph) (x : String) :
    g.Silent (.var x) { id | g.Untracked x id ∧ ¬ g.Assigns id x } where
  live := fun id inside => inside.1.live
  silent := fun id inside n found own => inside.2 ⟨n, found, Node.key_eq_var.mp own⟩
  entered := by
    intro id inside
    apply inside.1.entered.imp_right
    rintro ⟨p, untracked, free, edge⟩
    exact ⟨p, ⟨untracked, free⟩, edge⟩

theorem Untracked.after_loop {loop body join : NodeId} {cond : Expr} {around steps : List (NodeId × Edge)}
    (live : g.Live loop) (found : g.node? loop = some ⟨loop, .loop cond body join⟩)
    (round : g.Route body around loop) (free : g.Avoids x around) (route : g.Route loop steps id)
    (avoids : g.Avoids x steps) : g.Untracked x id := by
  refine ⟨loop, steps, route, avoids, .inr ⟨live, (loop, ⟨body, .yes⟩) :: around, .cons ?_ round, ?_, ?_⟩⟩
  · simp [Graph.successors, found, Node.successors]
  · exact List.cons_ne_nil _ _
  · apply List.forall_mem_cons.mpr ⟨?_, free⟩
    simp [Assigns, found, Node.Assigns]

/-- Every live node has a copy in a folded graph. The induction is along a path to the node. -/
theorem FoldOf.exists_live {f : Graph} {a : Analysis} {origin : NodeId → NodeId} (fold : f.FoldOf a g origin)
    (live : g.Live id) : ∃ c, f.Live c ∧ origin c = id := by
  induction live with
  | refl => exact ⟨f.entry, .entry f, fold.entry⟩
  | tail _ edge ih =>
      obtain ⟨c, liveC, rfl⟩ := ih
      rw [fold.targets_map (fold.arena.live_lt liveC)] at edge
      obtain ⟨d, edgeC, rfl⟩ := List.mem_map.mp edge
      exact ⟨d, liveC.edge edgeC, rfl⟩

theorem Analysed.result_unknown {a : Analysis} (analysed : g.Analysed a.out) (live : g.Live id) {n : Node}
    (found : g.node? id = some n) {e : Expr} (has : n.expression = some e) (mentioned : x ∈ e.names)
    (unknown : ∀ v, (g.into a.out id)[Key.var x]? ≠ some (.known v)) {k : Key} (own : n.key? = some k)
    (v : Value) : (a.out.getD id ∅)[k]? ≠ some (.known v) := by
  obtain ⟨fact, -, entry, value⟩ := analysed.factAt_live live found own has
  rw [entry]
  rintro ⟨⟩
  exact Expr.evaluate_unknown unknown mentioned v value

theorem Analysed.knowsNothing {a : Analysis} (analysed : g.Analysed a.out) (hasRun : a.hasRun = true)
    (live : g.Live id) {k : Key} (unknown : ∀ v, (a.out.getD id ∅)[k]? ≠ some (.known v)) :
    a.KnowsNothing id k := by
  have plain := analysed.solution.plain id _ (getElem?_out ((analysed.solution.domain id).mpr live))
  exact ⟨_, analysed.outAt hasRun live, plain.get_eq_nothing unknown⟩

end Graph

namespace Analysis

variable {g : Graph} {earlier a : Analysis} {id : NodeId} {x : String} (arena : g.Arena)
  (run : earlier.run g = (a, none))
include arena run

theorem unknown_untracked (untracked : g.Untracked x id) (free : ¬ g.Assigns id x) (v : Value) :
    (a.out.getD id ∅)[Key.var x]? ≠ some (.known v) := by
  obtain ⟨p, steps, -, -, rfl⟩ := Analysis.steps_of_run arena run
  exact (g.silent_untracked x).unknown arena steps ⟨untracked, free⟩ v

theorem into_untracked (untracked : g.Untracked x id) (v : Value) :
    (g.into a.out id)[Key.var x]? ≠ some (.known v) := by
  intro known
  rcases untracked.entered with rfl | ⟨p, before, free, edge⟩
  · exact arena.into_entry known
  · exact unknown_untracked arena run before free v (arena.into_edge before.live edge known)

end Analysis

/-- Where a route leads that does not assign a variable, from the entry or from a cycle that does not
    assign it, nothing is known about the variable. In particular nothing is known about it at a
    loop that can be gone round without assigning it, and from there on until it is assigned. A
    node on such a route whose expression mentions the variable has nothing recorded under its own
    key, and its copies have the expression as it is. -/
theorem Analysis.nothing_known_untracked {g : Graph} (built : g.Built) (complete : g.Complete)
    (earlier : Analysis) :
    ∃ a f origin, earlier.run g = (a, none) ∧ a.rebuild g = .ok f ∧ f.FoldOf a g origin ∧
      (∀ x id, g.Untracked x id → ¬ g.Assigns id x → a.KnowsNothing id (.var x)) ∧
      (∀ x loop cond body join around steps id, g.Live loop →
        g.node? loop = some ⟨loop, .loop cond body join⟩ → g.Route body around loop → g.Avoids x around →
        g.Route loop steps id → g.Avoids x steps → ¬ g.Assigns id x → a.KnowsNothing id (.var x)) ∧
      ∀ x id n e, g.Untracked x id → g.node? id = some n → n.expression = some e → x ∈ e.names →
        (∃ k, n.key? = some k ∧ a.KnowsNothing id k) ∧ (∃ c, f.Live c ∧ origin c = id) ∧
        ∀ c, c < f.size → origin c = id → ∃ n', f.node? c = some n' ∧ n'.expression = some e := by
  have arena := built.arena
  obtain ⟨a, run, hasRun, analysed⟩ := Analysis.run_analysed arena complete earlier
  obtain ⟨f, origin, rebuilt, fold⟩ := Analysis.rebuild_foldOf analysed hasRun
  have nothing : ∀ x id, g.Untracked x id → ¬ g.Assigns id x → a.KnowsNothing id (.var x) := by
    intro x id untracked free
    exact analysed.knowsNothing hasRun untracked.live (unknown_untracked arena run untracked free)
  refine ⟨a, f, origin, run, rebuilt, fold, nothing, ?_, ?_⟩
  · intro x loop cond body join around steps id live found round free route avoids
    exact nothing x id (.after_loop live found round free route avoids)
  · intro x id n e untracked found has mentioned
    have live := untracked.live
    have unknown : ∀ {k}, n.key? = some k → ∀ v, (a.out.getD id ∅)[k]? ≠ some (.known v) :=
      analysed.result_unknown live found has mentioned (into_untracked arena run untracked)
    obtain ⟨k, own⟩ := Node.key_of_expression has
    refine ⟨⟨k, own, analysed.knowsNothing hasRun live (unknown own)⟩, fold.exists_live live, ?_⟩
    rintro c inside rfl
    obtain ⟨instr, n', here, found', folded⟩ := fold.exists_copy inside
    obtain rfl : n = n' := Option.some.inj (found.symm.trans found')
    -- A copy has the folded instruction, and folding has nothing to put in here.
    rw [analysed.foldedInstr_same found fun k v _ own => unknown own v] at folded
    refine ⟨_, here, ?_⟩
    rw [← Node.expression_relabel instr n.id origin, folded]
    exact has

/-- Calls that build a loop which does not touch the constant that `x` has before it. -/
def Graph.invariantLoop : List Graph.Call :=
  [.addReturn (.var "x"),
    .addLoop (.binary .lt (.var "i") (.int 3)) 1,
    .addAssign "i" (.binary .add (.var "i") (.int 1)) 2,
    .setBody 2 3,
    .addAssign "x" (.int 5) 2,
    .setEntry 4]

/-- The return after the loop keeps the variable, and so does the assignment in the loop, which reads
    `i` before it can have been assigned. -/
theorem Analysis.nothing_known_untracked_invariantLoop :
    let g := Graph.build Graph.invariantLoop
    g.Built ∧ g.Complete ∧ g.Untracked "x" 1 ∧ g.Untracked "i" 3 ∧
      ∃ a f origin, Analysis.new.run g = (a, none) ∧ a.rebuild g = .ok f ∧ f.FoldOf a g origin ∧
        a.KnowsNothing 2 (.var "x") ∧
        ∃ c d n n', origin c = 1 ∧ f.node? c = some n ∧ n.expression = some (.var "x") ∧
          origin d = 3 ∧ f.node? d = some n' ∧
          n'.expression = some (.binary .add (.var "i") (.int 1)) := by
  intro g
  have built : g.Built := ⟨_, rfl⟩
  have complete : g.Complete := Graph.forall_live (by decide)
  have round : g.Route 3 [(3, ⟨2, .plain⟩)] 2 := .cons (by decide) .nil
  have live : g.Live 2 := .single (by decide)
  have free : g.Avoids "x" [(3, ⟨2, .plain⟩)] := by
    simp [Graph.Avoids, Graph.Assigns, Node.Assigns, show g.node? 3 = some ⟨3, _⟩ from rfl]
  have leaves : g.Avoids "x" [(2, ⟨1, .no⟩)] := by
    simp [Graph.Avoids, Graph.Assigns, Node.Assigns, show g.node? 2 = some ⟨2, _⟩ from rfl]
  have enters : g.Avoids "i" [(4, ⟨2, .plain⟩), (2, ⟨3, .yes⟩)] := by
    simp [Graph.Avoids, Graph.Assigns, Node.Assigns, show g.node? 2 = some ⟨2, _⟩ from rfl,
      show g.node? 4 = some ⟨4, _⟩ from rfl]
  have after : g.Untracked "x" 1 := .after_loop live rfl round free (.cons (by decide) .nil) leaves
  have within : g.Untracked "i" 3 :=
    ⟨g.entry, _, .cons (e := ⟨2, .plain⟩) (by decide) (.cons (e := ⟨3, .yes⟩) (by decide) .nil), enters,
      .inl rfl⟩
  obtain ⟨a, f, origin, run, rebuilt, fold, -, loops, reads⟩ :=
    Analysis.nothing_known_untracked built complete .new
  have header := loops "x" 2 _ _ _ _ [] 2 live rfl round free .nil (by simp [Graph.Avoids])
    (by simp [Graph.Assigns, Node.Assigns, show g.node? 2 = some ⟨2, _⟩ from rfl])
  obtain ⟨-, ⟨c, liveC, stemsC⟩, keptC⟩ := reads "x" 1 _ _ after rfl rfl (by decide)
  obtain ⟨-, ⟨d, liveD, stemsD⟩, keptD⟩ := reads "i" 3 _ _ within rfl rfl (by decide)
  obtain ⟨n, here, hasC⟩ := keptC c (fold.arena.live_lt liveC) stemsC
  obtain ⟨n', there, hasD⟩ := keptD d (fold.arena.live_lt liveD) stemsD
  exact ⟨built, complete, after, within, a, f, origin, run, rebuilt, fold, header, c, d, n, n', stemsC, here,
    hasC, stemsD, there, hasD⟩

end FlowFold
