import FlowFold.Proofs.Provenance

/-! # Where the analysis knows all that a run does

The analysis and the machine have an evaluator each. Constants that are right about the
variables give the machine's value, if they give one. If moreover there is a constant for
every variable that has a value, the two evaluators agree altogether: the one finds a
constant exactly if the other finds a value, and otherwise the machine fails for want of a
value or because the kinds are wrong.

A program without branches and loops keeps it so. Each of its nodes leads to at most one
other, further down, hence control comes to a node in one way only and nothing is lost to a
merge. From no variables on, the analysis knows at every node what the machine has, and so
the folded program has the value of every expression that the machine has evaluated.
-/

namespace FlowFold

/-- A variable has no value, or an operation is none on values of these kinds. -/
def Failure.Stuck : Failure → Prop
  | .error (.undefined _) | .error (.mismatch _ _ _) => True
  | _ => False

namespace Env

/-- There is a constant for every variable that has a value. -/
def Covers (env : Env) (store : Store) : Prop :=
  ∀ (x : String) (v : Value), store[x]? = some v → ∃ w, env[Key.var x]? = some (.known w)

/-- The constants of the variables are their values. -/
structure Tracks (env : Env) (store : Store) : Prop where
  agrees : env.Agrees store
  covers : env.Covers store

variable {env env' : Env} {store : Store}

theorem Tracks.known (tracks : env.Tracks store) {x : String} {v : Value} (here : store[x]? = some v) :
    env[Key.var x]? = some (.known v) := by
  obtain ⟨w, known⟩ := tracks.covers x v here
  rw [tracks.agrees x w known] at here
  cases here
  exact known

theorem Tracks.congr (tracks : env.Tracks store)
    (same : ∀ (k : Key) (v : Value), env'[k]? = some (.known v) ↔ env[k]? = some (.known v)) :
    env'.Tracks store where
  agrees := fun x v known => tracks.agrees x v ((same _ v).mp known)
  covers := fun _ v here => ⟨v, (same _ v).mpr (tracks.known here)⟩

end Env

/-! ## Expressions -/

namespace Expr

variable {env : Env} {store : Store} {e : Expr}

theorem evaluate_of_eval (tracks : env.Tracks store) {v : Value} (value : e.eval store = .ok v) :
    e.evaluate env = .ok (.known v) := by
  induction e generalizing v with
  | const w =>
      cases value
      rfl
  | var name =>
      rw [eval] at value
      split at value
      · rename_i w here
        cases value
        rw [evaluate, Env.get_eq_known.mpr (tracks.known here)]
      · cases value
  | binary op left right ihl ihr =>
      obtain ⟨f, a, b, meaning, leftOk, rightOk, result⟩ := eval_binary.mp value
      exact evaluate_binary_known.mpr
        ⟨f, a, b, op.runOp_eq_foldOp.symm.trans meaning, ihl leftOk, ihr rightOk, result⟩
  | missing | hollow | foreign => cases value

theorem eval_iff_evaluate (tracks : env.Tracks store) {v : Value} :
    e.eval store = .ok v ↔ e.evaluate env = .ok (.known v) :=
  ⟨evaluate_of_eval tracks, eval_of_evaluate tracks.agrees⟩

theorem Complete.stuck (complete : e.Complete) {f : Failure} (failed : e.eval store = .error f) : f.Stuck := by
  rcases complete.eval_failed failed with ⟨name, rfl⟩ | ⟨l, op, r, rfl⟩ <;> trivial

/-- The evaluators of the analysis and of the machine. The first always has an answer. If its
    constants are right about the variables, a constant that it finds is the value that the
    machine finds. If it has a constant for every variable with a value, it finds a constant
    exactly if the machine finds this value, and finds none exactly if the machine is stuck. -/
theorem evaluate_exact (complete : e.Complete) (agrees : env.Agrees store) :
    (∃ fact, e.evaluate env = .ok fact) ∧
      (∀ v, e.evaluate env = .ok (.known v) → e.eval store = .ok v) ∧
      (env.Covers store →
        (∀ v, e.eval store = .ok v ↔ e.evaluate env = .ok (.known v)) ∧
        ((∃ f, e.eval store = .error f ∧ f.Stuck) ↔ ∃ w, e.evaluate env = .ok (.unknown w))) := by
  have total := evaluate_total complete env
  refine ⟨total, fun v => eval_of_evaluate agrees, fun covers => ?_⟩
  have same : ∀ v, e.eval store = .ok v ↔ e.evaluate env = .ok (.known v) :=
    fun v => eval_iff_evaluate ⟨agrees, covers⟩
  refine ⟨same, ?_⟩
  obtain ⟨fact, evaluated⟩ := total
  rw [evaluated] at same ⊢
  cases fact with
  | known v =>
      -- Here neither side holds: the machine has the value, and the fact is known.
      simp [(same v).mpr rfl]
  | unknown w =>
      cases value : e.eval store with
      | ok v => cases (same v).mp value
      | error f => simp [complete.stuck value]

end Expr

/-- With `x` known to be five, `x + 1` is six for both, and `x + y` is unknown to the one and stops
    the other, which has no value for `y`. -/
theorem Expr.evaluate_exact_undefined :
    let env : Env := (∅ : Env).insert (.var "x") (.known (.ofInt 5))
    let store : Store := (∅ : Store).insert "x" (.ofInt 5)
    let sum : Expr := .binary .add (.var "x") (.int 1)
    let mixed : Expr := .binary .add (.var "x") (.var "y")
    sum.Complete ∧ mixed.Complete ∧ env.Agrees store ∧ env.Covers store ∧
      sum.evaluate env = .ok (.known (.ofInt 6)) ∧ sum.eval store = .ok (.ofInt 6) ∧
      mixed.eval store = .error (.error (.undefined "y")) ∧ ∃ w, mixed.evaluate env = .ok (.unknown w) := by
  intro env store sum mixed
  have whole : sum.Complete := by decide
  have whole' : mixed.Complete := by decide
  have agrees : env.Agrees store := by
    intro x v known
    simp only [env, store, Std.ExtTreeMap.getElem?_insert] at known ⊢
    grind [Key.var_inj]
  have covers : env.Covers store := by
    intro x v here
    simp only [env, store, Std.ExtTreeMap.getElem?_insert] at here ⊢
    grind
  have value : sum.eval store = .ok (.ofInt 6) := by rfl
  have stuck : mixed.eval store = .error (.error (.undefined "y")) := by rfl
  obtain ⟨-, -, both⟩ := Expr.evaluate_exact whole agrees
  obtain ⟨-, -, both'⟩ := Expr.evaluate_exact whole' agrees
  exact ⟨whole, whole', agrees, covers, ((both covers).1 _).mp value, value, stuck,
    (both' covers).2.mp ⟨_, stuck, trivial⟩⟩

/-! ## Straight graphs -/

/-- Control leaves by one edge at most, and not upward. -/
def Instr.Straight : Instr → Prop
  | quit | assign _ _ _ | ret _ => True
  | branch _ _ _ _ | loop _ _ _ => False

def Graph.Straight (g : Graph) : Prop := ∀ id n, g.node? id = some n → n.instr.Straight

/-- Blocks, assignments and returns only, to any depth. -/
inductive Stmt.Straight : Stmt → Prop where
  | nil : Straight (.block [])
  | cons {s : Stmt} {rest : List Stmt} (first : s.Straight) (others : Straight (.block rest)) :
      Straight (.block (s :: rest))
  | assign (name : Option String) (value : Expr) : Straight (.assign name value)
  | ret (result : Expr) : Straight (.ret result)

namespace Graph.Straight

variable {g : Graph} {id p q : NodeId}

theorem empty : Graph.empty.Straight := by
  intro id n found
  cases id with
  | zero =>
      cases found
      trivial
  | succ id => simp [node?, Graph.empty] at found

theorem add (straight : g.Straight) {instr : Instr} (new : instr.Straight) : (g.add instr).2.Straight := by
  intro id n found
  rw [node?_add] at found
  split at found
  · cases found
    exact new
  · exact straight id n found

theorem assign_of_target (straight : g.Straight) (edge : q ∈ g.targets p) :
    ∃ own name value, g.node? p = some ⟨own, .assign name value q⟩ := by
  obtain ⟨⟨own, instr⟩, found⟩ := exists_node?_of_mem_targets edge
  have flat := straight p _ found
  rw [targets_eq found] at edge
  cases instr with
  | quit | ret => simp [Node.successors] at edge
  | assign name value next =>
      obtain rfl : q = next := by simpa [Node.successors] using edge
      exact ⟨own, name, value, found⟩
  | branch | loop => exact flat.elim

theorem target_lt (straight : g.Straight) (arena : g.Arena) (edge : q ∈ g.targets p) : q < p := by
  obtain ⟨_, _, _, found⟩ := straight.assign_of_target edge
  exact arena.placed found

theorem target_unique (straight : g.Straight) : Relator.RightUnique fun a b => b ∈ g.targets a := by
  intro a b c toB toC
  obtain ⟨_, _, _, found⟩ := straight.assign_of_target toB
  obtain ⟨_, _, _, found'⟩ := straight.assign_of_target toC
  cases found.symm.trans found'
  rfl

theorem path_le (straight : g.Straight) (arena : g.Arena) (path : g.Path p q) : q ≤ p := by
  induction path with
  | refl => exact Nat.le_refl p
  | tail _ edge ih => exact Nat.le_trans (Nat.le_of_lt (straight.target_lt arena edge)) ih

theorem source_unique (straight : g.Straight) (arena : g.Arena) (liveP : g.Live p) (liveQ : g.Live q)
    (fromP : id ∈ g.targets p) (fromQ : id ∈ g.targets q) : p = q := by
  have stay : ∀ {a b}, g.Path a b → id ∈ g.targets a → id ∈ g.targets b → a = b := by
    intro a b path toA toB
    cases path using Relation.ReflTransGen.head_induction_on with
    | refl => rfl
    | @head _ c edge rest =>
        -- The path leaves by the only edge, to `id`, which is below `b`.
        obtain rfl := straight.target_unique edge toA
        exact absurd (straight.target_lt arena toB) (Nat.not_lt.mpr (straight.path_le arena rest))
  rcases Relation.ReflTransGen.total_of_right_unique straight.target_unique liveP liveQ with there | back
  · exact stay there fromP fromQ
  · exact (stay back fromQ fromP).symm

theorem entry_source (straight : g.Straight) (arena : g.Arena) (live : g.Live p) : g.entry ∉ g.targets p := by
  intro edge
  exact absurd (straight.target_lt arena edge) (Nat.not_lt.mpr (straight.path_le arena live))

/-- Nothing is lost on the way to the next node, as there is nothing to merge with. -/
theorem into_next (straight : g.Straight) (arena : g.Arena) {out : OutMap} (live : g.Live p)
    (edge : id ∈ g.targets p) (k : Key) (v : Value) :
    (g.into out id)[k]? = some (.known v) ↔ (out.getD p ∅)[k]? = some (.known v) := by
  constructor
  · exact arena.into_edge live edge
  · intro known
    apply Env.merge_known.mpr
    have among : out.getD p ∅ ∈ g.incoming g.predecessors out id :=
      arena.mem_incoming.mpr (.inl ⟨p, live, edge, rfl⟩)
    refine ⟨List.ne_nil_of_mem among, ?_⟩
    intro env member
    rcases arena.mem_incoming.mp member with ⟨q, liveQ, fromQ, rfl⟩ | ⟨rfl, -⟩
    · rw [← straight.source_unique arena live liveQ edge fromQ]
      exact known
    · exact absurd edge (straight.entry_source arena live)

/-- Every step goes down, so a run has no more steps than there are nodes up to its first. -/
theorem runFrom_inTime (straight : g.Straight) (arena : g.Arena) (left steps : Nat) (store : Store)
    (actions : List Action) (below : id < left) (count : Nat) :
    (g.runFrom left steps id store actions).result ≠ .error (.error (.stepLimit count)) := by
  induction left generalizing steps id store actions with
  | zero => exact absurd below (Nat.not_lt_zero id)
  | succ left ih =>
      cases found : g.node? id with
      | none => simp [runFrom, node, found]
      | some n =>
          rcases step : n.step store with ⟨act, outcome⟩
          simp only [runFrom, node, found, step]
          cases outcome with
          | next next after =>
              obtain ⟨v, -, -, target, -⟩ := Node.step_next step
              have down : next < id := straight.target_lt arena (by rwa [targets_eq found])
              exact ih _ _ _ (Nat.lt_of_lt_of_le down (Nat.le_of_lt_succ below))
          | returned v => simp
          | failed e =>
              rintro ⟨⟩
              rcases Node.step_failed step with ⟨-, -, same⟩ | ⟨-, -, ofExpr⟩
              · cases same
              · exact ofExpr

end Graph.Straight

theorem Stmt.Forms.straight {next start : NodeId} {g g' : Graph} {s : Stmt} (forms : Forms next g s start g')
    (flat : s.Straight) (before : g.Straight) : g'.Straight := by
  induction forms with
  | nil => exact before
  | cons _ _ others first =>
      cases flat with
      | cons flatFirst flatOthers => exact first flatFirst (others flatOthers before)
  | assign | ret => exact before.add trivial
  | ifThen | ifElse | «while» => cases flat

theorem Stmt.Straight.graph {program : Stmt} (flat : program.Straight) (accepted : program.Accepted) {g : Graph}
    (formed : Graph.ofProgram program = .ok g) : g.Straight := by
  obtain ⟨g₁, g', formed', -, -, forms, same⟩ := accepted.ofProgram
  obtain rfl : g₁ = g := Except.ok.inj (formed'.symm.trans formed)
  intro id n found
  rw [same] at found
  exact forms.straight flat .empty id n found

/-! ## Runs of straight graphs -/

namespace Node

variable {n : Node} {env out : Env} {store : Store} {v : Value}

theorem transfer_tracks (tracks : env.Tracks store) (left : n.transfer env = .ok out)
    (value : n.value store = some v) :
    out.Tracks (n.after v store) ∧ ∃ k, n.key? = some k ∧ out[k]? = some (.known v) := by
  obtain ⟨e, has, evalOk⟩ := value_eq_some.mp value
  have known := Expr.evaluate_of_eval tracks evalOk
  rcases transfer_eq_ok.mp left with ⟨quit, -⟩ | ⟨k, e', fact, own, has', evaluated, rfl⟩
  · simp [expression, quit] at has
  · obtain rfl : e = e' := Option.some.inj (has.symm.trans has')
    obtain rfl : Fact.known v = fact := Except.ok.inj (known.symm.trans evaluated)
    refine ⟨⟨transfer_agrees tracks.agrees left value, ?_⟩, k, own, by simp⟩
    intro x w here
    rw [Std.ExtTreeMap.getElem?_insert]
    by_cases same : k = Key.var x
    · exact ⟨v, by simp [same]⟩
    · rw [if_neg (by simpa using same)]
      have other : ¬ n.Assigns x :=
        fun assigns => same (Option.some.inj (own.symm.trans (key_eq_var.mpr assigns)))
      rw [getElem?_after_other other] at here
      exact tracks.covers x w here

theorem step_stuck (flat : n.instr.Straight) {f : Failure} (step : (n.step store).2 = .failed f)
    (stuck : f.Stuck) : ∃ e, n.expression = some e ∧ e.eval store = .error f := by
  obtain ⟨id, instr⟩ := n
  cases instr with
  | quit =>
      cases step
      exact stuck.elim
  | assign name e next | ret e =>
      simp only [Node.step] at step
      split at step <;> cases step
      exact ⟨e, rfl, by assumption⟩
  | branch | loop => exact flat.elim

end Node

namespace Graph

variable {g : Graph} {out : OutMap} {id : NodeId} {store : Store} {ran : List (NodeId × Value)}

/-- The analysis has this value for the node's expression. -/
def Settles (g : Graph) (out : OutMap) (id : NodeId) (v : Value) : Prop :=
  g.Live id ∧ ∃ n k, g.node? id = some n ∧ n.key? = some k ∧ (out.getD id ∅)[k]? = some (.known v)

/-- Control comes to a live node, the analysis knows the variables there, and it knows all that has
    been evaluated before. -/
structure Follows (g : Graph) (out : OutMap) (id : NodeId) (store : Store)
    (ran : List (NodeId × Value)) : Prop where
  live : g.Live id
  tracks : (g.into out id).Tracks store
  settled : ∀ step ∈ ran, g.Settles out step.1 step.2

theorem Arena.follows_entry (arena : g.Arena) (out : OutMap) : g.Follows out g.entry ∅ [] where
  live := .entry g
  tracks :=
    { agrees := fun _ _ known => absurd known arena.into_entry
      covers := by simp [Env.Covers] }
  settled := by simp

namespace Analysed

theorem leaves_tracks (analysed : g.Analysed out) (follows : g.Follows out id store ran) {n : Node} {v : Value}
    (found : g.node? id = some n) (value : n.value store = some v) :
    (out.getD id ∅).Tracks (n.after v store) ∧ ∀ step ∈ (id, v) :: ran, g.Settles out step.1 step.2 := by
  obtain ⟨tracks, k, own, known⟩ :=
    Node.transfer_tracks follows.tracks (analysed.transfer_eq follows.live found) value
  refine ⟨tracks, List.forall_mem_cons.mpr ⟨?_, follows.settled⟩⟩
  exact ⟨follows.live, n, k, found, own, known⟩

theorem follows_invariant (analysed : g.Analysed out) (straight : g.Straight) : g.Invariant (g.Follows out) := by
  intro id next n v store ran follows found value edge
  obtain ⟨tracks, settled⟩ := analysed.leaves_tracks follows found value
  exact
    { live := follows.live.edge edge
      tracks := tracks.congr (straight.into_next analysed.arena follows.live edge)
      settled := settled }

end Analysed

theorem FoldOnce.node_settled {f : Graph} {a : Analysis} {origin copy : NodeId → NodeId}
    (once : f.FoldOnce a g origin copy) (analysed : g.Analysed a.out) {v : Value}
    (settles : g.Settles a.out id v) :
    ∃ n, g.node? id = some n ∧
      f.node? (copy id) = some ⟨copy id, (n.instr.withExpr (.const v)).relabel copy⟩ := by
  obtain ⟨live, n, k, found, own, known⟩ := settles
  refine ⟨n, found, ?_⟩
  rw [once.node_copy live.stands found, analysed.foldedInstr_known live found own known]

theorem FoldOnce.node_stuck {f : Graph} {a : Analysis} {origin copy : NodeId → NodeId}
    (once : f.FoldOnce a g origin copy) (analysed : g.Analysed a.out) (follows : g.Follows a.out id store ran)
    {n : Node} (found : g.node? id = some n) {e : Expr} (has : n.expression = some e) {failure : Failure}
    (failed : e.eval store = .error failure) :
    f.node? (copy id) = some ⟨copy id, n.instr.relabel copy⟩ := by
  rw [once.node_copy follows.live.stands found, analysed.foldedInstr_same found]
  intro k v live own known
  obtain ⟨fact, -, entry, evaluated⟩ := analysed.factAt_live live found own has
  obtain rfl : fact = .known v := Option.some.inj (entry.symm.trans known)
  have value := Expr.eval_of_evaluate follows.tracks.agrees evaluated
  cases failed.symm.trans value

end Graph

/-- A program of blocks, assignments and returns is folded completely, if it can be analysed, as it
    can if all literals are there. Run from no variables, it needs no more steps than its graph has
    nodes. Whatever the limit, the copy of each node whose
    expression the machine has evaluated has the value in its place, and the copy of the node at
    which the machine is stuck has the node's own expression. -/
theorem Graph.straight_folded {program : Stmt} {inputs : List String} {report : Report}
    (checked : check program inputs = .ok report) (clean : report.errors = [])
    (flat : program.Straight) (earlier : Analysis) :
    ∃ g, Graph.ofProgram program = .ok g ∧ (none ∉ program.literals → ∃ a, earlier.run g = (a, none)) ∧
      (∀ limit count, (g.size : Int) ≤ limit → (g.run limit ∅).result ≠ .error (.error (.stepLimit count))) ∧
      ∀ a, earlier.run g = (a, none) → ∃ f copy, a.rebuild g = .ok f ∧
        Set.BijOn copy { id | g.Stands id } { x | x < f.size } ∧ copy g.entry = f.entry ∧
        ∀ limit,
          (∀ p ∈ g.points limit ∅, ∀ id v, (id, v) ∈ p.ran → ∃ n, g.node? id = some n ∧
            f.node? (copy id) = some ⟨copy id, (n.instr.withExpr (.const v)).relabel copy⟩) ∧
          ∀ e, (g.run limit ∅).result = .error e → e.Stuck → ∃ n, g.node? (g.haltsAt limit ∅) = some n ∧
            f.node? (copy (g.haltsAt limit ∅)) = some ⟨copy (g.haltsAt limit ∅), n.instr.relabel copy⟩ := by
  obtain ⟨-, rfl⟩ := check_eq_ok.mp checked
  have accepted := Stmt.accepted_of_report clean
  obtain ⟨g, formed, built, -, runs, copies⟩ := Graph.foldOnce_of_report clean earlier
  have straight := flat.graph accepted formed
  refine ⟨g, formed, runs, ?_, fun a run => ?_⟩
  · intro limit count enough
    apply straight.runFrom_inTime built.arena
    exact Nat.lt_of_lt_of_le built.arena.entry_lt (by omega)
  obtain ⟨-, analysed, f, origin, copy, rebuilt, once⟩ := copies a run
  have kept := analysed.follows_invariant straight
  have start := analysed.arena.follows_entry a.out
  refine ⟨f, copy, rebuilt, once.bijOn, once.copy_entry, fun limit => ⟨?_, ?_⟩⟩
  · intro p member id v evaluated
    obtain ⟨m, store, ran, n, w, follows, found, value, rfl⟩ := kept.pointsFrom limit.toNat start p member
    have settled := (analysed.leaves_tracks follows found value).2
    exact once.node_settled analysed (settled _ evaluated)
  · intro e result stuck
    cases e with
    | fault => exact stuck.elim
    | error e =>
        obtain ⟨store, ran, n, follows, found, step⟩ := kept.haltFrom limit.toNat 0 [] start result (by
          rintro count rfl
          exact stuck)
        obtain ⟨expr, has, failed⟩ := Node.step_stuck (straight _ n found) step stuck
        exact ⟨n, found, once.node_stuck analysed follows found has failed⟩

/-- A sum of constants in an inner block, and then a sum with a variable that has no value. -/
def Stmt.openSum : Stmt :=
  .block
    [.set "x" (.int 1),
      .block [.set "y" (.binary .add (.var "x") (.int 2))],
      .set "z" (.binary .add (.var "y") (.var "u")),
      .ret (.var "z")]

def Graph.openSum : Graph where
  nodes :=
    #[⟨0, .quit⟩, ⟨1, .ret (.var "z")⟩, ⟨2, .assign "z" (.binary .add (.var "y") (.var "u")) 1⟩,
      ⟨3, .assign "y" (.binary .add (.var "x") (.int 2)) 2⟩, ⟨4, .assign "x" (.int 1) 3⟩]
  entry := 4

theorem Graph.straight_folded_openSum :
    (∃ report, check Stmt.openSum [] = .ok report ∧ report.errors = []) ∧ none ∉ Stmt.openSum.literals ∧
      Stmt.openSum.Straight ∧
      Graph.ofProgram Stmt.openSum = .ok .openSum ∧ Graph.openSum.haltsAt 100 ∅ = 2 ∧
      (Graph.openSum.run 100 ∅).result = .error (.error (.undefined "u")) ∧
      ∃ a f copy, Analysis.new.run .openSum = (a, none) ∧ a.rebuild .openSum = .ok f ∧
        Set.BijOn copy { id | Graph.openSum.Stands id } { x | x < f.size } ∧
        f.node? (copy 3) = some ⟨copy 3, .assign "y" (.int 3) (copy 2)⟩ ∧
        f.node? (copy 2) = some ⟨copy 2, .assign "z" (.binary .add (.var "y") (.var "u")) (copy 1)⟩ := by
  have checked : check Stmt.openSum [] = .ok (findings Stmt.openSum []) := by rfl
  have clean : (findings Stmt.openSum []).errors = [] := by decide
  have there : none ∉ Stmt.openSum.literals := by decide
  have flat : Stmt.openSum.Straight :=
    .cons (.assign _ _) (.cons (.cons (.assign _ _) .nil) (.cons (.assign _ _) (.cons (.ret _) .nil)))
  have formed : Graph.ofProgram Stmt.openSum = .ok .openSum := by rfl
  have result : (Graph.openSum.run 100 ∅).result = .error (.error (.undefined "u")) := by rfl
  have halts : Graph.openSum.haltsAt 100 ∅ = 2 := by decide
  have passed : ∃ p ∈ Graph.openSum.points 100 ∅, (3, Value.ofInt 3) ∈ p.ran := by decide
  obtain ⟨g, formed', runs, -, copies⟩ := Graph.straight_folded checked clean flat .new
  obtain rfl : Graph.openSum = g := Except.ok.inj (formed.symm.trans formed')
  obtain ⟨a, run⟩ := runs there
  obtain ⟨f, copy, rebuilt, bij, -, folded⟩ := copies a run
  obtain ⟨evaluated, stuck⟩ := folded 100
  obtain ⟨p, member, ran⟩ := passed
  obtain ⟨n, found, sum⟩ := evaluated p member 3 _ ran
  obtain ⟨n', found', kept⟩ := stuck _ result trivial
  rw [halts] at found' kept
  cases found
  cases found'
  exact ⟨⟨_, checked, clean⟩, there, flat, formed, halts, result, a, f, copy, run, rebuilt, bij, sum, kept⟩

end FlowFold
