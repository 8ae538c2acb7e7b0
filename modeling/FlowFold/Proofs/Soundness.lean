import FlowFold.Proofs.LeastSolution
import FlowFold.Proofs.Points

/-! # The analysis is right about every run

An environment is right about a point of a run if each constant it has under a variable
is the variable's value, and each constant it has under a node is the value that the
node's expression had when it was last run. Leaving a node keeps this, and so does going
on to a target, because a merge knows only what is known on every way in. At the entry
nothing is known, since one of the ways in is from outside.
-/

namespace FlowFold

namespace Env

variable {env : Env} {store : Store}

/-- Every constant under a variable is the value of the variable. -/
def Agrees (env : Env) (store : Store) : Prop :=
  ∀ (x : String) (v : Value), env[Key.var x]? = some (.known v) → store[x]? = some v

/-- Every constant under a node is the value its expression had when it was last run. -/
def Recalls (env : Env) (ran : List (NodeId × Value)) : Prop :=
  ∀ (m : NodeId) (v : Value), env[Key.expr m]? = some (.known v) → ran.lookup m = some v

end Env

namespace Key

theorem var_inj {x y : String} : var x = var y ↔ x = y := by simp [var]

theorem expr_inj {a b : NodeId} : expr a = expr b ↔ a = b := by simp [expr]

theorem var_ne_expr (x : String) (id : NodeId) : var x ≠ expr id := by simp [var, expr]

end Key

theorem Expr.eval_of_evaluate {env : Env} {store : Store} (agrees : env.Agrees store) {e : Expr}
    {v : Value} (known : e.evaluate env = .ok (.known v)) : e.eval store = .ok v := by
  induction e generalizing v with
  | const w =>
      cases known
      rfl
  | var name =>
      have fact : env.get (.var name) = .known v := by simpa [evaluate] using known
      rw [eval, agrees name v (Env.get_eq_known.mp fact)]
  | binary op left right ihl ihr =>
      obtain ⟨f, a, b, meaning, leftOk, rightOk, result⟩ := evaluate_binary_known.mp known
      exact eval_binary.mpr
        ⟨f, a, b, op.runOp_eq_foldOp.trans meaning, ihl leftOk, ihr rightOk, result⟩
  | missing | hollow | foreign => cases known

namespace Node

variable {n : Node} {env out : Env} {store : Store} {v : Value} {ran : List (NodeId × Value)}

theorem key_cases {k : Key} (hasKey : n.key? = some k) : (∃ x, k = .var x) ∨ k = .expr n.id := by
  obtain ⟨id, instr⟩ := n
  cases instr with
  | quit => cases hasKey
  | assign name => exact .inl ⟨name, (Option.some.inj hasKey).symm⟩
  | ret | branch | loop => exact .inr (Option.some.inj hasKey).symm

theorem id_of_key {m : NodeId} (hasKey : n.key? = some (.expr m)) : m = n.id := by
  rcases key_cases hasKey with ⟨x, same⟩ | same
  · exact absurd same.symm (Key.var_ne_expr x m)
  · exact Key.expr_inj.mp same

theorem known_of_value (agrees : env.Agrees store) (value : n.value store = some v) {e : Expr}
    {w : Value} (has : n.expression = some e) (known : e.evaluate env = .ok (.known w)) : w = v := by
  obtain ⟨e', has', evalOk⟩ := value_eq_some.mp value
  obtain rfl : e' = e := by simpa [has] using has'.symm
  rw [Expr.eval_of_evaluate agrees known] at evalOk
  cases evalOk
  rfl

theorem transfer_agrees (agrees : env.Agrees store) (left : n.transfer env = .ok out)
    (value : n.value store = some v) : out.Agrees (n.after v store) := by
  rcases transfer_eq_ok.mp left with ⟨quit, rfl⟩ | ⟨k, e, fact, hasKey, has, known, rfl⟩
  · simp [Node.value, expression, quit] at value
  · intro x w here
    obtain ⟨id, instr⟩ := n
    cases instr with
    | quit => cases hasKey
    | assign name e' next =>
        cases hasKey
        rw [Std.ExtTreeMap.getElem?_insert] at here
        rw [after, Std.ExtTreeMap.getElem?_insert]
        by_cases same : name = x
        · subst same
          obtain rfl : fact = .known w := by simpa using here
          simpa using (known_of_value agrees value has known).symm
        · rw [if_neg (by simpa [Key.var_inj] using same)] at here
          rw [if_neg (by simpa using same)]
          exact agrees x w here
    | ret | branch | loop =>
        cases hasKey
        rw [Std.ExtTreeMap.getElem?_insert, if_neg (by simp [(Key.var_ne_expr _ _).symm])] at here
        exact agrees x w here

/-- The node's own key must not stand for an assignment, or else it would not be updated. -/
theorem transfer_recalls (agrees : env.Agrees store) (recalls : env.Recalls ran)
    (own : Key.expr n.id ∈ env → n.key? = some (.expr n.id)) (left : n.transfer env = .ok out)
    (value : n.value store = some v) : out.Recalls ((n.id, v) :: ran) := by
  rcases transfer_eq_ok.mp left with ⟨quit, rfl⟩ | ⟨k, e, fact, hasKey, has, known, rfl⟩
  · simp [Node.value, expression, quit] at value
  · intro m w here
    rw [Std.ExtTreeMap.getElem?_insert] at here
    by_cases same : k = Key.expr m
    · subst same
      obtain rfl := id_of_key hasKey
      obtain rfl : fact = .known w := by simpa using here
      simp [known_of_value agrees value has known]
    · rw [if_neg (by simpa using same)] at here
      have different : m ≠ n.id := by
        rintro rfl
        have mine := own (mem_iff_entry.mpr ⟨_, here⟩)
        exact same (Option.some.inj (hasKey.symm.trans mine))
      rw [List.lookup_cons, beq_false_of_ne different]
      exact recalls m w here

end Node

namespace Graph

variable {g : Graph} {out : OutMap} {id next : NodeId} {store : Store} {ran : List (NodeId × Value)}

def into (g : Graph) (out : OutMap) (id : NodeId) : Env :=
  Env.merge (g.incoming g.predecessors out id)

theorem Arena.into_entry (arena : g.Arena) {k : Key} {v : Value} :
    (g.into out g.entry)[k]? ≠ some (.known v) := by
  intro known
  have all := (Env.merge_known.mp known).2 ∅ (arena.mem_incoming.mpr (.inr ⟨rfl, rfl⟩))
  simp at all

/-- What is known on the way into a node is known when control leaves a node before it. -/
theorem Arena.into_edge (arena : g.Arena) (live : g.Live id) (edge : next ∈ g.targets id) {k : Key}
    {v : Value} (known : (g.into out next)[k]? = some (.known v)) :
    (out.getD id ∅)[k]? = some (.known v) :=
  (Env.merge_known.mp known).2 _ (arena.mem_incoming.mpr (.inl ⟨id, live, edge, rfl⟩))

/-- Control comes to a live node, and the analysis is right about the point before it. -/
structure Arrives (g : Graph) (out : OutMap) (id : NodeId) (store : Store)
    (ran : List (NodeId × Value)) : Prop where
  live : g.Live id
  agrees : (g.into out id).Agrees store
  recalls : (g.into out id).Recalls ran

theorem Arena.arrives_entry (arena : g.Arena) (out : OutMap) (store : Store) :
    g.Arrives out g.entry store [] where
  live := .entry g
  agrees := fun _ _ known => absurd known arena.into_entry
  recalls := fun _ _ known => absurd known arena.into_entry

namespace Analysed

variable {n : Node} {v : Value}

theorem transfer_eq (analysed : g.Analysed out) (live : g.Live id) (found : g.node? id = some n) :
    n.transfer (g.into out id) = .ok (out.getD id ∅) := by
  obtain ⟨n', found', left⟩ := leaving_eq_ok.mp (analysed.solution.leaving live)
  obtain rfl : n' = n := by simpa [found] using found'.symm
  exact left

theorem own_key (analysed : g.Analysed out) (found : g.node? id = some n)
    (member : Key.expr id ∈ g.into out id) : n.key? = some (.expr id) := by
  obtain ⟨env, among, inEnv⟩ := Env.mem_merge.mp member
  rcases analysed.arena.mem_incoming.mp among with ⟨p, -, -, rfl⟩ | ⟨-, rfl⟩
  · obtain ⟨other, n', -, found', hasKey⟩ := analysed.records p _ inEnv
    rw [← analysed.arena.id_eq found', ← Node.id_of_key hasKey, found] at found'
    rwa [Option.some.inj found']
  · exact absurd inEnv Std.ExtTreeMap.not_mem_empty

/-- The analysis is right about the point after a node if it is before it. -/
theorem leaves (analysed : g.Analysed out) (arrives : g.Arrives out id store ran)
    (found : g.node? id = some n) (value : n.value store = some v) :
    (out.getD id ∅).Agrees (n.after v store) ∧ (out.getD id ∅).Recalls ((id, v) :: ran) := by
  have left := analysed.transfer_eq arrives.live found
  have same : n.id = id := analysed.arena.id_eq found
  refine ⟨Node.transfer_agrees arrives.agrees left value, ?_⟩
  have recalls := Node.transfer_recalls arrives.agrees arrives.recalls
    (fun member => by rw [same] at member ⊢; exact analysed.own_key found member) left value
  rwa [same] at recalls

theorem arrives_invariant (analysed : g.Analysed out) : g.Invariant (g.Arrives out) := by
  intro id next n v store ran arrives found value edge
  obtain ⟨agrees, recalls⟩ := analysed.leaves arrives found value
  exact
    { live := arrives.live.edge edge
      agrees := fun x w known => agrees x w (analysed.arena.into_edge arrives.live edge known)
      recalls := fun m w known => recalls m w (analysed.arena.into_edge arrives.live edge known) }

theorem pointsFrom_sound (analysed : g.Analysed out) (left : Nat)
    (arrives : g.Arrives out id store ran) :
    ∀ p ∈ g.pointsFrom left id store ran, ∃ m v rest, p.ran = (m, v) :: rest ∧ g.Live m ∧
      (out.getD m ∅).Agrees p.store ∧ (out.getD m ∅).Recalls p.ran := by
  intro p member
  obtain ⟨m, before, ran, n, v, arrived, found, value, rfl⟩ :=
    analysed.arrives_invariant.pointsFrom left arrives p member
  exact ⟨m, v, ran, rfl, arrived.live, analysed.leaves arrived found value⟩

end Analysed

end Graph

/-- After every node that a run has executed, each constant that the analysis has for this
    point is there: the variable has this value, or the node has been run and its
    expression had this value the last time. -/
theorem Analysis.known_at_points {g : Graph} (built : g.Built) (complete : g.Complete)
    (earlier : Analysis) :
    ∃ a, earlier.run g = (a, none) ∧ ∀ limit store, ∀ p ∈ g.points limit store,
      ∃ id v rest env, p.ran = (id, v) :: rest ∧ a.outAt id = .ok (some env) ∧
        ∀ (k : Key) (w : Value), env[k]? = some (.known w) →
          (∃ x, k = .var x ∧ p.store[x]? = some w) ∨ (∃ m, k = .expr m ∧ p.ran.lookup m = some w) := by
  obtain ⟨a, run, hasRun, analysed⟩ := Analysis.run_analysed built.arena complete earlier
  refine ⟨a, run, fun limit store p member => ?_⟩
  obtain ⟨id, v, rest, ran, live, agrees, recalls⟩ := analysed.pointsFrom_sound limit.toNat
    (analysed.arena.arrives_entry a.out store) p member
  refine ⟨id, v, rest, _, ran, analysed.outAt hasRun live, ?_⟩
  intro k w known
  obtain ⟨_, n, -, -, hasKey⟩ := analysed.records id k (mem_iff_entry.mpr ⟨_, known⟩)
  rcases Node.key_cases hasKey with ⟨x, rfl⟩ | rfl
  · exact .inl ⟨x, rfl, agrees x w known⟩
  · exact .inr ⟨n.id, rfl, recalls n.id w known⟩

/-- Ten nodes are run from `x = 0`: three times round the loop, and the return. -/
theorem Analysis.known_at_points_enteredInBody :
    let g := Graph.build Graph.enteredInBody
    let store : Store := (∅ : Store).insert "x" (.ofInt 0)
    g.Built ∧ g.Complete ∧ (g.points 100 store).length = 10 ∧
      ∃ a, Analysis.new.run g = (a, none) ∧ ∀ p ∈ g.points 100 store,
        ∃ id v rest env, p.ran = (id, v) :: rest ∧ a.outAt id = .ok (some env) ∧
          ∀ (k : Key) (w : Value), env[k]? = some (.known w) →
            (∃ x, k = .var x ∧ p.store[x]? = some w) ∨
              (∃ m, k = .expr m ∧ p.ran.lookup m = some w) := by
  intro g store
  have built : g.Built := ⟨_, rfl⟩
  have complete : g.Complete := Graph.forall_live (by decide)
  obtain ⟨a, run, sound⟩ := Analysis.known_at_points built complete .new
  exact ⟨built, complete, by decide, a, run, sound 100 store⟩

end FlowFold
