import FlowFold.Proofs.Equations
import FlowFold.Proofs.Points

/-! # Well-formed programs

An expression is well formed if it has no holes, its operators have a meaning and its
literals are integers or booleans. Such an expression has a text, and evaluating it can
fail in two ways only: a variable has no value, or operands are of the wrong kinds. What
the analysis finds about it is an integer or a boolean again.
-/

namespace FlowFold

/-- A value of one of the two kinds of the language. -/
def Value.Valid (v : Value) : Prop := v.kind = .int ∨ v.kind = .bool

instance (v : Value) : Decidable v.Valid := inferInstanceAs (Decidable (_ ∨ _))

theorem Value.Valid.text {v : Value} (valid : v.Valid) : ∃ text, v.text = .ok text := by
  rcases valid with kind | kind
  · exact ⟨_, by rw [Value.text, kind]⟩
  · exact ⟨_, by rw [Value.text, kind]⟩

theorem Value.valid_onInts {op : Int32 → Int32 → Value} (valid : ∀ m n, (op m n).Valid) {a b v : Value}
    (result : onInts op a b = some v) : v.Valid := by
  unfold onInts at result
  split at result
  · cases result
    exact valid _ _
  · cases result

theorem BinOp.valid_of_foldOp {op : BinOp} {f : Value → Value → Option Value} {a b v : Value}
    (meaning : op.foldOp = .ok f) (result : f a b = some v) : v.Valid := by
  cases op with
  | unknown code => cases meaning
  | add | sub | mul =>
      cases meaning
      exact Value.valid_onInts (fun _ _ => .inl rfl) result
  | lt =>
      cases meaning
      exact Value.valid_onInts (fun _ _ => .inr rfl) result
  | eq =>
      cases meaning
      unfold Value.eq? at result
      split at result <;> cases result
      exact .inr rfl
  | ne =>
      cases meaning
      obtain ⟨same, -, rfl⟩ := Option.map_eq_some_iff.mp result
      exact .inr rfl

/-- An expression without holes, whose operators have a meaning and whose literals are
    valid. -/
def Expr.WellFormed : Expr → Prop
  | .const v => v.Valid
  | .var _ => True
  | .binary op left right => op.isKnown = true ∧ left.WellFormed ∧ right.WellFormed
  | .missing | .hollow _ | .foreign _ => False

namespace Expr

instance decideWellFormed : (e : Expr) → Decidable e.WellFormed
  | .const v => inferInstanceAs (Decidable v.Valid)
  | .var _ => .isTrue trivial
  | .binary op left right =>
      have := decideWellFormed left
      have := decideWellFormed right
      inferInstanceAs (Decidable (op.isKnown = true ∧ left.WellFormed ∧ right.WellFormed))
  | .missing | .hollow _ | .foreign _ => .isFalse id

/-- Evaluating fails only by a variable without a value or by operands of wrong kinds. -/
theorem Complete.eval_failed {e : Expr} {store : Store} (complete : e.Complete) {f : Failure}
    (failed : e.eval store = .error f) :
    (∃ name, f = .error (.undefined name)) ∨ ∃ l op r, f = .error (.mismatch l op r) := by
  induction e with
  | const v => cases failed
  | var name =>
      simp only [eval] at failed
      split at failed <;> cases failed
      exact .inl ⟨name, rfl⟩
  | binary op left right ihl ihr =>
      rcases eval_binary_failed failed with ⟨fault, no, -⟩ | left | right | ⟨l, r, rfl⟩
      · obtain ⟨m, meaning⟩ := exists_foldOp complete.1
        rw [op.runOp_eq_foldOp, meaning] at no
        cases no
      · exact ihl complete.2.1 left
      · exact ihr complete.2.2 right
      · exact .inr ⟨l, op, r, rfl⟩
  | missing | hollow | foreign => exact complete.elim

namespace WellFormed

variable {e : Expr} {store : Store}

theorem complete (wf : e.WellFormed) : e.Complete := by
  induction e with
  | const | var => trivial
  | binary op left right ihl ihr => exact ⟨wf.1, ihl wf.2.1, ihr wf.2.2⟩
  | missing | hollow | foreign => exact wf

theorem flatText (wf : e.WellFormed) : ∃ text, e.flatText = .ok text := by
  induction e with
  | const v => exact Value.Valid.text wf
  | var name => exact ⟨name, rfl⟩
  | binary op left right ihl ihr =>
      obtain ⟨l, leftText⟩ := ihl wf.2.1
      obtain ⟨r, rightText⟩ := ihr wf.2.2
      exact ⟨_, by rw [Expr.flatText, leftText, rightText]; rfl⟩
  | missing | hollow | foreign => exact wf.elim

theorem eval_failed (wf : e.WellFormed) {f : Failure} (failed : e.eval store = .error f) :
    (∃ name, f = .error (.undefined name)) ∨ ∃ l op r, f = .error (.mismatch l op r) :=
  wf.complete.eval_failed failed

theorem evaluate_valid (wf : e.WellFormed) {env : Env} {v : Value}
    (valid : ∀ (k : Key) (w : Value), env[k]? = some (.known w) → w.Valid)
    (known : e.evaluate env = .ok (.known v)) : v.Valid := by
  cases e with
  | const w =>
      cases known
      exact wf
  | var name =>
      have fact : env.get (.var name) = .known v := by simpa [evaluate] using known
      exact valid _ _ (Env.get_eq_known.mp fact)
  | binary op left right =>
      obtain ⟨f, a, b, meaning, -, -, result⟩ := evaluate_binary_known.mp known
      exact BinOp.valid_of_foldOp meaning result
  | missing | hollow | foreign => exact wf.elim

end WellFormed

end Expr

def Node.WellFormed (n : Node) : Prop := ∀ e, n.expression = some e → e.WellFormed

instance (n : Node) : Decidable n.WellFormed :=
  decidable_of_iff (∀ e ∈ n.expression, e.WellFormed) Iff.rfl

theorem Node.WellFormed.step_failed {n : Node} (wf : n.WellFormed) {store : Store}
    {act : Option Action} {e : Failure} (step : n.step store = (act, .failed e)) (fault : Fault) :
    e ≠ .fault fault := by
  have plain : ∀ {expr : Expr}, expr.WellFormed → expr.eval store = .error e → e ≠ .fault fault := by
    intro expr wf failed
    rcases wf.eval_failed failed with ⟨name, rfl⟩ | ⟨l, op, r, rfl⟩ <;> simp
  obtain ⟨id, instr⟩ := n
  cases instr with
  | quit =>
      cases step
      simp
  | assign | ret =>
      simp only [Node.step] at step
      split at step <;> cases step
      rename_i failed
      exact plain (wf _ rfl) failed
  | branch cond | loop cond =>
      simp only [Node.step] at step
      split at step <;> cases step
      rename_i failed
      obtain ⟨text, flat⟩ := (wf _ rfl).flatText
      rw [Expr.test_of_flatText flat] at failed
      split at failed
      · rename_i value
        cases failed
        exact plain (wf _ rfl) value
      · split at failed <;> cases failed
        simp

namespace Graph

/-- Every live node has a well-formed expression, if it has one at all. -/
def WellFormed (g : Graph) : Prop := ∀ id n, g.Live id → g.node? id = some n → n.WellFormed

variable {g : Graph}

theorem WellFormed.complete (wf : g.WellFormed) : g.Complete :=
  fun id n live found e has => (wf id n live found e has).complete

theorem Arena.runFrom_no_fault (arena : g.Arena) (wf : g.WellFormed) (left steps : Nat) {id : NodeId}
    (live : g.Live id) (store : Store) (actions : List Action) (fault : Fault) :
    (g.runFrom left steps id store actions).result ≠ .error (.fault fault) := by
  induction left generalizing steps id store actions with
  | zero => simp [runFrom]
  | succ left ih =>
      obtain ⟨instr, found⟩ := arena.live_node live
      rcases step : Node.step ⟨id, instr⟩ store with ⟨act, outcome⟩
      simp only [runFrom, node_eq_ok.mpr found, step]
      cases outcome with
      | next next after =>
          obtain ⟨v, -, -, target, -⟩ := Node.step_next step
          exact ih (steps + 1) (live.edge (by rwa [targets_eq found])) after _
      | returned v => simp
      | failed e => simpa using (wf id _ live found).step_failed step fault

theorem Arena.run_no_fault (arena : g.Arena) (wf : g.WellFormed) (limit : Int) (store : Store)
    (fault : Fault) : (g.run limit store).result ≠ .error (.fault fault) :=
  arena.runFrom_no_fault wf _ _ (.entry g) store [] fault

end Graph

end FlowFold
