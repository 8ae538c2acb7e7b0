import Mathlib.Data.List.Basic
import FlowFold.Analysis.Env
import FlowFold.Machine
import FlowFold.Proofs.Arena

/-! # The points of a run

A run passes a point just after each node that it has executed successfully. At a point
there are the nodes that have been run so far, each with the value its expression had,
and the variables. The points of a run account for all of it: its actions are those of
the points, in order, its variables at the end are those of the last point, and its
steps are the points and the step that failed, if one did.
-/

namespace FlowFold

/-- A failure of an expression, and not of the program as a whole. -/
def Failure.OfExpr : Failure → Prop
  | .error .noReturn | .error (.stepLimit _) => False
  | _ => True

/-- The analysis and the machine compute the same for each operator. -/
theorem BinOp.runOp_eq_foldOp (op : BinOp) : op.runOp = op.foldOp := by
  cases op <;> rfl

namespace Expr

variable {store : Store}

theorem eval_binary_failed {op : BinOp} {left right : Expr} {f : Failure}
    (failed : (binary op left right).eval store = .error f) :
    (∃ fault, op.runOp = .error fault ∧ f = .fault fault) ∨ left.eval store = .error f ∨
      right.eval store = .error f ∨ ∃ l r, f = .error (.mismatch l op r) := by
  rw [eval] at failed
  cases meaning : op.runOp with
  | error fault =>
      simp only [meaning, Except.error.injEq] at failed
      exact .inl ⟨fault, rfl, failed.symm⟩
  | ok m =>
      refine .inr ?_
      cases leftEq : left.eval store with
      | error f' =>
          simp only [meaning, leftEq, bind, Except.bind, Except.error.injEq] at failed
          exact .inl (by rw [failed])
      | ok l =>
          cases rightEq : right.eval store with
          | error f' =>
              simp only [meaning, leftEq, rightEq, bind, Except.bind, Except.error.injEq] at failed
              exact .inr (.inl (by rw [failed]))
          | ok r =>
              simp only [meaning, leftEq, rightEq, bind, Except.bind] at failed
              split at failed <;> cases failed
              exact .inr (.inr ⟨l.kind, r.kind, rfl⟩)

theorem eval_failed {e : Expr} {f : Failure} (failed : e.eval store = .error f) : f.OfExpr := by
  induction e with
  | const v => cases failed
  | var name =>
      simp only [eval] at failed
      split at failed <;> cases failed
      trivial
  | binary op left right ihl ihr =>
      rcases eval_binary_failed failed with ⟨fault, -, rfl⟩ | left | right | ⟨l, r, rfl⟩
      · trivial
      · exact ihl left
      · exact ihr right
      · trivial
  | missing | hollow | foreign =>
      cases failed
      trivial

theorem eval_binary {op : BinOp} {left right : Expr} {v : Value} :
    (binary op left right).eval store = .ok v ↔
      ∃ f a b, op.runOp = .ok f ∧ left.eval store = .ok a ∧ right.eval store = .ok b ∧
        f a b = some v := by
  rw [eval]
  cases op.runOp with
  | error fault => simp
  | ok f =>
      simp only [except_bind_eq_ok, Except.ok.injEq, exists_and_left, exists_eq_left']
      constructor
      · rintro ⟨a, leftOk, b, rightOk, same⟩
        refine ⟨a, leftOk, b, rightOk, ?_⟩
        cases result : f a b with
        | none => simp [result, throw, throwThe, MonadExceptOf.throw] at same
        | some w => simpa [result, pure, Except.pure] using same
      · rintro ⟨a, leftOk, b, rightOk, result⟩
        exact ⟨a, leftOk, b, rightOk, by rw [result]; rfl⟩

theorem test_of_flatText {e : Expr} {text : String} (flat : e.flatText = .ok text) :
    e.test store = match e.eval store with
      | .error f => .error f
      | .ok v => if v.kind = .bool then .ok (v.flag, text) else .error (.error (.notBool text)) := by
  unfold test
  rw [flat]
  cases e.eval store <;> rfl

theorem test_eq_ok {e : Expr} {holds : Bool} {text : String} :
    e.test store = .ok (holds, text) ↔
      ∃ v, e.eval store = .ok v ∧ e.flatText = .ok text ∧ v.kind = .bool ∧ v.flag = holds := by
  cases flat : e.flatText with
  | error f =>
      unfold test
      rw [flat]
      cases e.eval store <;> simp [Except.mapError, bind, Except.bind]
  | ok t =>
      rw [test_of_flatText flat]
      cases e.eval store with
      | error f => simp
      | ok v =>
          by_cases bool : v.kind = .bool
          · simp [bool, and_comm]
          · simp [bool]

theorem test_failed {e : Expr} {f : Failure} (failed : e.test store = .error f) : f.OfExpr := by
  cases value : e.eval store with
  | error f' =>
      simp only [test, value, bind, Except.bind, Except.error.injEq] at failed
      exact eval_failed (failed ▸ value)
  | ok v =>
      cases flat : e.flatText with
      | error f' =>
          simp only [test, value, flat, Except.mapError, bind, Except.bind] at failed
          cases failed
          trivial
      | ok text =>
          rw [test_of_flatText flat, value] at failed
          simp only at failed
          split at failed <;> cases failed
          trivial

end Expr

namespace Node

def value (n : Node) (store : Store) : Option Value :=
  n.expression.bind fun e => (e.eval store).toOption

theorem value_eq_some {n : Node} {store : Store} {v : Value} :
    n.value store = some v ↔ ∃ e, n.expression = some e ∧ e.eval store = .ok v := by
  simp only [value, Option.bind_eq_some_iff]
  refine exists_congr fun e => and_congr_right fun _ => ?_
  cases e.eval store <;> simp [Except.toOption]

/-- The variables after a node whose expression had a value. -/
def after (n : Node) (v : Value) (store : Store) : Store :=
  match n.instr with
  | .assign name _ _ => store.insert name v
  | _ => store

/-- What a machine does in a step on a node whose expression has a value. -/
def action (n : Node) (v : Value) : Option Action :=
  match n.instr with
  | .assign name _ _ => some (.assign name v)
  | .branch cond _ _ _ => cond.flatText.toOption.map (.branch · v.flag)
  | .loop cond _ _ => cond.flatText.toOption.map (.loop · v.flag)
  | .ret _ => some (.ret v)
  | .quit => none

variable {n : Node} {store store' : Store} {next : NodeId} {act : Option Action}

/-- A step that goes on has given the node's expression a value, and goes to a target. -/
theorem step_next (step : n.step store = (act, .next next store')) :
    ∃ v, n.value store = some v ∧ act = n.action v ∧ next ∈ n.successors.map (·.target) ∧
      store' = n.after v store := by
  obtain ⟨id, instr⟩ := n
  cases instr with
  | quit => cases step
  | assign name e following =>
      simp only [Node.step] at step
      split at step
      · cases step
      · rename_i v value
        cases step
        exact ⟨v, value_eq_some.mpr ⟨e, rfl, value⟩, rfl, List.mem_singleton_self _, rfl⟩
  | ret e =>
      simp only [Node.step] at step
      split at step <;> cases step
  | branch e | loop e =>
      simp only [Node.step] at step
      split at step
      · cases step
      · rename_i holds text tested
        obtain ⟨v, value, flat, -, rfl⟩ := Expr.test_eq_ok.mp tested
        cases step
        refine ⟨v, value_eq_some.mpr ⟨e, rfl, value⟩, by simp [action, flat, Except.toOption], ?_, rfl⟩
        cases v.flag <;> simp [successors]

theorem step_returned {v : Value} (step : n.step store = (act, .returned v)) :
    n.value store = some v ∧ act = n.action v ∧ n.after v store = store := by
  obtain ⟨id, instr⟩ := n
  cases instr with
  | quit => cases step
  | ret e =>
      simp only [Node.step] at step
      split at step
      · cases step
      · rename_i value
        cases step
        exact ⟨value_eq_some.mpr ⟨e, rfl, value⟩, rfl, rfl⟩
  | assign | branch | loop =>
      simp only [Node.step] at step
      split at step <;> cases step

/-- A step that fails has done nothing, except on `quit`, where this is what it does. -/
theorem step_failed {e : Failure} (step : n.step store = (act, .failed e)) :
    (n.instr = .quit ∧ act = some .quit ∧ e = .error .noReturn) ∨
      (n.instr ≠ .quit ∧ act = none ∧ e.OfExpr) := by
  obtain ⟨id, instr⟩ := n
  cases instr with
  | quit =>
      cases step
      exact .inl ⟨rfl, rfl, rfl⟩
  | assign | ret =>
      simp only [Node.step] at step
      split at step <;> cases step
      rename_i failed
      exact .inr ⟨nofun, rfl, Expr.eval_failed failed⟩
  | branch | loop =>
      simp only [Node.step] at step
      split at step <;> cases step
      rename_i failed
      exact .inr ⟨nofun, rfl, Expr.test_failed failed⟩

end Node

/-- A point of a run: what has been run, the latest first, and the variables. -/
structure Point where
  ran : List (NodeId × Value)
  store : Store

namespace Graph

/-- The points that are passed from a node on, with so many steps left. -/
def pointsFrom (g : Graph) : Nat → NodeId → Store → List (NodeId × Value) → List Point
  | 0, _, _, _ => []
  | left + 1, id, store, ran =>
      match g.node? id with
      | none => []
      | some n =>
          match n.value store, (n.step store).2 with
          | some v, .next next after =>
              ⟨(id, v) :: ran, after⟩ :: pointsFrom g left next after ((id, v) :: ran)
          | some v, .returned _ => [⟨(id, v) :: ran, store⟩]
          | _, _ => []

def points (g : Graph) (limit : Int) (store : Store) : List Point :=
  g.pointsFrom limit.toNat g.entry store []

/-- What was done in the step before a point. -/
def lastAction (g : Graph) (p : Point) : Option Action := do
  let (id, v) ← p.ran.head?
  let n ← g.node? id
  n.action v

/-- The steps of a run that have led to no point. -/
def failedSteps : Except Failure Value → Nat
  | .ok _ | .error (.error (.stepLimit _)) => 0
  | .error _ => 1

def lastActions : Except Failure Value → List Action
  | .error (.error .noReturn) => [.quit]
  | _ => []

theorem last_of_ofExpr {e : Failure} (ofExpr : e.OfExpr) :
    lastActions (.error e) = [] ∧ failedSteps (.error e) = 1 := by
  unfold lastActions failedSteps
  split <;> split <;> simp_all [Failure.OfExpr]

theorem pointsFrom_failed {g : Graph} {left : Nat} {id : NodeId} {n : Node} {store : Store}
    {e : Failure} {ran : List (NodeId × Value)} (found : g.node? id = some n)
    (step : (n.step store).2 = .failed e) : g.pointsFrom (left + 1) id store ran = [] := by
  simp only [pointsFrom, found, step]
  split <;> simp_all

/-- What is kept when control goes on from a node whose expression has a value. -/
def Invariant (g : Graph) (I : NodeId → Store → List (NodeId × Value) → Prop) : Prop :=
  ∀ ⦃id next n v store ran⦄, I id store ran → g.node? id = some n → n.value store = some v →
    next ∈ g.targets id → I next (n.after v store) ((id, v) :: ran)

/-- Before each point an invariant holds that holds at the start, and the point follows from
    the node that control has come to. -/
theorem Invariant.pointsFrom {g : Graph} {I : NodeId → Store → List (NodeId × Value) → Prop}
    (kept : g.Invariant I) (left : Nat) {id : NodeId} {store : Store} {ran : List (NodeId × Value)}
    (here : I id store ran) :
    ∀ p ∈ g.pointsFrom left id store ran, ∃ id store ran n v, I id store ran ∧ g.node? id = some n ∧
      n.value store = some v ∧ p = ⟨(id, v) :: ran, n.after v store⟩ := by
  induction left generalizing id store ran with
  | zero => simp [Graph.pointsFrom]
  | succ left ih =>
      intro p member
      cases found : g.node? id with
      | none => simp [Graph.pointsFrom, found] at member
      | some n =>
          rcases step : n.step store with ⟨act, outcome⟩
          cases outcome with
          | next next after =>
              obtain ⟨v, value, -, target, rfl⟩ := Node.step_next step
              simp only [Graph.pointsFrom, found, step, value, List.mem_cons] at member
              rcases member with rfl | later
              · exact ⟨id, store, ran, n, v, here, found, value, rfl⟩
              · exact ih (kept here found value (by rwa [targets_eq found])) p later
          | returned v =>
              obtain ⟨value, -, same⟩ := Node.step_returned step
              simp only [Graph.pointsFrom, found, step, value, List.mem_singleton] at member
              exact ⟨id, store, ran, n, v, here, found, value, by rw [same, member]⟩
          | failed e => simp [pointsFrom_failed found (congrArg Prod.snd step)] at member

theorem runFrom_points (g : Graph) (left steps : Nat) (id : NodeId) (store : Store)
    (actions : List Action) (ran : List (NodeId × Value)) :
    let run := g.runFrom left steps id store actions
    let points := g.pointsFrom left id store ran
    run.actions = actions.reverse ++ points.filterMap g.lastAction ++ lastActions run.result ∧
      run.store = (points.getLast?.map (·.store)).getD store ∧
      run.steps = steps + points.length + failedSteps run.result := by
  induction left generalizing steps id store actions ran with
  | zero => simp [runFrom, pointsFrom, lastActions, failedSteps]
  | succ left ih =>
      cases found : g.node? id with
      | none => simp [runFrom, node, pointsFrom, found, lastActions, failedSteps]
      | some n =>
          rcases step : n.step store with ⟨act, outcome⟩
          cases outcome with
          | next next after =>
              obtain ⟨v, value, rfl, -, -⟩ := Node.step_next step
              have last : g.lastAction ⟨(id, v) :: ran, after⟩ = n.action v := by
                simp [lastAction, found]
              obtain ⟨acts, stores, count⟩ := ih (steps + 1) next after
                ((n.action v).toList ++ actions) ((id, v) :: ran)
              simp only [runFrom, node, pointsFrom, found, step, value]
              refine ⟨?_, ?_, ?_⟩
              · rw [acts, List.filterMap_cons, last]
                cases n.action v <;> simp
              · rw [stores, List.getLast?_cons]
                cases (g.pointsFrom left next after ((id, v) :: ran)).getLast? <;> rfl
              · rw [count, List.length_cons]
                omega
          | returned v =>
              obtain ⟨value, rfl, -⟩ := Node.step_returned step
              have last : g.lastAction ⟨(id, v) :: ran, store⟩ = n.action v := by
                simp [lastAction, found]
              simp only [runFrom, node, pointsFrom, found, step, value]
              refine ⟨?_, rfl, rfl⟩
              rw [List.filterMap_cons, last]
              cases n.action v <;> simp [lastActions]
          | failed e =>
              simp only [runFrom, node, found, step, pointsFrom_failed found (congrArg Prod.snd step)]
              rcases Node.step_failed step with ⟨-, rfl, rfl⟩ | ⟨-, rfl, ofExpr⟩
              · simp [lastActions, failedSteps]
              · obtain ⟨no, one⟩ := last_of_ofExpr ofExpr
                simp [no, one]

/-- The points of a run account for what it did, for its variables and for its steps. -/
theorem run_points (g : Graph) (limit : Int) (store : Store) :
    let run := g.run limit store
    let points := g.points limit store
    run.actions = points.filterMap g.lastAction ++ lastActions run.result ∧
      run.store = (points.getLast?.map (·.store)).getD store ∧
      run.steps = points.length + failedSteps run.result := by
  simpa [run, points] using g.runFrom_points limit.toNat 0 g.entry store [] []

end Graph

end FlowFold
