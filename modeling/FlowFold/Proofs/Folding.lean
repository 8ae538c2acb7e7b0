import FlowFold.Proofs.Copy
import FlowFold.Proofs.WellFormed

/-! # Folding keeps what a program does

A graph and its folded copy run in step. The copy of a live node has an expression with
the same value, because the analysis is right about the variables whenever control comes
there. So the two machines take the same steps, change the variables in the same way and
end in the same way. The one difference is in a message: if a condition turns out not to
be a boolean, each machine prints the condition it has, and folding may have replaced it
by a constant.
-/

namespace FlowFold

namespace Graph

/-- The node at which a run from a node on ends. -/
def haltFrom (g : Graph) : Nat → NodeId → Store → NodeId
  | 0, id, _ => id
  | left + 1, id, store =>
      match g.node? id with
      | none => id
      | some n =>
          match (n.step store).2 with
          | .next next after => haltFrom g left next after
          | _ => id

def haltsAt (g : Graph) (limit : Int) (store : Store) : NodeId :=
  g.haltFrom limit.toNat g.entry store

theorem Invariant.haltFrom {g : Graph} {I : NodeId → Store → List (NodeId × Value) → Prop}
    (kept : g.Invariant I) (left steps : Nat) {id : NodeId} {store : Store} {ran : List (NodeId × Value)}
    (actions : List Action) (here : I id store ran) {e : RunError}
    (failed : (g.runFrom left steps id store actions).result = .error (.error e))
    (inTime : ∀ count, e ≠ .stepLimit count) :
    ∃ store' ran' n, I (g.haltFrom left id store) store' ran' ∧
      g.node? (g.haltFrom left id store) = some n ∧ (n.step store').2 = .failed (.error e) := by
  induction left generalizing steps id store ran actions with
  | zero =>
      cases failed
      exact absurd rfl (inTime steps)
  | succ left ih =>
      cases found : g.node? id with
      | none => simp [runFrom, node, found] at failed
      | some n =>
          rcases step : n.step store with ⟨act, outcome⟩
          simp only [runFrom, node, found, step] at failed
          simp only [Graph.haltFrom, found, step]
          cases outcome with
          | next next after =>
              obtain ⟨v, value, -, target, rfl⟩ := Node.step_next step
              exact ih (steps + 1) _ (kept here found value (by rwa [targets_eq found])) failed
          | returned v => cases failed
          | failed f =>
              cases failed
              exact ⟨store, ran, n, here, found, by rw [step]⟩

variable {g f : Graph} {a : Analysis} {id : NodeId} {n : Node} {store : Store}
  {ran : List (NodeId × Value)}

namespace Analysed

/-- Every constant that the analysis has found is valid. The induction is along a path to
    the node: a constant comes from the node itself or was there before. -/
theorem known_valid (analysed : g.Analysed a.out) (wf : g.WellFormed) (live : g.Live id) :
    ∀ (k : Key) (v : Value), (a.out.getD id ∅)[k]? = some (.known v) → v.Valid := by
  have leaves : ∀ {id}, g.Live id →
      (∀ (k : Key) (v : Value), (g.into a.out id)[k]? = some (.known v) → v.Valid) →
      ∀ (k : Key) (v : Value), (a.out.getD id ∅)[k]? = some (.known v) → v.Valid := by
    intro id live valid k v known
    obtain ⟨instr, found⟩ := analysed.arena.live_node live
    rcases Node.transfer_eq_ok.mp (analysed.transfer_eq live found) with
      ⟨-, env⟩ | ⟨own, e, fact, -, has, value, env⟩
    · exact valid k v (env ▸ known)
    · rw [env, Std.ExtTreeMap.getElem?_insert] at known
      split at known
      · cases known
        exact (wf id _ live found e has).evaluate_valid valid value
      · exact valid k v known
  induction live with
  | refl => exact leaves (.entry g) fun k v known => absurd known analysed.arena.into_entry
  | tail before edge ih =>
      exact leaves (.edge before edge) fun k v known =>
        ih k v (analysed.arena.into_edge before edge known)

theorem eval_exprAt (analysed : g.Analysed a.out) (arrives : g.Arrives a.out id store ran)
    (found : g.node? id = some n) {k : Key} {e : Expr} (own : n.key? = some k)
    (has : n.expression = some e) : (a.exprAt id k e).eval store = e.eval store := by
  obtain ⟨fact, entry, -, value⟩ := analysed.factAt_live arrives.live found own has
  rw [Analysis.exprAt, entry]
  cases fact with
  | unknown => rfl
  | known v => exact (Expr.eval_of_evaluate arrives.agrees value).symm

theorem wellFormed_exprAt (analysed : g.Analysed a.out) (wf : g.WellFormed) (live : g.Live id)
    (found : g.node? id = some n) {k : Key} {e : Expr} (own : n.key? = some k)
    (has : n.expression = some e) : (a.exprAt id k e).WellFormed := by
  obtain ⟨fact, entry, here, -⟩ := analysed.factAt_live live found own has
  rw [Analysis.exprAt, entry]
  cases fact with
  | unknown => exact wf id n live found e has
  | known v => exact analysed.known_valid wf live k v here

end Analysed

/-- How the folded graph's run ends, given how the graph's run ends at a node: in the same
    way, but if the node's condition was no boolean, each run has printed its own. -/
inductive SameEnd (g : Graph) (a : Analysis) (id : NodeId) :
    Except Failure Value → Except Failure Value → Prop where
  | notBool {n : Node} {cond : Expr} {text text' : String} (live : g.Live id)
      (found : g.node? id = some n) (own : n.key? = some (.expr id)) (has : n.expression = some cond)
      (flat : cond.flatText = .ok text) (flat' : (a.exprAt id (.expr id) cond).flatText = .ok text') :
      SameEnd g a id (.error (.error (.notBool text))) (.error (.error (.notBool text')))
  | same {r : Except Failure Value} (noText : ∀ text, r ≠ .error (.error (.notBool text))) :
      SameEnd g a id r r

/-- What a step on a copy leads to, given what the step on the node does. -/
def Matches (g : Graph) (a : Analysis) (origin : NodeId → NodeId) (id : NodeId) :
    Outcome → Outcome → Prop
  | .next next store, .next next' store' => origin next' = next ∧ store' = store
  | .returned v, .returned v' => v' = v
  | .failed e, .failed e' => g.SameEnd a id (.error e) (.error e')
  | _, _ => False

theorem SameEnd.of_eval {e : Expr} (wf : e.WellFormed) {failure : Failure}
    (failed : e.eval store = .error failure) : g.SameEnd a id (.error failure) (.error failure) := by
  rcases wf.eval_failed failed with ⟨name, rfl⟩ | ⟨l, op, r, rfl⟩
  · exact .same (by simp)
  · exact .same (by simp)

theorem Analysed.test_matches (analysed : g.Analysed a.out) (wf : g.WellFormed)
    (arrives : g.Arrives a.out id store ran) (found : g.node? id = some n) {cond : Expr}
    (own : n.key? = some (.expr id)) (has : n.expression = some cond) :
    (∃ holds text text', cond.test store = .ok (holds, text) ∧
      (a.exprAt id (.expr id) cond).test store = .ok (holds, text')) ∨
    ∃ failure failure', cond.test store = .error failure ∧
      (a.exprAt id (.expr id) cond).test store = .error failure' ∧
      g.SameEnd a id (.error failure) (.error failure') := by
  have wfCond := wf id n arrives.live found cond has
  obtain ⟨text, flat⟩ := wfCond.flatText
  obtain ⟨text', flat'⟩ := (analysed.wellFormed_exprAt wf arrives.live found own has).flatText
  rw [Expr.test_of_flatText flat, Expr.test_of_flatText flat', analysed.eval_exprAt arrives found own has]
  cases value : cond.eval store with
  | error failure => exact .inr ⟨failure, failure, rfl, rfl, .of_eval wfCond value⟩
  | ok v =>
      by_cases bool : v.kind = .bool
      · exact .inl ⟨v.flag, text, text', by simp [bool], by simp [bool]⟩
      · refine .inr ⟨.error (.notBool text), .error (.notBool text'), by simp [bool], by simp [bool], ?_⟩
        exact .notBool arrives.live found own has flat flat'

variable {origin : NodeId → NodeId} {instr instr' : Instr}

theorem Analysed.step_matches (analysed : g.Analysed a.out) (wf : g.WellFormed)
    (arrives : g.Arrives a.out id store ran) (found : g.node? id = some ⟨id, instr⟩) (id' : NodeId)
    (same : instr'.relabel origin = a.foldedInstr ⟨id, instr⟩) :
    g.Matches a origin id (Node.step ⟨id, instr⟩ store).2 (Node.step ⟨id', instr'⟩ store).2 := by
  cases instr with
  | quit =>
      cases instr' <;> cases same
      exact .same (by simp)
  | assign name e next =>
      cases instr' <;> cases same
      simp only [Node.step, analysed.eval_exprAt arrives found rfl rfl]
      cases value : e.eval store with
      | error failure => exact .of_eval (wf id _ arrives.live found e rfl) value
      | ok v => exact ⟨rfl, rfl⟩
  | ret e =>
      cases instr' <;> cases same
      simp only [Node.step, analysed.eval_exprAt arrives found rfl rfl]
      cases value : e.eval store with
      | error failure => exact .of_eval (wf id _ arrives.live found e rfl) value
      | ok v => rfl
  | branch | loop =>
      cases instr' <;> cases same
      rcases analysed.test_matches wf arrives found rfl rfl with
        ⟨holds, text, text', tested, tested'⟩ | ⟨failure, failure', failed, failed', ends⟩
      · simp only [Node.step, tested, tested']
        cases holds <;> exact ⟨rfl, rfl⟩
      · simp only [Node.step, failed, failed']
        exact ends

theorem FoldOf.runFrom (fold : f.FoldOf a g origin) (analysed : g.Analysed a.out) (wf : g.WellFormed)
    (left steps : Nat) {id' : NodeId} {store : Store} {ran : List (NodeId × Value)}
    (inside : id' < f.size) (arrives : g.Arrives a.out (origin id') store ran)
    (actions actions' : List Action) :
    let run := g.runFrom left steps (origin id') store actions
    let run' := f.runFrom left steps id' store actions'
    run'.steps = run.steps ∧ run'.store = run.store ∧
      g.SameEnd a (g.haltFrom left (origin id') store) run.result run'.result := by
  induction left generalizing steps id' store ran actions actions' with
  | zero => exact ⟨rfl, rfl, .same (by simp [Graph.runFrom])⟩
  | succ left ih =>
      obtain ⟨instr, found⟩ := analysed.arena.live_node arrives.live
      obtain ⟨⟨own, instr'⟩, found'⟩ := exists_node? inside
      obtain rfl : own = id' := fold.arena.id_eq found'
      obtain ⟨n, stems, same⟩ := fold.node found'
      obtain rfl : n = ⟨origin own, instr⟩ := Option.some.inj (stems.symm.trans found)
      have inStep := analysed.step_matches wf arrives found own same
      rcases step : Node.step ⟨origin own, instr⟩ store with ⟨act, outcome⟩
      rcases step' : Node.step ⟨own, instr'⟩ store with ⟨act', outcome'⟩
      simp only [Graph.runFrom, node_eq_ok.mpr found, node_eq_ok.mpr found', haltFrom, found, step, step']
      rw [step, step'] at inStep
      cases outcome <;> cases outcome' <;> try exact inStep.elim
      · obtain ⟨rfl, rfl⟩ := inStep
        obtain ⟨v, value, -, target, rfl⟩ := Node.step_next step
        obtain ⟨-, -, -, target', -⟩ := Node.step_next step'
        have inside' := fold.arena.target_lt (by rwa [targets_eq found'])
        have arrives' := analysed.arrives_invariant arrives found value (by rwa [targets_eq found])
        exact ih (steps + 1) inside' arrives' _ _
      · cases inStep
        exact ⟨rfl, rfl, .same (by simp)⟩
      · exact ⟨rfl, rfl, inStep⟩

namespace SameEnd

variable {r r' : Except Failure Value}

theorem eq_of_ne (ends : g.SameEnd a id r r')
    (noText : ∀ text, r ≠ .error (.error (.notBool text))) : r' = r := by
  cases ends with
  | notBool => exact absurd rfl (noText _)
  | same => rfl

/-- The two texts of a condition that was no boolean differ exactly if the condition was
    found to be a constant whose text is another one. -/
theorem texts (analysed : g.Analysed a.out) {text : String} (ends : g.SameEnd a id r r')
    (result : r = .error (.error (.notBool text))) :
    ∃ n cond text', g.Live id ∧ g.node? id = some n ∧ n.expression = some cond ∧
      cond.flatText = .ok text ∧ r' = .error (.error (.notBool text')) ∧
      (∀ v, (a.out.getD id ∅)[Key.expr id]? = some (.known v) → v.text = .ok text') ∧
      (text' ≠ text ↔ ∃ v, (a.out.getD id ∅)[Key.expr id]? = some (.known v) ∧ v.text ≠ .ok text) := by
  cases ends with
  | same noText => exact absurd result (noText text)
  | @notBool n cond _ text' live found own has flat flat' =>
      cases result
      refine ⟨n, cond, text', live, found, has, flat, rfl, ?_⟩
      obtain ⟨fact, known, entry, -⟩ := analysed.factAt_live live found own has
      rw [Analysis.exprAt, known] at flat'
      rw [entry]
      cases fact with
      | known v =>
          have printed : v.text = .ok text' := flat'
          simp [printed]
      | unknown =>
          have kept : cond.flatText = .ok text' := flat'
          rw [flat] at kept
          cases kept
          simp

end SameEnd

end Graph

/-- Folding succeeds on every well-formed graph. From the same variables and with the same
    limit the folded graph takes as many steps, leaves the same variables and ends with the
    same value or the same error. Only the text of a condition that was no boolean can
    differ, and it does so exactly if the condition was found to be a constant with another
    text; then the constant is printed. -/
theorem Graph.run_fold {g : Graph} (built : g.Built) (wf : g.WellFormed) :
    ∃ a f, Analysis.new.run g = (a, none) ∧ g.fold = .ok f ∧ ∀ limit store,
      (f.run limit store).steps = (g.run limit store).steps ∧
      (f.run limit store).store = (g.run limit store).store ∧
      (∀ fault, (g.run limit store).result ≠ .error (.fault fault)) ∧
      ((∀ text, (g.run limit store).result ≠ .error (.error (.notBool text))) →
        (f.run limit store).result = (g.run limit store).result) ∧
      ∀ text, (g.run limit store).result = .error (.error (.notBool text)) →
        ∃ n cond env text', g.node? (g.haltsAt limit store) = some n ∧ n.expression = some cond ∧
          cond.flatText = .ok text ∧ a.outAt (g.haltsAt limit store) = .ok (some env) ∧
          (f.run limit store).result = .error (.error (.notBool text')) ∧
          (∀ v, env[Key.expr (g.haltsAt limit store)]? = some (.known v) → v.text = .ok text') ∧
          (text' ≠ text ↔
            ∃ v, env[Key.expr (g.haltsAt limit store)]? = some (.known v) ∧ v.text ≠ .ok text) := by
  obtain ⟨a, run, hasRun, analysed⟩ := Analysis.run_analysed built.arena wf.complete .new
  obtain ⟨f, origin, rebuilt, fold⟩ := Analysis.rebuild_foldOf analysed hasRun
  refine ⟨a, f, run, by rw [Graph.fold, run]; exact rebuilt, fun limit store => ?_⟩
  have arrives := analysed.arena.arrives_entry a.out store
  rw [← fold.entry] at arrives
  obtain ⟨steps, stores, ends⟩ := fold.runFrom analysed wf limit.toNat 0 fold.arena.entry_lt arrives [] []
  rw [fold.entry] at steps stores ends
  refine ⟨steps, stores, analysed.arena.run_no_fault wf limit store, ends.eq_of_ne, fun text result => ?_⟩
  obtain ⟨n, cond, text', live, found, has, flat, result', printed, differs⟩ := ends.texts analysed result
  exact ⟨n, cond, _, text', found, has, flat, analysed.outAt hasRun live, result', printed, differs⟩

/-- Calls that build a loop entered in its body, and after it a branch on the integer that
    the body has assigned. -/
def Graph.branchOnInteger : List Graph.Call :=
  [.addReturn (.var "x"),
    .addBranch (.var "y") 1 1 1,
    .addLoop (.binary .lt (.var "x") (.int 3)) 2,
    .addAssign "x" (.binary .add (.var "x") (.int 1)) 3,
    .addAssign "y" (.int 7) 4,
    .setBody 3 5,
    .setEntry 5]

theorem Graph.run_fold_branchOnInteger :
    let g := Graph.build Graph.branchOnInteger
    let store : Store := (∅ : Store).insert "x" (.ofInt 0)
    g.Built ∧ g.WellFormed ∧ (g.run 100 store).result = .error (.error (.notBool "y")) ∧
      (g.run 100 store).steps = 10 ∧
      ∃ f text, g.fold = .ok f ∧ (f.run 100 store).result = .error (.error (.notBool text)) ∧
        (f.run 100 store).steps = 10 := by
  intro g store
  have built : g.Built := ⟨_, rfl⟩
  have wf : g.WellFormed := Graph.forall_live (by decide)
  have result : (g.run 100 store).result = .error (.error (.notBool "y")) := by decide
  have ten : (g.run 100 store).steps = 10 := by decide
  obtain ⟨a, f, -, fold, same⟩ := Graph.run_fold built wf
  obtain ⟨steps, -, -, -, texts⟩ := same 100 store
  obtain ⟨-, -, -, text, -, -, -, -, result', -⟩ := texts "y" result
  exact ⟨built, wf, result, ten, f, text, fold, result', steps.trans ten⟩

end FlowFold
