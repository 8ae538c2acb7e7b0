import FlowFold.Proofs.Formation

/-! # Graphs do what their programs say

An interpreter runs a program by its tree, without a graph. It counts steps and tests the
limit before each: an assignment, a return and a branch take one step, a loop takes one
for each test of its condition, and so does falling off the end. Blocks take none.

The graph of a program does the same. The graph of a statement is followed by a node, and
running it is interpreting the statement and going on at that node.
-/

namespace FlowFold

structure Standing where
  /-- How many steps are left. -/
  left : Nat
  /-- How many steps have been made. -/
  steps : Nat
  store : Store
  /-- What was done, the latest first. -/
  actions : List Action

/-- What interpreting a statement leads to: what follows it is next, or the program has
    ended. -/
inductive Flow where
  | on (st : Standing)
  | ended (run : Run)

namespace Standing

def failed (st : Standing) (e : Failure) : Run := ⟨.error e, st.steps, st.store, st.actions.reverse⟩

def fail (st : Standing) (e : Failure) : Flow := .ended (st.failed e)

/-- Make a step, if one is left. -/
def tick (st : Standing) (act : Standing → Flow) : Flow :=
  match st.left with
  | 0 => st.fail (.error (.stepLimit st.steps))
  | left + 1 => act { st with left, steps := st.steps + 1 }

def did (st : Standing) (action : Action) : Standing := { st with actions := action :: st.actions }

/-- Fall off the end of the program, which takes a step too. -/
def fallOff (st : Standing) : Run :=
  match st.left with
  | 0 => st.failed (.error (.stepLimit st.steps))
  | left + 1 => ({ st with left, steps := st.steps + 1 }.did .quit).failed (.error .noReturn)

end Standing

namespace Flow

def andThen (flow : Flow) (follow : Standing → Flow) : Flow :=
  match flow with
  | .on st => follow st
  | .ended run => .ended run

/-- The run, given how it goes on if the program has not ended. -/
def finish (flow : Flow) (follow : Standing → Run) : Run :=
  match flow with
  | .on st => follow st
  | .ended run => run

end Flow

/-- Go round a loop. Each round takes a step, so there are no more rounds than steps left. -/
def Standing.rounds (cond : Expr) (body : Standing → Flow) : Nat → Standing → Flow
  | 0, st => st.fail (.error (.stepLimit st.steps))
  | more + 1, st => st.tick fun st =>
      match cond.test st.store with
      | .error e => st.fail e
      | .ok (false, text) => .on (st.did (.loop text false))
      | .ok (true, text) => (body (st.did (.loop text true))).andThen (rounds cond body more)

mutual

/-- Interpret a statement. Where there is no statement nothing is done. -/
def Stmt.exec : Stmt → Standing → Flow
  | .block body, st => execAll body st
  | .assign none _, st => st.tick fun st => st.fail (.fault .absent)
  | .assign (some name) value, st => st.tick fun st =>
      match value.eval st.store with
      | .error e => st.fail e
      | .ok v => .on ({ st with store := st.store.insert name v }.did (.assign name v))
  | .ite cond then_ otherwise, st => st.tick fun st =>
      match cond.test st.store with
      | .error e => st.fail e
      | .ok (true, text) => then_.exec (st.did (.branch text true))
      | .ok (false, text) => otherwise.exec (st.did (.branch text false))
  | .while cond body, st => Standing.rounds cond body.exec st.left st
  | .ret result, st => st.tick fun st =>
      match result.eval st.store with
      | .error e => st.fail e
      | .ok v => .ended ⟨.ok v, st.steps, st.store, (st.did (.ret v)).actions.reverse⟩
  | .missing, st => .on st
  | .hollow _, st => st.fail (.fault .absent)
  | .foreign other, st => st.fail (.fault (.foreignStmt other.typeName))

/-- Interpret the statements of a block, until one ends the program. -/
def Stmt.execAll : List Stmt → Standing → Flow
  | [], st => .on st
  | s :: rest, st => (s.exec st).andThen (execAll rest)

end

def Stmt.interpret (program : Stmt) (limit : Int) (store : Store) : Run :=
  (program.exec ⟨limit.toNat, 0, store, []⟩).finish Standing.fallOff

/-! ## Loops -/

/-- No more steps are left than these. -/
def Flow.Within (flow : Flow) (most : Nat) : Prop := ∀ st, flow = .on st → st.left ≤ most

theorem Flow.andThen_congr {flow : Flow} {follow follow' : Standing → Flow}
    (same : ∀ st, flow = .on st → follow st = follow' st) : flow.andThen follow = flow.andThen follow' := by
  cases flow with
  | on st => exact same st rfl
  | ended run => rfl

namespace Standing

variable {st : Standing} {most : Nat}

theorem fail_within (st : Standing) (e : Failure) : (st.fail e).Within most := nofun

theorem on_within (le : st.left ≤ most) : (Flow.on st).Within most := by
  rintro _ ⟨⟩
  exact le

theorem tick_within {act : Standing → Flow} (le : st.left ≤ most)
    (within : ∀ st', st'.left ≤ most → (act st').Within most) : (st.tick act).Within most := by
  unfold tick
  split
  · exact fail_within _ _
  · rename_i left eq
    exact within _ (Nat.le_trans (Nat.le_succ left) (eq ▸ le))

theorem tick_congr {act act' : Standing → Flow}
    (same : ∀ left, st.left = left + 1 →
      act { st with left, steps := st.steps + 1 } = act' { st with left, steps := st.steps + 1 }) :
    st.tick act = st.tick act' := by
  unfold tick
  split
  · rfl
  · rename_i left eq
    exact same left eq

theorem andThen_within {flow : Flow} {follow : Standing → Flow} (first : flow.Within most)
    (within : ∀ st', st'.left ≤ most → (follow st').Within most) : (flow.andThen follow).Within most := by
  cases flow with
  | on st => exact within st (first st rfl)
  | ended run => nofun

theorem rounds_within {cond : Expr} {body : Standing → Flow}
    (within : ∀ st most, st.left ≤ most → (body st).Within most) (more : Nat) (le : st.left ≤ most) :
    (rounds cond body more st).Within most := by
  induction more generalizing st with
  | zero => exact fail_within _ _
  | succ more ih =>
      refine tick_within le fun st' le' => ?_
      split
      · exact fail_within _ _
      · exact on_within le'
      · exact andThen_within (within _ _ le') fun _ => ih

/-- As many rounds as there are steps left are enough: with more the loop does the same. -/
theorem rounds_eq {cond : Expr} {body : Standing → Flow}
    (within : ∀ st most, st.left ≤ most → (body st).Within most) {more more' : Nat}
    (le : st.left ≤ more) (le' : st.left ≤ more') :
    rounds cond body more st = rounds cond body more' st := by
  induction more generalizing st more' with
  | zero =>
      have none : st.left = 0 := Nat.le_zero.mp le
      cases more' with
      | zero => rfl
      | succ more' => simp [rounds, tick, none]
  | succ more ih =>
      cases more' with
      | zero =>
          have none : st.left = 0 := Nat.le_zero.mp le'
          simp [rounds, tick, none]
      | succ more' =>
          refine tick_congr fun left eq => ?_
          simp only
          split
          · rfl
          · rfl
          · refine Flow.andThen_congr fun st' next => ?_
            have least := within _ left (Nat.le_refl left) st' next
            exact ih (by omega) (by omega)

end Standing

mutual

theorem Stmt.exec_within (s : Stmt) (st : Standing) (most : Nat) (le : st.left ≤ most) :
    (s.exec st).Within most := by
  cases s with
  | block body => exact execAll_within body st most le
  | assign target value =>
      cases target with
      | none => exact Standing.tick_within le fun _ _ => Standing.fail_within _ _
      | some name =>
          refine Standing.tick_within le fun st' le' => ?_
          split
          · exact Standing.fail_within _ _
          · exact Standing.on_within le'
  | ite cond then_ otherwise =>
      refine Standing.tick_within le fun st' le' => ?_
      split
      · exact Standing.fail_within _ _
      · exact exec_within then_ _ most le'
      · exact exec_within otherwise _ most le'
  | «while» cond body => exact Standing.rounds_within (exec_within body) st.left le
  | ret result =>
      refine Standing.tick_within le fun st' _ => ?_
      split
      · exact Standing.fail_within _ _
      · nofun
  | missing => exact Standing.on_within le
  | hollow | foreign => exact Standing.fail_within _ _
termination_by sizeOf s

theorem Stmt.execAll_within (body : List Stmt) (st : Standing) (most : Nat) (le : st.left ≤ most) :
    (execAll body st).Within most := by
  cases body with
  | nil => exact Standing.on_within le
  | cons s rest =>
      exact Standing.andThen_within (exec_within s st most le) fun st' => execAll_within rest st' most
termination_by sizeOf body

end

theorem Stmt.exec_while (cond : Expr) (body : Stmt) (st : Standing) :
    (Stmt.while cond body).exec st = st.tick fun st =>
      match cond.test st.store with
      | .error e => st.fail e
      | .ok (false, text) => .on (st.did (.loop text false))
      | .ok (true, text) => (body.exec (st.did (.loop text true))).andThen (Stmt.while cond body).exec := by
  have once : (Stmt.while cond body).exec st = Standing.rounds cond body.exec (st.left + 1) st :=
    Standing.rounds_eq body.exec_within (Nat.le_refl _) (Nat.le_succ _)
  rw [once, Standing.rounds]
  refine Standing.tick_congr fun left eq => ?_
  split
  · rfl
  · rfl
  · refine Flow.andThen_congr fun st' next => Standing.rounds_eq body.exec_within ?_ (Nat.le_refl _)
    have least := body.exec_within _ left (Nat.le_refl left) st' next
    exact Nat.le_trans least (eq ▸ Nat.le_succ left)

/-! ## The graph of a program -/

namespace Graph

def resume (g : Graph) (id : NodeId) (st : Standing) : Run :=
  g.runFrom st.left st.steps id st.store st.actions

def afterStep (g : Graph) (n : Node) (st : Standing) : Run :=
  let (action, outcome) := n.step st.store
  let actions := action.toList ++ st.actions
  match outcome with
  | .next id store => g.resume id { st with store, actions }
  | .returned v => ⟨.ok v, st.steps, st.store, actions.reverse⟩
  | .failed e => ⟨.error e, st.steps, st.store, actions.reverse⟩

theorem resume_eq_tick {g : Graph} {id : NodeId} {n : Node} (found : g.node? id = some n)
    {st : Standing} {act : Standing → Flow} {follow : Standing → Run}
    (agree : ∀ left, st.left = left + 1 →
      g.afterStep n { st with left, steps := st.steps + 1 } =
        (act { st with left, steps := st.steps + 1 }).finish follow) :
    g.resume id st = (st.tick act).finish follow := by
  obtain ⟨left, steps, store, actions⟩ := st
  cases left with
  | zero => rfl
  | succ left =>
      rw [resume, runFrom, node_eq_ok.mpr found]
      exact agree left rfl

end Graph

theorem Flow.finish_andThen (flow : Flow) (follow : Standing → Flow) (last : Standing → Run) :
    (flow.andThen follow).finish last = flow.finish fun st => (follow st).finish last := by
  cases flow <;> rfl

theorem Flow.finish_congr {flow : Flow} {follow follow' : Standing → Run}
    (same : ∀ st, flow = .on st → follow st = follow' st) : flow.finish follow = flow.finish follow' := by
  cases flow with
  | on st => exact same st rfl
  | ended run => rfl

namespace Graph

variable {whole g g₁ g₂ : Graph}

theorem same_before (grown : g₁.Grown g₂)
    (same : ∀ id, g.size ≤ id → id < g₂.size → whole.node? id = g₂.node? id) :
    ∀ id, g.size ≤ id → id < g₁.size → whole.node? id = g₁.node? id := by
  intro id above below
  rw [same id above (Nat.lt_of_lt_of_le below grown.size), grown.kept id below]

theorem found_last {instr : Instr} (grown : g.Grown g₁)
    (same : ∀ id, g.size ≤ id → id < (g₁.add instr).2.size →
      whole.node? id = (g₁.add instr).2.node? id) : whole.node? g₁.size = some ⟨g₁.size, instr⟩ := by
  rw [same g₁.size grown.size (by simp), node?_add_size]

theorem found_loop {cond : Expr} {join start : NodeId}
    (grown : (g.add (.loop cond 0 join)).2.Grown g₁) (closed : g₁.setBody g.size start = .ok g₂)
    (same : ∀ id, g.size ≤ id → id < g₂.size → whole.node? id = g₂.node? id) :
    whole.node? g.size = some ⟨g.size, .loop cond start join⟩ ∧
      ∀ id, (g.add (.loop cond 0 join)).2.size ≤ id → id < g₁.size → whole.node? id = g₁.node? id := by
  obtain ⟨-, own, cond', old, join', loop, rfl⟩ := setBody_eq_ok.mp closed
  rw [size_modify] at same
  have before : g.size < (g.add (.loop cond 0 join)).2.size := by simp
  have there := grown.kept g.size before
  rw [node?_add_size, loop] at there
  cases there
  constructor
  · rw [same g.size (Nat.le_refl _) (Nat.lt_of_lt_of_le before grown.size), node?_modify, if_pos rfl, loop]
    rfl
  · intro id above below
    have later := Nat.lt_of_lt_of_le before above
    rw [same id (Nat.le_of_lt later) below, node?_modify, if_neg (Nat.ne_of_lt later)]

end Graph

namespace Stmt.Forms

/-- Running the nodes of a statement is interpreting the statement and going on at its
    follower. This holds in every graph that has these nodes. -/
theorem resume {next start : NodeId} {g g' : Graph} {s : Stmt} (forms : Forms next g s start g')
    (whole : Graph) (same : ∀ id, g.size ≤ id → id < g'.size → whole.node? id = g'.node? id)
    (st : Standing) : whole.resume start st = (s.exec st).finish (whole.resume next) := by
  induction forms generalizing st with
  | nil => rfl
  | @cons next middle start g g₁ g₂ s rest others first ihOthers ihFirst =>
      have sameOthers := Graph.same_before first.grown same
      have sameFirst : ∀ id, g₁.size ≤ id → id < g₂.size → whole.node? id = g₂.node? id :=
        fun id above => same id (Nat.le_trans others.grown.size above)
      have chain : (Stmt.block (s :: rest)).exec st = (s.exec st).andThen (Stmt.block rest).exec := rfl
      rw [ihFirst sameFirst, chain, Flow.finish_andThen]
      exact Flow.finish_congr fun st' _ => ihOthers sameOthers st'
  | @assign next g name value inside =>
      refine Graph.resume_eq_tick (Graph.found_last (.refl _) same) fun left _ => ?_
      simp only [Graph.afterStep, Node.step]
      cases value.eval st.store <;> rfl
  | @ret next g result =>
      refine Graph.resume_eq_tick (Graph.found_last (.refl _) same) fun left _ => ?_
      simp only [Graph.afterStep, Node.step]
      cases result.eval st.store <;> rfl
  | @ifThen next yes g g₁ cond then_ first inside ih =>
      refine Graph.resume_eq_tick (Graph.found_last first.grown same) fun left _ => ?_
      simp only [Graph.afterStep, Node.step]
      cases cond.test st.store with
      | error e => rfl
      | ok tested =>
          obtain ⟨holds, text⟩ := tested
          cases holds with
          | true => exact ih (Graph.same_before (.add _ _) same) _
          | false => rfl
  | @ifElse next yes no g g₁ g₂ cond then_ otherwise first second inside ihFirst ihSecond =>
      refine Graph.resume_eq_tick (Graph.found_last (first.grown.trans second.grown) same) fun left _ => ?_
      simp only [Graph.afterStep, Node.step]
      cases cond.test st.store with
      | error e => rfl
      | ok tested =>
          obtain ⟨holds, text⟩ := tested
          have same₂ := Graph.same_before (.add _ _) same
          cases holds with
          | true => exact ihFirst (Graph.same_before second.grown same₂) _
          | false => exact ihSecond (fun id above => same₂ id (Nat.le_trans first.grown.size above)) _
  | @«while» next start g g₁ g₂ cond body inside inner closed ih =>
      obtain ⟨found, sameBody⟩ := Graph.found_loop inner.grown closed same
      -- Every round takes a step, so the induction is on the steps that are left.
      have loop : ∀ count st, st.left = count →
          whole.resume g.size st = ((Stmt.while cond body).exec st).finish (whole.resume next) := by
        intro count
        induction count using Nat.strongRecOn with
        | _ count ihCount =>
            intro st here
            rw [exec_while]
            refine Graph.resume_eq_tick found fun left eq => ?_
            simp only [Graph.afterStep, Node.step]
            cases cond.test st.store with
            | error e => rfl
            | ok tested =>
                obtain ⟨holds, text⟩ := tested
                cases holds with
                | false => rfl
                | true =>
                    simp only [Flow.finish_andThen]
                    refine (ih sameBody _).trans (Flow.finish_congr fun st' next => ?_)
                    have least := body.exec_within _ left (Nat.le_refl left) st' next
                    exact ihCount st'.left (by omega) st' rfl
      exact loop st.left st rfl

end Stmt.Forms

theorem Graph.Arena.resume_quit {g : Graph} (arena : g.Arena) (st : Standing) :
    g.resume 0 st = st.fallOff := by
  obtain ⟨left, steps, store, actions⟩ := st
  cases left with
  | zero => rfl
  | succ left =>
      rw [Graph.resume, Graph.runFrom, Graph.node_eq_ok.mpr arena.node_zero]
      rfl

/-- A program without errors whose literals are integers and booleans has a graph, and a
    run of it is what interpreting the program gives: the same value or error, the same
    number of steps, the same variables at the end and the same actions on the way. -/
theorem Graph.run_ofProgram (program : Stmt) (inputs : List String) {report : Report}
    (checked : check program inputs = .ok report) (clean : report.errors = [])
    (valid : ∀ v ∈ program.literals, ∃ w ∈ v, w.Valid) :
    ∃ g, Graph.ofProgram program = .ok g ∧ ∀ limit store,
      g.run limit store = program.interpret limit store ∧
        ∀ fault, (program.interpret limit store).result ≠ .error (.fault fault) := by
  obtain ⟨-, rfl⟩ := check_eq_ok.mp checked
  obtain ⟨g, g', formed, built, wf, forms, same⟩ := (Stmt.wellFormed_of_report clean valid).ofProgram
  refine ⟨g, formed, fun limit store => ?_⟩
  have agree : g.run limit store = program.interpret limit store := by
    have through := forms.resume g (fun id _ _ => same id) ⟨limit.toNat, 0, store, []⟩
    exact through.trans (Flow.finish_congr fun st _ => built.arena.resume_quit st)
  exact ⟨agree, agree ▸ built.arena.run_no_fault wf limit store⟩

/-- Loops and a branch, each as the last statement of a loop, and a return inside. -/
def Stmt.nestedLoops : Stmt :=
  .block
    [.set "x" (.int 0),
      .set "y" (.int 0),
      .while (.binary .lt (.var "x") (.int 3)) (.block
        [.set "x" (.binary .add (.var "x") (.int 1)),
          .while (.binary .lt (.var "y") (.var "x")) (.block
            [.set "y" (.binary .add (.var "y") (.int 1)),
              .ite (.binary .eq (.var "y") (.var "z")) (.ret (.var "x")) .missing])])]

theorem Graph.run_ofProgram_nestedLoops :
    check Stmt.nestedLoops ["z"] = .ok .empty ∧ (∀ v ∈ Stmt.nestedLoops.literals, ∃ w ∈ v, w.Valid) ∧
      ∃ g, Graph.ofProgram Stmt.nestedLoops = .ok g ∧
        (g.run 100 ((∅ : Store).insert "z" (.ofInt 2))).result = .ok (.ofInt 2) ∧
        (g.run 100 ((∅ : Store).insert "z" (.ofInt 9))).result = .error (.error .noReturn) := by
  have checked : check Stmt.nestedLoops ["z"] = .ok .empty := by rfl
  have valid : ∀ v ∈ Stmt.nestedLoops.literals, ∃ w ∈ v, w.Valid := by decide
  obtain ⟨g, formed, same⟩ := Graph.run_ofProgram Stmt.nestedLoops ["z"] checked rfl valid
  refine ⟨checked, valid, g, formed, ?_, ?_⟩
  · rw [(same _ _).1]
    decide
  · rw [(same _ _).1]
    decide

end FlowFold
