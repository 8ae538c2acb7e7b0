import FlowFold.Proofs.WellFormed

/-! # What the step limit does

A machine goes round a loop: it compares the limit with the number of steps made, and if there
are fewer, it makes one more. Every step brings the limit closer, so the loop ends, whatever the
graph is.

The limit has no other part in a run. What the first step does, whether it ends the run or goes
on, does not depend on how many steps may follow. Hence a run that ends by itself is the same
under every limit that leaves it its steps, and under a lower one it is cut off where it was.
-/

namespace FlowFold.Graph

/-- The loop of a machine from a node on, with the number of steps made so far. There is no rule
    for a handle without a node. -/
inductive Loops (g : Graph) (limit : Int) : Nat → NodeId → Store → List Action → Run → Prop where
  /-- The limit has been reached. -/
  | cut {steps : Nat} {id : NodeId} {store : Store} {actions : List Action} (reached : limit ≤ steps) :
      Loops g limit steps id store actions
        ⟨.error (.error (.stepLimit steps)), steps, store, actions.reverse⟩
  /-- A step is made, and the loop goes on at the next node. -/
  | next {steps : Nat} {id next : NodeId} {store after : Store} {actions : List Action} {n : Node}
      {act : Option Action} {run : Run} (below : steps < limit) (found : g.node? id = some n)
      (step : n.step store = (act, .next next after))
      (rest : Loops g limit (steps + 1) next after (act.toList ++ actions) run) :
      Loops g limit steps id store actions run
  /-- The step returns a value. -/
  | returned {steps : Nat} {id : NodeId} {store : Store} {actions : List Action} {n : Node}
      {act : Option Action} {v : Value} (below : steps < limit) (found : g.node? id = some n)
      (step : n.step store = (act, .returned v)) :
      Loops g limit steps id store actions ⟨.ok v, steps + 1, store, (act.toList ++ actions).reverse⟩
  /-- The step fails. -/
  | failed {steps : Nat} {id : NodeId} {store : Store} {actions : List Action} {n : Node}
      {act : Option Action} {e : Failure} (below : steps < limit) (found : g.node? id = some n)
      (step : n.step store = (act, .failed e)) :
      Loops g limit steps id store actions ⟨.error e, steps + 1, store, (act.toList ++ actions).reverse⟩

variable {g : Graph} {id : NodeId} {store : Store} {actions : List Action}

theorem Loops.steps_le {limit : Int} {steps : Nat} {run : Run}
    (loops : g.Loops limit steps id store actions run) : (run.steps : Int) ≤ max limit steps := by
  induction loops with
  | cut reached => exact Int.le_max_right _ _
  | next below _ _ _ ih => omega
  | returned below | failed below =>
      dsimp only
      omega

/-- The loop ends, and it ends with the run. The induction is on how far the limit is. -/
theorem Arena.loops (arena : g.Arena) {limit : Int} {steps left : Nat} (far : (limit - steps).toNat = left)
    (live : g.Live id) : g.Loops limit steps id store actions (g.runFrom left steps id store actions) := by
  induction left generalizing steps id store actions with
  | zero => exact .cut (by omega)
  | succ left ih =>
      have below : steps < limit := by omega
      obtain ⟨instr, found⟩ := arena.live_node live
      rcases step : Node.step ⟨id, instr⟩ store with ⟨act, outcome⟩
      simp only [runFrom, node_eq_ok.mpr found, step]
      cases outcome with
      | next next after =>
          obtain ⟨v, -, -, target, -⟩ := Node.step_next step
          exact .next below found step (ih (by omega) (live.edge (by rwa [targets_eq found])))
      | returned v => exact .returned below found step
      | failed e => exact .failed below found step

/-! ## Two runs with different limits -/

/-- The first step of a run ends it or goes on, in the same way whatever number of steps is left. -/
theorem runFrom_first (g : Graph) (steps : Nat) (id : NodeId) (store : Store) (actions : List Action) :
    (∃ run : Run, run.steps = steps + 1 ∧ ∀ left, g.runFrom (left + 1) steps id store actions = run) ∨
    ∃ next after done, ∀ left,
      g.runFrom (left + 1) steps id store actions = g.runFrom left (steps + 1) next after done ∧
        ∀ ran, ∃ ran', g.pointsFrom (left + 1) id store ran =
          ⟨ran', after⟩ :: g.pointsFrom left next after ran' := by
  cases found : g.node? id with
  | none =>
      refine .inl ⟨⟨.error (.fault (.outsideGraph id g.size)), steps + 1, store, actions.reverse⟩, rfl, ?_⟩
      simp [runFrom, node, found]
  | some n =>
      rcases step : n.step store with ⟨act, outcome⟩
      simp only [runFrom, node, pointsFrom, found, step]
      cases outcome with
      | next next after =>
          obtain ⟨v, value, -, -, -⟩ := Node.step_next step
          exact .inr ⟨next, after, _, fun left => ⟨rfl, fun ran => ⟨_, by rw [value]⟩⟩⟩
      | returned v => exact .inl ⟨_, rfl, fun left => rfl⟩
      | failed e => exact .inl ⟨_, rfl, fun left => rfl⟩

theorem le_steps_runFrom (g : Graph) (left steps : Nat) (id : NodeId) (store : Store) (actions : List Action) :
    steps ≤ (g.runFrom left steps id store actions).steps := by
  obtain ⟨-, -, count⟩ := g.runFrom_points left steps id store actions []
  omega

theorem lt_steps_runFrom {left steps : Nat}
    (ended : ∀ count, (g.runFrom left steps id store actions).result ≠ .error (.error (.stepLimit count))) :
    steps < (g.runFrom left steps id store actions).steps := by
  cases left with
  | zero => exact absurd rfl (ended steps)
  | succ left =>
      rcases g.runFrom_first steps id store actions with ⟨run, count, same⟩ | ⟨next, after, done, same⟩
      · rw [same left, count]
        exact Nat.lt_succ_self steps
      · rw [(same left).1]
        exact g.le_steps_runFrom left (steps + 1) next after done

theorem runFrom_enough {left more steps : Nat}
    (ended : ∀ count, (g.runFrom left steps id store actions).result ≠ .error (.error (.stepLimit count)))
    (enough : (g.runFrom left steps id store actions).steps ≤ steps + more) :
    g.runFrom more steps id store actions = g.runFrom left steps id store actions := by
  induction left generalizing more steps id store actions with
  | zero => exact absurd rfl (ended steps)
  | succ left ih =>
      have least := lt_steps_runFrom ended
      obtain ⟨more, rfl⟩ : ∃ k, more = k + 1 := ⟨more - 1, by omega⟩
      rcases g.runFrom_first steps id store actions with ⟨run, count, same⟩ | ⟨next, after, done, same⟩
      · rw [same left, same more]
      · rw [(same left).1] at ended enough ⊢
        rw [(same more).1]
        exact ih ended (by omega)

/-- If fewer steps are left than a run takes, it is cut off after them, with the variables that it
    had at that point. -/
theorem runFrom_short {left few steps : Nat} (less : steps + few < (g.runFrom left steps id store actions).steps)
    (ran : List (NodeId × Value)) :
    let run := g.runFrom few steps id store actions
    run.result = .error (.error (.stepLimit run.steps)) ∧ run.steps = steps + few ∧
      (store :: (g.pointsFrom left id store ran).map (·.store))[few]? = some run.store := by
  induction few generalizing left steps id store actions ran with
  | zero => exact ⟨rfl, rfl, rfl⟩
  | succ few ih =>
      cases left with
      | zero =>
          simp only [runFrom] at less
          omega
      | succ left =>
          rcases g.runFrom_first steps id store actions with ⟨run, count, same⟩ | ⟨next, after, done, same⟩
          · rw [same left] at less
            omega
          · obtain ⟨run, points⟩ := same left
            obtain ⟨ran', first⟩ := points ran
            rw [run] at less
            have less' : steps + 1 + few < (g.runFrom left (steps + 1) next after done).steps := by omega
            obtain ⟨result, count, there⟩ := ih less' ran'
            rw [(same few).1, first]
            exact ⟨result, by omega, there⟩

/-- The limit only cuts a run off. Under every limit the loop of the machine ends, without a fault
    and with no more steps than the limit allows, or none if it is negative. If a run ends otherwise
    than by its limit, it is the same run under every limit that is no less than its number of
    steps; and under every other limit it is cut off when that is reached, with the variables that
    the longer run had after so many steps. -/
theorem run_limit_truncates {g : Graph} (built : g.Built) (wf : g.WellFormed) (store : Store) :
    (∀ limit : Int,
      g.Loops limit 0 g.entry store [] (g.run limit store) ∧
        (∀ fault, (g.run limit store).result ≠ .error (.fault fault)) ∧
        (g.run limit store).steps ≤ max limit 0) ∧
    ∀ long : Int, (∀ count, (g.run long store).result ≠ .error (.error (.stepLimit count))) →
      (∀ limit : Int, (g.run long store).steps ≤ limit → g.run limit store = g.run long store) ∧
      ∀ limit : Int, limit < (g.run long store).steps →
        (g.run limit store).result = .error (.error (.stepLimit (g.run limit store).steps)) ∧
          (g.run limit store).steps = max limit 0 ∧
          (store :: (g.points long store).map (·.store))[limit.toNat]? = some (g.run limit store).store := by
  have arena := built.arena
  constructor
  · intro limit
    have loops : g.Loops limit 0 g.entry store [] (g.run limit store) := arena.loops (by simp) (.entry g)
    exact ⟨loops, arena.run_no_fault wf limit store, loops.steps_le⟩
  · intro long ended
    simp only [run, points] at ended ⊢
    have least := lt_steps_runFrom ended
    refine ⟨fun limit enough => runFrom_enough ended (by omega), fun limit less => ?_⟩
    -- Also if the limit is negative, since the longer run has made a step.
    have short : 0 + limit.toNat < (g.runFrom long.toNat 0 g.entry store []).steps := by omega
    obtain ⟨result, count, there⟩ := runFrom_short short []
    exact ⟨result, by omega, there⟩

/-- Three times round the loop and the return are ten steps. The ninth is the last test of the loop,
    and a limit of nine leaves no step for the return. -/
theorem run_limit_truncates_enteredInBody :
    let g := build enteredInBody
    let store : Store := (∅ : Store).insert "x" (.ofInt 0)
    g.Built ∧ g.WellFormed ∧ (g.run 100 store).steps = 10 ∧
      (∀ limit : Int, 10 ≤ limit → (g.run limit store).result = .ok (.ofInt 7)) ∧
      (g.run 9 store).result = .error (.error (.stepLimit 9)) ∧
      (g.run (-1) store).result = .error (.error (.stepLimit 0)) := by
  intro g store
  have built : g.Built := ⟨_, rfl⟩
  have wf : g.WellFormed := forall_live (by decide)
  have value : (g.run 100 store).result = .ok (.ofInt 7) := by decide
  have ten : (g.run 100 store).steps = 10 := by decide
  obtain ⟨-, truncates⟩ := run_limit_truncates built wf store
  obtain ⟨enough, short⟩ := truncates 100 (by simp [value])
  have cut : ∀ limit : Int, limit < 10 →
      (g.run limit store).result = .error (.error (.stepLimit limit.toNat)) := by
    intro limit below
    obtain ⟨result, count, -⟩ := short limit (by omega)
    rw [result, show (g.run limit store).steps = limit.toNat by omega]
  refine ⟨built, wf, ten, fun limit above => ?_, cut 9 (by decide), cut (-1) (by decide)⟩
  rw [enough limit (by omega), value]

end FlowFold.Graph
