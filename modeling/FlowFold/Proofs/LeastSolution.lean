import FlowFold.Proofs.Worklist

/-! # The analysis computes the least solution

When the queue is empty, every live node has been reached and satisfies its equation. A
schedule never commits more than a solution says, so the family it ends with is the
solution that says the least, whatever the order of the visits was. The analysis is one
of these schedules, and its budget lets it run until the queue is empty.
-/

namespace FlowFold

namespace Graph

theorem exists_key_of_mem_targets {g : Graph} {a b : NodeId} {n : Node} (found : g.node? a = some n)
    (edge : b ∈ g.targets a) : ∃ k, n.key? = some k := by
  obtain ⟨id, instr⟩ := n
  rw [targets_eq found] at edge
  cases instr with
  | quit => simp [Node.successors] at edge
  | assign | ret | branch | loop => exact ⟨_, rfl⟩

variable {g : Graph} {family : OutMap}

theorem Solution.leaving (solution : g.Solution family) {id : NodeId} (live : g.Live id) :
    g.leaving g.predecessors family id = .ok (family.getD id ∅) := by
  have here := getElem?_out ((solution.domain id).mpr live)
  exact leaving_eq_ok.mpr (solution.equation id _ here)

theorem Solution.eq {family' : OutMap} (solution : g.Solution family) (solution' : g.Solution family')
    (le : ∀ id, g.Live id → (family.getD id ∅).Below (family'.getD id ∅))
    (ge : ∀ id, g.Live id → (family'.getD id ∅).Below (family.getD id ∅)) : family = family' := by
  refine Std.ExtTreeMap.ext_getElem? fun id => ?_
  by_cases live : g.Live id
  · have here := getElem?_out ((solution.domain id).mpr live)
    have here' := getElem?_out ((solution'.domain id).mpr live)
    rw [here, here', Env.Below.antisymm (solution.plain id _ here) (solution'.plain id _ here')
      (le id live) (ge id live)]
  · rw [Std.ExtTreeMap.getElem?_eq_none fun member => live ((solution.domain id).mp member),
      Std.ExtTreeMap.getElem?_eq_none fun member => live ((solution'.domain id).mp member)]

end Graph

namespace Progress

variable {g : Graph} {p : Progress}

/-- With nothing left to visit, every live node satisfies its equation. The induction is
    along a path to the node: a node on the path has left its own key, so the next one
    has been reached. -/
theorem Inv.settled_all (arena : g.Arena) (inv : Inv g p) (empty : p.queue = []) {id : NodeId}
    (live : g.Live id) : g.leaving g.predecessors p.out id = .ok (p.out.getD id ∅) := by
  have off : ∀ x, x ∉ p.queue := by simp [empty]
  induction live with
  | refl => exact inv.settled _ (.entry g) (off _) (.inl rfl)
  | tail before edge ih =>
      rename_i a b
      refine inv.settled b (.edge before edge) (off b) (.inr ⟨a, before, edge, ?_⟩)
      obtain ⟨n, found⟩ := Graph.exists_node?_of_mem_targets edge
      obtain ⟨k, own⟩ := Graph.exists_key_of_mem_targets found edge
      exact Std.ExtTreeMap.ne_empty_of_mem ((arena.mem_leaving found ih).mpr (.inl own))

theorem Inv.solution (arena : g.Arena) (inv : Inv g p) (empty : p.queue = []) : g.Solution p.out where
  domain := inv.domain
  plain := by
    intro id env here
    rw [← Graph.getD_out here]
    exact inv.plain id
  equation := by
    intro id env here
    have live := (inv.domain id).mp (mem_iff_entry.mpr ⟨env, here⟩)
    rw [← Graph.getD_out here]
    exact Graph.leaving_eq_ok.mp (inv.settled_all arena empty live)

theorem steps_below (arena : g.Arena) {family : OutMap} (solution : g.Solution family)
    (steps : Steps g (start g) p) :
    ∀ id, g.Live id → (p.out.getD id ∅).Below (family.getD id ∅) := by
  refine steps_all (fun id env => env.Below (family.getD id ∅)) (fun id => .empty _) ?_ steps
  intro out id env below live leaves
  exact arena.leaving_mono below leaves (solution.leaving live)

theorem visits_step {q : Progress} (step : Step g p q) : q.visits = p.visits + 1 := by
  obtain ⟨before, id, after, queue, done⟩ := step
  obtain ⟨n, env, found, leaves, ⟨rfl, rfl⟩ | ⟨new, rfl⟩⟩ := visit_eq_ok.mp done
  · rfl
  · rfl

/-- If the analysis does not meet a fault within a budget, it makes the steps of a schedule until
    the queue is empty or the budget is used up. -/
theorem steps_of_work {budget : Nat} {q : Progress} (worked : work g g.predecessors budget p = (q, none)) :
    Steps g p q ∧ (q.queue = [] ∨ q.visits = p.visits + budget) := by
  induction budget generalizing p with
  | zero =>
      cases worked
      exact ⟨.refl, .inr rfl⟩
  | succ budget ih =>
      cases queue : p.queue with
      | nil =>
          simp only [work, queue, Prod.mk.injEq, and_true] at worked
          exact worked ▸ ⟨.refl, .inl queue⟩
      | cons id rest =>
          cases done : (p.take id rest).visit g g.predecessors id with
          | error f => simp [work, queue, done] at worked
          | ok next =>
              have step : Step g p next := ⟨[], id, rest, queue, done⟩
              obtain ⟨steps, ends⟩ := ih (by simpa [work, queue, done] using worked)
              refine ⟨.head step steps, ends.imp_right fun visits => ?_⟩
              rw [visits, visits_step step]
              omega

theorem work_total (arena : g.Arena) (complete : g.Complete) (budget : Nat) (p : Progress)
    (inv : Inv g p) : ∃ q, work g g.predecessors budget p = (q, none) := by
  induction budget generalizing p with
  | zero => exact ⟨p, rfl⟩
  | succ budget ih =>
      cases queue : p.queue with
      | nil => exact ⟨p, by simp [work, queue]⟩
      | cons id rest =>
          have live := inv.queued id (by rw [queue]; exact List.mem_cons_self)
          have split : p.queue = [] ++ id :: rest := queue
          obtain ⟨next, done, step⟩ := exists_step arena complete split live
          obtain ⟨q, worked⟩ := ih next (inv.step arena step)
          rw [List.nil_append] at done
          exact ⟨q, by simp [work, queue, done, worked]⟩

theorem done_of_work (arena : g.Arena) {q : Progress}
    (worked : work g g.predecessors g.visitBudget (start g) = (q, none)) :
    Steps g (start g) q ∧ q.queue = [] := by
  obtain ⟨steps, ends⟩ := steps_of_work worked
  refine ⟨steps, ends.elim id fun visits => ?_⟩
  have bound := ((Inv.start arena).steps arena steps).visits_le
  have used : q.visits = g.visitBudget := by rw [visits, start, Nat.zero_add]
  exact List.eq_nil_of_length_eq_zero (by omega)

end Progress

theorem Analysis.steps_of_run {g : Graph} (arena : g.Arena) {earlier a : Analysis}
    (run : earlier.run g = (a, none)) :
    ∃ p, Progress.Steps g (.start g) p ∧ p.queue = [] ∧
      Progress.work g g.predecessors g.visitBudget (.start g) = (p, none) ∧
      a = ⟨p.out, p.visits, p.commits, p.events.reverse, true⟩ := by
  rcases worked : Progress.work g g.predecessors g.visitBudget (.start g) with ⟨p, fault⟩
  simp only [Analysis.run, worked, Prod.mk.injEq] at run
  obtain ⟨rfl, rfl⟩ := run
  obtain ⟨steps, empty⟩ := Progress.done_of_work arena worked
  exact ⟨p, steps, empty, rfl, by simp⟩

theorem Analysis.run_total {g : Graph} (arena : g.Arena) (complete : g.Complete) (earlier : Analysis) :
    ∃ a, earlier.run g = (a, none) := by
  obtain ⟨p, worked⟩ := Progress.work_total arena complete g.visitBudget _ (Progress.Inv.start arena)
  exact ⟨(earlier.run g).1, Prod.ext rfl (by simp only [Analysis.run, worked])⟩

/-- A run without a fault has left every live node, so it has evaluated all their expressions. -/
theorem Analysis.complete_of_run {g : Graph} (arena : g.Arena) {earlier a : Analysis}
    (run : earlier.run g = (a, none)) : g.Complete := by
  obtain ⟨p, steps, empty, -, -⟩ := steps_of_run arena run
  have inv := (Progress.Inv.start arena).steps arena steps
  intro id n live found
  obtain ⟨n', found', complete⟩ := Graph.complete_of_leaving (inv.settled_all arena empty live)
  cases found.symm.trans found'
  exact complete

/-- What an analysis has found, if it has found it by schedules: a solution, without keys
    that no live node records. -/
structure Graph.Analysed (g : Graph) (out : OutMap) : Prop where
  arena : g.Arena
  solution : g.Solution out
  records : ∀ id, ∀ k ∈ out.getD id ∅, g.Records k

theorem Graph.Analysed.outAt {g : Graph} {a : Analysis} (analysed : g.Analysed a.out)
    (hasRun : a.hasRun = true) {id : NodeId} (live : g.Live id) :
    a.outAt id = .ok (some (a.out.getD id ∅)) := by
  rw [Analysis.outAt, Analysis.require, if_pos hasRun,
    getElem?_out ((analysed.solution.domain id).mpr live)]
  rfl

theorem Analysis.stats_eq {a : Analysis} (hasRun : a.hasRun = true) : a.stats = .ok (a.visits, a.commits) := by
  rw [Analysis.stats, Analysis.require, if_pos hasRun]
  rfl

theorem Analysis.analysed_of_run {g : Graph} (arena : g.Arena) {earlier a : Analysis}
    (run : earlier.run g = (a, none)) : a.hasRun = true ∧ g.Analysed a.out := by
  obtain ⟨p, steps, empty, -, rfl⟩ := steps_of_run arena run
  have inv := (Progress.Inv.start arena).steps arena steps
  exact ⟨rfl, arena, inv.solution arena empty, inv.records⟩

theorem Analysis.run_analysed {g : Graph} (arena : g.Arena) (complete : g.Complete)
    (earlier : Analysis) :
    ∃ a, earlier.run g = (a, none) ∧ a.hasRun = true ∧ g.Analysed a.out := by
  obtain ⟨a, run⟩ := run_total arena complete earlier
  exact ⟨a, run, analysed_of_run arena run⟩

/-- The analysis gives the solution that says the least, and so does every schedule: no
    schedule meets a fault or goes on forever, and all end with the same family. -/
theorem Analysis.run_least_solution {g : Graph} (built : g.Built) (complete : g.Complete)
    (earlier : Analysis) :
    ∃ a, earlier.run g = (a, none) ∧ (∀ id, a.outAt id = .ok a.out[id]?) ∧
      g.Solution a.out ∧
      (∀ family, g.Solution family → ∀ (id : NodeId) (env env' : Env),
        a.out[id]? = some env → family[id]? = some env' → env.Below env') ∧
      (∀ p, Progress.Steps g (.start g) p →
        (∀ before id after, p.queue = before ++ id :: after →
          ∃ q, (p.take id (before ++ after)).visit g g.predecessors id = .ok q) ∧
        (p.queue = [] → p.out = a.out)) ∧
      ¬ ∃ schedule : Nat → Progress, schedule 0 = .start g ∧
        ∀ i, Progress.Step g (schedule i) (schedule (i + 1)) := by
  have arena := built.arena
  obtain ⟨a, run⟩ := Analysis.run_total arena complete earlier
  obtain ⟨p, steps, empty, -, rfl⟩ := Analysis.steps_of_run arena run
  have inv {q : Progress} (steps : Progress.Steps g (.start g) q) : q.Inv g :=
    (Progress.Inv.start arena).steps arena steps
  have solution : g.Solution p.out := (inv steps).solution arena empty
  refine ⟨_, run, fun _ => rfl, solution, ?_, ?_, ?_⟩
  · intro family other id env env' here here'
    have live := (solution.domain id).mp (mem_iff_entry.mpr ⟨env, here⟩)
    rw [← Graph.getD_out here, ← Graph.getD_out here']
    exact Progress.steps_below arena other steps id live
  · intro q stepsQ
    refine ⟨fun before id after queue => ?_, fun emptyQ => ?_⟩
    · have live := (inv stepsQ).queued id (by rw [queue]; simp)
      obtain ⟨r, done, -⟩ := Progress.exists_step arena complete queue live
      exact ⟨r, done⟩
    · have solutionQ := (inv stepsQ).solution arena emptyQ
      exact solutionQ.eq solution (Progress.steps_below arena solution stepsQ)
        (Progress.steps_below arena solutionQ steps)
  · rintro ⟨schedule, first, next⟩
    have along : ∀ i, Progress.Steps g (.start g) (schedule i) ∧ (schedule i).visits = i := by
      intro i
      induction i with
      | zero => exact ⟨first ▸ .refl, by rw [first]; rfl⟩
      | succ i ih => exact ⟨.tail ih.1 (next i), by rw [Progress.visits_step (next i), ih.2]⟩
    have beyond := along (g.visitBudget + 1)
    have bound := (inv beyond.1).visits_le
    omega

theorem Analysis.run_least_solution_enteredInBody :
    (Graph.build Graph.enteredInBody).Built ∧ (Graph.build Graph.enteredInBody).Complete ∧
      ∃ a, Analysis.new.run (Graph.build Graph.enteredInBody) = (a, none) ∧
        (Graph.build Graph.enteredInBody).Solution a.out := by
  have built : (Graph.build Graph.enteredInBody).Built := ⟨_, rfl⟩
  have complete : (Graph.build Graph.enteredInBody).Complete := Graph.forall_live (by decide)
  obtain ⟨a, run, -, solution, -⟩ := Analysis.run_least_solution built complete .new
  exact ⟨built, complete, a, run, solution⟩

end FlowFold
