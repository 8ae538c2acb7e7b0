import FlowFold.Proofs.Occurrences
import FlowFold.Proofs.Routes

/-! # Variables read before they are assigned

A check warns about a variable exactly if the graph has a route to a node that mentions it
and no node before assigns it. So a program without such warnings reads nothing but its
inputs and what it has assigned itself. Two runs from variables that agree on the inputs
go the same way, node by node, and never meet a variable without a value.
-/

namespace FlowFold

theorem Expr.named_of_report {e : Expr} {dead : Bool} {assigned : Assigned} {place : Place}
    (clean : (e.report dead assigned place).errors = []) : "" ∉ e.names := by
  induction e generalizing place with
  | const | missing | hollow | foreign => exact List.not_mem_nil
  | var name =>
      intro unnamed
      obtain rfl := List.mem_singleton.mp unnamed
      cases clean
  | binary op left right ihl ihr =>
      obtain ⟨clean', cleanRight⟩ := Report.append_clean clean
      simpa [names] using ⟨ihl (Report.append_clean clean').2, ihr cleanRight⟩

theorem Instr.Does.reads {instr : Instr} {s : Stmt} (does : instr.Does s) (id : NodeId) :
    ∃ e, Node.expression ⟨id, instr⟩ = some e ∧ e.names = s.reads := by
  unfold Does at does
  split at does
  · obtain ⟨-, rfl⟩ := does
    exact ⟨_, rfl, rfl⟩
  · subst does
    exact ⟨_, rfl, rfl⟩
  · subst does
    exact ⟨_, rfl, rfl⟩
  · subst does
    exact ⟨_, rfl, rfl⟩
  · cases does

namespace Graph

/-- A route leads from the entry to a node that mentions the variable, and no node before the last
    one assigns it. -/
def MayRead (g : Graph) (x : String) : Prop :=
  ∃ steps id n e, g.Route g.entry steps id ∧ (∀ step ∈ steps, ¬ g.Assigns step.1 x) ∧
    g.node? id = some n ∧ n.expression = some e ∧ x ∈ e.names

variable {g : Graph} {x : String}

theorem route_iff {a b : NodeId} :
    (∃ steps, g.Route a steps b ∧ ∀ step ∈ steps, ¬ g.Assigns step.1 x) ↔
      Relation.ReflTransGen (g.Onward (some x)) a b := by
  constructor
  · rintro ⟨steps, route, free⟩
    induction route with
    | nil => exact .refl
    | cons edge _ ih =>
        have onward : g.Onward (some x) _ _ :=
          ⟨List.mem_map_of_mem edge, by simpa using free _ List.mem_cons_self⟩
        exact .head onward (ih fun step member => free step (List.mem_cons_of_mem _ member))
  · intro path
    induction path using Relation.ReflTransGen.head_induction_on with
    | refl => exact ⟨[], .nil, by simp⟩
    | head onward _ ih =>
        obtain ⟨steps, route, free⟩ := ih
        obtain ⟨e, edge, rfl⟩ := List.mem_map.mp onward.1
        exact ⟨_, .cons edge route, List.forall_mem_cons.mpr ⟨onward.2 x rfl, free⟩⟩

theorem mayRead_iff_onward : g.MayRead x ↔ ∃ id n e, Relation.ReflTransGen (g.Onward (some x)) g.entry id ∧
    g.node? id = some n ∧ n.expression = some e ∧ x ∈ e.names := by
  simp only [← route_iff]
  constructor
  · rintro ⟨steps, id, n, e, route, free, mentions⟩
    exact ⟨id, n, e, ⟨steps, route, free⟩, mentions⟩
  · rintro ⟨id, n, e, ⟨steps, route, free⟩, mentions⟩
    exact ⟨steps, id, n, e, route, free, mentions⟩

theorem mayRead_iff_readAt (arena : g.Arena) {program : Stmt} {top : Nat}
    (spans : program.Spans g 0 1 g.entry top) :
    g.MayRead x ↔ Stmt.ReadAt (program.sites (some x) true [] 1) x := by
  simp only [mayRead_iff_onward, onward_iff arena spans]
  constructor
  · rintro ⟨id, n, e, ⟨rfl, -⟩ | ⟨site, member, here, rfl⟩, found, has, mentioned⟩
    · rw [arena.node_zero] at found
      cases found
      cases has
    · obtain ⟨instr, node, does⟩ := Stmt.Spans.does program spans member
      obtain ⟨e', has', reads⟩ := does.reads site.id
      rw [node] at found
      cases found
      rw [has'] at has
      cases has
      exact ⟨site, member, here, reads ▸ mentioned⟩
  · rintro ⟨site, member, here, read⟩
    obtain ⟨instr, node, does⟩ := Stmt.Spans.does program spans member
    obtain ⟨e, has, reads⟩ := does.reads site.id
    exact ⟨site.id, _, e, .inr ⟨site, member, here, rfl⟩, node, has, reads ▸ read⟩

/-- The graph of a checked program may read exactly the variables that the check warns about, and
    perhaps the inputs. -/
theorem warns_iff_mayRead (arena : g.Arena) {program : Stmt} {top : Nat}
    (spans : program.Spans g 0 1 g.entry top)
    (named : ∀ id n e, g.node? id = some n → n.expression = some e → "" ∉ e.names) (inputs : List String)
    (x : String) : (findings program inputs).Warns x ↔ x ∉ inputs ∧ g.MayRead x := by
  rw [findings, Stmt.warns_report program false inputs [] 1]
  by_cases given : x ∈ inputs
  · simp [given, Assigned.lacks]
  · have lacks : (!false && Assigned.lacks (some x) (some inputs)) = true := by simp [Assigned.lacks, given]
    rw [lacks, ← mayRead_iff_readAt arena spans]
    refine ⟨fun warns => ⟨given, warns.2⟩, fun reads => ⟨?_, reads.2⟩⟩
    obtain ⟨-, -, id, n, e, -, -, found, has, mentioned⟩ := reads
    rintro rfl
    exact named id n e found has mentioned

/-- For every checked program, all inputs and every variable: the check warns that the variable may
    be unassigned exactly if it is no input and the graph has a route from the entry to a node that
    mentions it, on which no node before the last one assigns it. -/
theorem warning_iff_route {program : Stmt} {inputs : List String} {report : Report}
    (checked : check program inputs = .ok report) (clean : report.errors = []) :
    ∃ g, ofProgram program = .ok g ∧ ∀ x, report.Warns x ↔ x ∉ inputs ∧ g.MayRead x := by
  obtain ⟨-, rfl⟩ := check_eq_ok.mp checked
  obtain ⟨g, formed, arena, named, spans, -⟩ :=
    (Stmt.all_of_report (fun _ _ _ _ => Expr.named_of_report) clean).spans
  exact ⟨g, formed, warns_iff_mayRead arena spans named inputs⟩

end Graph

/-- Both branches assign `y`, but the loop need not run, and then nothing assigns `x`. -/
def Stmt.skippedLoop : Stmt :=
  .block
    [.ite (.var "c") (.set "y" (.int 1)) (.set "y" (.int 2)),
      .while (.var "c") (.set "x" (.var "y")),
      .ret (.binary .add (.var "x") (.var "y"))]

theorem Graph.warning_iff_route_skippedLoop :
    (∃ report, check Stmt.skippedLoop ["c"] = .ok report ∧ report.errors = []) ∧
      ∃ g, ofProgram Stmt.skippedLoop = .ok g ∧ g.MayRead "x" ∧ ¬ g.MayRead "y" := by
  have checked : check Stmt.skippedLoop ["c"] = .ok (findings Stmt.skippedLoop ["c"]) := by rfl
  have clean : (findings Stmt.skippedLoop ["c"]).errors = [] := by decide
  obtain ⟨g, formed, warning⟩ := warning_iff_route checked clean
  refine ⟨⟨_, checked, clean⟩, g, formed, ((warning "x").mp ?_).2, fun reads => ?_⟩
  · decide
  · exact absurd ((warning "y").mpr ⟨by decide, reads⟩) (by decide)

/-! ## Runs from the inputs -/

namespace Expr

variable {e : Expr} {store store' : Store}

theorem eval_congr (agree : ∀ x ∈ e.names, store[x]? = store'[x]?) : e.eval store = e.eval store' := by
  induction e with
  | var name => simp only [eval, agree name List.mem_cons_self]
  | binary op left right ihl ihr =>
      simp only [eval]
      rw [ihl fun x member => agree x (List.mem_append_left _ member),
        ihr fun x member => agree x (List.mem_append_right _ member)]
  | const | missing | hollow | foreign => rfl

theorem eval_undefined {name : String} (failed : e.eval store = .error (.error (.undefined name))) :
    name ∈ e.names ∧ store[name]? = none := by
  induction e with
  | const v => cases failed
  | var x =>
      simp only [eval] at failed
      split at failed <;> cases failed
      exact ⟨List.mem_cons_self, ‹_›⟩
  | binary op left right ihl ihr =>
      rcases eval_binary_failed failed with ⟨fault, -, same⟩ | inLeft | inRight | ⟨l, r, same⟩
      · cases same
      · exact (ihl inLeft).imp_left (List.mem_append_left _)
      · exact (ihr inRight).imp_left (List.mem_append_right _)
      · cases same
  | missing | hollow | foreign => cases failed

theorem test_undefined {name : String} (failed : e.test store = .error (.error (.undefined name))) :
    name ∈ e.names ∧ store[name]? = none := by
  cases value : e.eval store with
  | error f =>
      simp only [test, value, bind, Except.bind, Except.error.injEq] at failed
      exact eval_undefined (failed ▸ value)
  | ok v =>
      cases flat : e.flatText with
      | error f => simp [test, value, flat, Except.mapError, bind, Except.bind] at failed
      | ok text =>
          rw [test_of_flatText flat, value] at failed
          simp only at failed
          split at failed <;> cases failed

end Expr

namespace Node

variable {n : Node} {store store' : Store}

/-- A step from variables that agree on those the node reads does the same, and leads to the same
    node or to the same end. -/
theorem step_congr (agree : ∀ e, n.expression = some e → ∀ x ∈ e.names, store[x]? = store'[x]?) :
    (∃ act next v, act = n.action v ∧ n.step store = (act, .next next (n.after v store)) ∧
        n.step store' = (act, .next next (n.after v store'))) ∨
      n.step store' = n.step store ∧ ∀ next after, (n.step store).2 ≠ .next next after := by
  obtain ⟨id, instr⟩ := n
  cases instr with
  | quit => exact .inr ⟨rfl, by simp [step]⟩
  | ret result =>
      have same := Expr.eval_congr (agree result rfl)
      refine .inr ?_
      simp only [step, same]
      cases result.eval store' <;> exact ⟨trivial, by simp⟩
  | assign name value next =>
      have same := Expr.eval_congr (agree value rfl)
      simp only [step, same]
      cases value.eval store' with
      | error f => exact .inr ⟨rfl, by simp⟩
      | ok v => exact .inl ⟨_, next, v, rfl, rfl, rfl⟩
  | branch cond | loop cond =>
      have same : cond.test store = cond.test store' := by
        simp only [Expr.test, Expr.eval_congr (agree cond rfl)]
      simp only [step, same]
      cases tested : cond.test store' with
      | error f => exact .inr ⟨rfl, by simp⟩
      | ok r =>
          obtain ⟨v, -, flat, -, flag⟩ := Expr.test_eq_ok.mp tested
          exact .inl ⟨_, _, v, by simp [action, flat, flag, Except.toOption], rfl, rfl⟩

theorem step_undefined {act : Option Action} {name : String}
    (step : n.step store = (act, .failed (.error (.undefined name)))) :
    ∃ e, n.expression = some e ∧ name ∈ e.names ∧ store[name]? = none := by
  obtain ⟨id, instr⟩ := n
  cases instr with
  | quit => cases step
  | assign name value | ret value =>
      simp only [Node.step] at step
      split at step <;> cases step
      exact ⟨value, rfl, Expr.eval_undefined ‹_›⟩
  | branch cond | loop cond =>
      simp only [Node.step] at step
      split at step <;> cases step
      exact ⟨cond, rfl, Expr.test_undefined ‹_›⟩

theorem step_assign {act : Option Action} {outcome : Outcome} {x : String} {v : Value}
    (step : n.step store = (act, outcome)) (assigns : act = some (.assign x v)) :
    ∃ next after, outcome = .next next after := by
  obtain ⟨id, instr⟩ := n
  subst assigns
  cases instr with
  | quit => cases step
  | assign =>
      simp only [Node.step] at step
      split at step <;> cases step
      exact ⟨_, _, rfl⟩
  | ret | branch | loop =>
      simp only [Node.step] at step
      split at step <;> cases step

theorem assigns_iff {x : String} {v : Value} : n.Assigns x ↔ ∃ w, n.action v = some (.assign x w) := by
  obtain ⟨id, instr⟩ := n
  cases instr <;> simp [Assigns, action]

theorem getElem?_after_self {x : String} {v : Value} (assigns : n.Assigns x) :
    (n.after v store)[x]? = some v := by
  obtain ⟨value, next, instr⟩ := assigns
  simp [after, instr]

theorem getElem?_after_other {x : String} {v : Value} (other : ¬ n.Assigns x) :
    (n.after v store)[x]? = store[x]? := by
  obtain ⟨id, instr⟩ := n
  cases instr with
  | assign name value next =>
      have apart : name ≠ x := by simpa [Assigns] using other
      simp [after, Std.ExtTreeMap.getElem?_insert, apart]
  | branch | loop | ret | quit => rfl

end Node

/-- The variable is an input, or an action has assigned it. -/
def Given (inputs : List String) (actions : List Action) (x : String) : Prop :=
  x ∈ inputs ∨ ∃ v, Action.assign x v ∈ actions

/-- The stores have the same values for what is given. -/
def Store.Agree (inputs : List String) (actions : List Action) (store store' : Store) : Prop :=
  ∀ x, Given inputs actions x → ∃ v, store[x]? = some v ∧ store'[x]? = some v

/-- Two runs do the same and end the same way, though not because a variable has no value. They
    leave the same values in the inputs and in all variables that they assign. -/
structure Run.Alike (inputs : List String) (a b : Run) : Prop where
  result : a.result = b.result
  steps : a.steps = b.steps
  actions : a.actions = b.actions
  defined : ∀ name, a.result ≠ .error (.error (.undefined name))
  store : Store.Agree inputs a.actions a.store b.store

namespace Store.Agree

variable {inputs : List String} {actions : List Action} {store store' : Store}

theorem after (agree : Agree inputs actions store store') (n : Node) (v : Value) :
    Agree inputs ((n.action v).toList ++ actions) (n.after v store) (n.after v store') := by
  intro x given
  by_cases assigns : n.Assigns x
  · exact ⟨v, Node.getElem?_after_self assigns, Node.getElem?_after_self assigns⟩
  · rw [Node.getElem?_after_other assigns, Node.getElem?_after_other assigns]
    refine agree x (given.imp_right fun ⟨w, member⟩ => ⟨w, ?_⟩)
    refine (List.mem_append.mp member).resolve_left fun own => assigns ?_
    exact Node.assigns_iff.mpr ⟨w, Option.mem_toList.mp own⟩

theorem of_assigned {actions' : List Action} (agree : Agree inputs actions store store')
    (assigned : ∀ x v, Action.assign x v ∈ actions' → Action.assign x v ∈ actions) :
    Agree inputs actions' store store' :=
  fun x given => agree x (given.imp_right fun ⟨v, member⟩ => ⟨v, assigned x v member⟩)

end Store.Agree

namespace Graph

variable {g : Graph}

/-- A run that has come to a node without assigning a variable has come there on a path that does
    not assign it. -/
def CameTo (g : Graph) (actions : List Action) (id : NodeId) : Prop :=
  ∀ x, (∀ v, Action.assign x v ∉ actions) → Relation.ReflTransGen (g.Onward (some x)) g.entry id

theorem CameTo.step {actions : List Action} {id next : NodeId} {n : Node} {v : Value}
    (came : g.CameTo actions id) (found : g.node? id = some n)
    (target : next ∈ n.successors.map (·.target)) : g.CameTo ((n.action v).toList ++ actions) next := by
  intro x unassigned
  have before := came x fun w member => unassigned w (List.mem_append_right _ member)
  refine before.tail ⟨by rwa [targets_eq found], ?_⟩
  rintro _ ⟨⟩ ⟨n', found', assigns⟩
  obtain rfl := Option.some.inj (found.symm.trans found')
  obtain ⟨w, own⟩ := Node.assigns_iff.mp assigns
  exact unassigned w (List.mem_append_left _ (Option.mem_toList.mpr own))

/-- What is read at a node is given, if the graph reads nothing else before it is assigned. -/
theorem CameTo.given {inputs : List String} {actions : List Action} {id : NodeId} {n : Node}
    (came : g.CameTo actions id) (covered : ∀ x, g.MayRead x → x ∈ inputs)
    (found : g.node? id = some n) {e : Expr} (has : n.expression = some e) {x : String}
    (mentioned : x ∈ e.names) : Given inputs actions x := by
  by_cases assigned : ∃ v, Action.assign x v ∈ actions
  · exact .inr assigned
  · have path := came x (not_exists.mp assigned)
    exact .inl (covered x (mayRead_iff_onward.mpr ⟨id, n, e, path, found, has, mentioned⟩))

theorem runFrom_alike {inputs : List String} (covered : ∀ x, g.MayRead x → x ∈ inputs) (left steps : Nat)
    {id : NodeId} {store store' : Store} {actions : List Action} (came : g.CameTo actions id)
    (agree : Store.Agree inputs actions store store') :
    Run.Alike inputs (g.runFrom left steps id store actions) (g.runFrom left steps id store' actions) := by
  induction left generalizing steps id store store' actions with
  | zero => exact ⟨rfl, rfl, rfl, by simp [runFrom], agree.of_assigned (by simp [runFrom])⟩
  | succ left ih =>
      cases found : g.node id with
      | error f =>
          simp only [runFrom, found]
          exact ⟨rfl, rfl, rfl, by simp, agree.of_assigned (by simp)⟩
      | ok n =>
          have node := node_eq_ok.mp found
          have read : ∀ e, n.expression = some e → ∀ x ∈ e.names,
              ∃ v, store[x]? = some v ∧ store'[x]? = some v :=
            fun e has x mentioned => agree x (came.given covered node has mentioned)
          have same : ∀ e, n.expression = some e → ∀ x ∈ e.names, store[x]? = store'[x]? := by
            intro e has x mentioned
            obtain ⟨v, here, there⟩ := read e has x mentioned
            rw [here, there]
          rcases Node.step_congr same with ⟨act, next, v, rfl, step, step'⟩ | ⟨step', ends⟩
          · obtain ⟨-, -, -, target, -⟩ := Node.step_next step
            simp only [runFrom, found, step, step']
            exact ih (steps + 1) (came.step node target) (agree.after n v)
          · rcases step : n.step store with ⟨act, outcome⟩
            rw [step] at ends
            -- a step that ends the run assigns nothing
            have last : Store.Agree inputs (act.toList ++ actions).reverse store store' := by
              refine agree.of_assigned fun x v member => ?_
              rcases List.mem_append.mp (List.mem_reverse.mp member) with own | before
              · obtain ⟨next, after, goes⟩ := Node.step_assign step (Option.mem_toList.mp own)
                exact absurd goes (ends next after)
              · exact before
            simp only [runFrom, found, step', step]
            cases outcome with
            | next id after => exact absurd rfl (ends id after)
            | returned v => exact ⟨rfl, rfl, rfl, by simp, last⟩
            | failed f =>
                refine ⟨rfl, rfl, rfl, ?_, last⟩
                rintro name ⟨⟩
                obtain ⟨e, has, mentioned, undefined⟩ := Node.step_undefined step
                obtain ⟨v, here, -⟩ := read e has name mentioned
                rw [undefined] at here
                cases here

/-- A checked program without a warning that a variable may be unassigned depends on its inputs only.
    For every limit, two runs of its graph from variables that have the same values for the inputs
    do the same and end the same way, with a value or an error, which is never that a variable has
    no value. They leave the same values in the inputs and in all variables that they assign. -/
theorem run_depends_on_inputs {program : Stmt} {inputs : List String} {report : Report}
    (checked : check program inputs = .ok report) (clean : report.errors = [])
    (valid : ∀ v ∈ program.literals, ∃ w ∈ v, w.Valid)
    (assigned : ∀ f ∈ report.warnings, f.problem ≠ .maybeUnassigned) :
    ∃ g, ofProgram program = .ok g ∧ ∀ (limit : Int) (store store' : Store),
      (∀ x ∈ inputs, ∃ v, store[x]? = some v ∧ store'[x]? = some v) →
      Run.Alike inputs (g.run limit store) (g.run limit store') ∧
        ∀ fault, (g.run limit store).result ≠ .error (.fault fault) := by
  obtain ⟨-, rfl⟩ := check_eq_ok.mp checked
  obtain ⟨g, formed, arena, named, spans, -⟩ :=
    (Stmt.all_of_report (fun _ _ _ _ => Expr.named_of_report) clean).spans
  obtain ⟨_, -, formed', -, wf, -⟩ := (Stmt.wellFormed_of_report clean valid).ofProgram
  obtain rfl := Except.ok.inj (formed.symm.trans formed')
  have covered : ∀ x, g.MayRead x → x ∈ inputs := by
    intro x reads
    by_contra other
    obtain ⟨f, member, problem, -⟩ := (warns_iff_mayRead arena spans named inputs x).mpr ⟨other, reads⟩
    exact assigned f member problem
  refine ⟨g, formed, fun limit store store' same => ⟨?_, arena.run_no_fault wf limit store⟩⟩
  refine runFrom_alike covered _ _ (fun _ _ => .refl) fun x given => same x ?_
  exact given.resolve_right fun ⟨v, member⟩ => List.not_mem_nil member

/-- What `x` is before the run makes no difference. -/
theorem run_depends_on_inputs_nestedLoops :
    check Stmt.nestedLoops ["z"] = .ok .empty ∧ (∀ v ∈ Stmt.nestedLoops.literals, ∃ w ∈ v, w.Valid) ∧
      ∃ g, ofProgram Stmt.nestedLoops = .ok g ∧
        Run.Alike ["z"] (g.run 100 ((∅ : Store).insert "z" (.ofInt 2)))
          (g.run 100 (((∅ : Store).insert "x" (.ofBool true)).insert "z" (.ofInt 2))) := by
  have checked : check Stmt.nestedLoops ["z"] = .ok .empty := by rfl
  have valid : ∀ v ∈ Stmt.nestedLoops.literals, ∃ w ∈ v, w.Valid := by decide
  obtain ⟨g, formed, alike⟩ :=
    run_depends_on_inputs checked rfl valid fun f none => absurd none List.not_mem_nil
  refine ⟨checked, valid, g, formed, (alike 100 _ _ ?_).1⟩
  simp [Std.ExtTreeMap.getElem?_insert]

end Graph

end FlowFold
