import FlowFold.Pipeline
import FlowFold.Proofs.Inherited
import FlowFold.Proofs.Pruning

/-! # A checked program meets no fault

The errors of a check do not depend on the inputs or on what is assigned where; these only
matter for warnings. So a program whose check finds no error can be processed.

A graph is safe if all its handles are in its arena and none of its consumers meets a
fault: it can be analysed and folded, drawn in every format, and run from every store. The
graph of a checked program is safe, and so is the folded graph.
-/

namespace FlowFold

/-! ## Errors -/

theorem Expr.errors_report (e : Expr) (dead dead' : Bool) (assigned assigned' : Assigned) (place : Place) :
    (e.report dead assigned place).errors = (e.report dead' assigned' place).errors := by
  induction e generalizing place with
  | const | missing | foreign => rfl
  | hollow kind => cases kind <;> rfl
  | var name =>
      have errors (dead : Bool) (assigned : Assigned) : ((Expr.var name).report dead assigned place).errors =
          if name = "" then [⟨.emptyName, place, .expr (.var name)⟩] else [] := by
        simp only [report]
        split
        · rfl
        · split <;> rfl
      rw [errors, errors]
  | binary op left right ihl ihr =>
      simp only [report, Report.errors_append]
      rw [ihl, ihr]

mutual

theorem Stmt.errors_report (s : Stmt) (dead dead' : Bool) (assigned assigned' : Assigned) (place : Place) :
    (s.report dead assigned place).1.errors = (s.report dead' assigned' place).1.errors := by
  cases s with
  | block body => exact errors_reportAll body dead dead' place 0 (some assigned) (some assigned')
  | assign target value =>
      simp only [report]
      split
      · simp only [Report.errors_append]
        rw [value.errors_report]
      · simp only [Report.errors_append]
        rw [value.errors_report]
      · exact value.errors_report _ _ _ _ _
  | ite cond then_ otherwise =>
      by_cases none : otherwise = .missing
      · subst none
        simp only [report, Report.errors_append]
        rw [cond.errors_report, errors_report then_]
      · rw [report, report]
        · simp only [Report.errors_append]
          rw [cond.errors_report, errors_report then_, errors_report otherwise]
        · exact none
        · exact none
  | «while» cond body =>
      simp only [report, Report.errors_append]
      rw [cond.errors_report, errors_report body]
  | ret result => exact result.errors_report _ _ _ _ _
  | missing | hollow | foreign => rfl
termination_by sizeOf s

theorem Stmt.errors_reportAll (body : List Stmt) (dead dead' : Bool) (place : Place) (i : Nat)
    (reached reached' : Option Assigned) :
    (reportAll dead place i reached body).1.errors = (reportAll dead' place i reached' body).1.errors := by
  cases body with
  | nil => rfl
  | cons s rest =>
      have errors (dead : Bool) (reached : Option Assigned) :
          (reportAll dead place i reached (s :: rest)).1.errors =
            (s.report true [] (place ++ [.index i])).1.errors ++
              (reportAll true place (i + 1) none rest).1.errors := by
        cases reached with
        | none =>
            simp only [reportAll, Report.errors_append]
            rw [errors_reportAll rest dead]
            rfl
        | some assigned =>
            simp only [reportAll, Report.errors_append]
            rw [errors_report s dead, errors_reportAll rest dead]
      rw [errors, errors]
termination_by sizeOf body

end

/-! ## Outlines -/

theorem Stmt.All.of_mem_block {P : Expr → Prop} {body : List Stmt} (all : (Stmt.block body).All P) {s : Stmt}
    (member : s ∈ body) : s.All P := by
  induction body with
  | nil => cases member
  | cons first rest ih =>
      cases all with
      | cons here others =>
          rcases List.mem_cons.mp member with rfl | later
          · exact here
          · exact ih others later

namespace Piece

/-- A piece that an outline can show: a well-formed statement, or an expression, which is
    not shown on its own. -/
def Showable : Piece → Prop
  | expr _ => True
  | stmt s => s.WellFormed

theorem Showable.parts {s : Stmt} (wf : s.WellFormed) :
    ∃ ps, (stmt s).parts = .ok ps ∧ ∀ q ∈ ps, q.Showable := by
  cases wf with
  | nil => exact ⟨[], rfl, by simp⟩
  | @cons s rest first others =>
      refine ⟨(s :: rest).map stmt, rfl, fun q part => ?_⟩
      obtain ⟨s', member, rfl⟩ := List.mem_map.mp part
      exact Stmt.All.of_mem_block (.cons first others) member
  | assign | ret => exact ⟨_, rfl, by simp [Showable]⟩
  | ifThen _ yes => exact ⟨_, rfl, by simpa [Showable, Stmt.WellFormed] using yes⟩
  | @ifElse cond then_ otherwise _ yes no =>
      refine ⟨[expr cond, stmt then_, stmt otherwise], ?_, by simpa [Showable] using ⟨yes, no⟩⟩
      rw [Piece.parts]
      exact no.ne_missing
  | «while» _ inner => exact ⟨_, rfl, by simpa [Showable, Stmt.WellFormed] using inner⟩

theorem Showable.outlineLine {p : Piece} (showable : p.Showable) (depth : Nat) :
    ∃ line enter, p.outlineLine depth = .ok (line, enter) ∧
      (enter = true → ∃ ps, p.parts = .ok ps ∧ ∀ q ∈ ps, q.Showable) := by
  cases p with
  | expr e => exact ⟨none, false, rfl, by simp⟩
  | stmt s =>
      have parts := Showable.parts showable
      cases showable with
      | nil | cons => exact ⟨_, _, rfl, fun _ => parts⟩
      | assign wf | ret wf | ifThen wf | ifElse wf | «while» wf =>
          obtain ⟨text, flat⟩ := wf.flatText
          exact ⟨_, _, by rw [Piece.outlineLine, flat]; rfl, fun _ => parts⟩

theorem Showable.lines (v : Visit) (showable : v.piece.Showable) :
    ∃ lines, v.walk (fun v => v.piece.outlineLine v.depth) = .ok lines := by
  obtain ⟨line, enter, written, entered⟩ := showable.outlineLine v.depth
  rw [Visit.walk_eq, written]
  cases enter with
  | false => exact ⟨_, rfl⟩
  | true =>
      obtain ⟨ps, parts, each⟩ := entered rfl
      have placed := Visit.parts_eq parts
      have below : ∀ w ∈ ps.mapIdx fun i q => (⟨i :: v.place, q⟩ : Visit),
          ∃ lines, w.walk (fun v => v.piece.outlineLine v.depth) = .ok lines := by
        intro w part
        have smaller := Visit.sizeOf_lt_of_mem_parts placed part
        obtain ⟨i, inside, rfl⟩ := List.mem_mapIdx.mp part
        exact lines _ (each _ (List.getElem_mem inside))
      obtain ⟨rows, walked⟩ := exists_mapM_ok.mpr below
      exact ⟨line :: rows.flatten, by simp [placed, walked, bind, Except.bind, pure, Except.pure]⟩
termination_by sizeOf v.piece

theorem Showable.outline {p : Piece} (showable : p.Showable) : ∃ text, p.outline = .ok text := by
  obtain ⟨lines, walked⟩ := Showable.lines ⟨[], p⟩ showable
  exact ⟨_, by rw [Piece.outline, walk, walked]; rfl⟩

end Piece

/-! ## Safe graphs -/

theorem Expr.WellFormed.valid_literals {e : Expr} (wf : e.WellFormed) :
    ∀ v ∈ e.literals, ∃ w ∈ v, w.Valid := by
  induction e with
  | const w =>
      intro v member
      obtain rfl := List.mem_singleton.mp member
      exact ⟨w, rfl, wf⟩
  | binary op left right ihl ihr =>
      intro v member
      rcases List.mem_append.mp member with inLeft | inRight
      · exact ihl wf.2.1 v inLeft
      · exact ihr wf.2.2 v inRight
  | var => exact fun v member => by cases member
  | missing | hollow | foreign => exact wf.elim

theorem Value.Valid.literalText {v : Value} (valid : v.Valid) : ∃ text, Expr.literalText v = .ok text := by
  rcases valid with kind | kind
  · exact ⟨_, by rw [Expr.literalText, kind, Value.text, kind]⟩
  · exact ⟨_, by rw [Expr.literalText, kind]⟩

theorem Node.WellFormed.label {n : Node} (wf : n.WellFormed) : ∃ text, n.label = .ok text := by
  obtain ⟨id, instr⟩ := n
  cases instr with
  | quit => exact ⟨_, rfl⟩
  | assign | ret | branch | loop =>
      obtain ⟨text, flat⟩ := (wf _ rfl).flatText
      simp [Node.label, flat, bind, Except.bind, pure, Except.pure]

namespace Graph

/-- All that is done with a graph can be done. -/
structure Safe (g : Graph) : Prop where
  entry : g.entry < g.size
  handles : ∀ id, ∀ h ∈ g.handles id, h < g.size
  reachable : ∀ id ∈ g.reachable, id < g.size
  deadJoins : ∀ id ∈ g.deadJoins, id < g.size
  /-- Every literal that a listing shows is there and has a text. -/
  literals : ∀ n ∈ g.walk, ∀ e, n.expression = some e → ∀ v ∈ e.literals,
    ∃ w ∈ v, ∃ text, Expr.literalText w = .ok text
  dot : ∃ text, g.dot = .ok text
  mermaid : ∀ code : Nat, code < Mermaid.headers.length → ∃ text, g.mermaid code = .ok text
  fold : ∀ earlier : Analysis, ∃ a f, earlier.run g = (a, none) ∧ a.rebuild g = .ok f
  run : ∀ limit store fault, (g.run limit store).result ≠ .error (.fault fault)

variable {g : Graph}

theorem Arena.labels (arena : g.Arena) (wf : g.WellFormed) : ∃ texts, g.labels = .ok texts := by
  refine exists_mapM_ok.mpr fun n walked => ?_
  obtain ⟨live, found⟩ := arena.mem_walk.mp walked
  exact Node.WellFormed.label (wf n.id n live found)

theorem Arena.deadJoins_lt (arena : g.Arena) {id : NodeId} (dead : id ∈ g.deadJoins) : id < g.size := by
  simp only [Graph.deadJoins, List.mem_filter, List.mem_eraseDups, List.mem_filterMap] at dead
  obtain ⟨⟨⟨own, instr⟩, walked, join⟩, -⟩ := dead
  obtain ⟨-, found⟩ := arena.mem_walk.mp walked
  cases instr with
  | branch cond yes no other =>
      obtain rfl : other = id := Option.some.inj join
      have handle : other ∈ g.handles own := by simp [handles_eq found, Instr.handles]
      exact (arena.handle_lt handle).2
  | quit | assign | ret | loop => cases join

theorem Arena.safe (arena : g.Arena) (wf : g.WellFormed) : g.Safe where
  entry := arena.entry_lt
  handles := fun _ _ handle => (arena.handle_lt handle).2
  reachable := fun _ walked => arena.live_lt (arena.mem_reachable.mp walked)
  deadJoins := fun _ dead => arena.deadJoins_lt dead
  literals := by
    intro n walked e has v member
    obtain ⟨live, found⟩ := arena.mem_walk.mp walked
    obtain ⟨w, there, valid⟩ := (wf n.id n live found e has).valid_literals v member
    exact ⟨w, there, valid.literalText⟩
  dot := by
    obtain ⟨texts, labels⟩ := arena.labels wf
    exact ⟨_, by rw [Graph.dot, labels]; rfl⟩
  mermaid := by
    intro code declared
    obtain ⟨texts, labels⟩ := arena.labels wf
    have header : Mermaid.header code = .ok Mermaid.headers[code] := by
      simp [Mermaid.header, nameAt, declared]
    exact ⟨_, by rw [Graph.mermaid, header, labels]; rfl⟩
  fold := by
    intro earlier
    obtain ⟨a, run, hasRun, analysed⟩ := Analysis.run_analysed arena wf.complete earlier
    obtain ⟨f, origin, rebuilt, -⟩ := Analysis.rebuild_foldOf analysed hasRun
    exact ⟨a, f, run, rebuilt⟩
  run := fun limit store fault => arena.run_no_fault wf limit store fault

end Graph

/-- Options with which a graph can be drawn. The chart only matters for Mermaid. -/
def Options.Declared (o : Options) : Prop :=
  match o.format with
  | .mermaid => ∃ code : Nat, o.chart = code ∧ code < Mermaid.headers.length
  | .dot | .dump => True
  | .unknown _ => False

theorem Graph.Safe.render {g : Graph} (safe : g.Safe) {o : Options} (declared : o.Declared) :
    ∃ text, o.render g = .ok text := by
  unfold Options.Declared at declared
  unfold Options.render
  cases format : o.format with
  | mermaid =>
      simp only [format] at declared ⊢
      obtain ⟨code, chart, inside⟩ := declared
      rw [chart]
      exact safe.mermaid code inside
  | dot => exact safe.dot
  | dump => exact ⟨_, rfl⟩
  | unknown code => simp [format] at declared

/-- A program whose check finds no error, and whose literals are integers and booleans, has
    a safe graph with a safe fold. It can be outlined, and processing it gives a result. -/
theorem Options.process_ok (program : Stmt) (inputs : List String) {report : Report}
    (checked : check program inputs = .ok report) (clean : report.errors = [])
    (valid : ∀ v ∈ program.literals, ∃ w ∈ v, w.Valid) :
    ∃ g f, Graph.ofProgram program = .ok g ∧ g.fold = .ok f ∧ g.Safe ∧ f.Safe ∧
      (∃ text, (Piece.stmt program).outline = .ok text) ∧
      ∀ (o : Options) (sample : Sample), sample.program = program → o.Declared →
        ∃ r, o.process sample = .ok r ∧ r.formed = g ∧ r.folded = f := by
  obtain ⟨solid, rfl⟩ := check_eq_ok.mp checked
  have wfProgram := Stmt.wellFormed_of_report clean valid
  obtain ⟨g, g', formed, built, wf, -⟩ := wfProgram.ofProgram
  have arena := built.arena
  obtain ⟨a, run, hasRun, analysed⟩ := Analysis.run_analysed arena wf.complete .new
  obtain ⟨f, origin, rebuilt, fold⟩ := Analysis.rebuild_foldOf analysed hasRun
  have safe := arena.safe wf
  have safe' := fold.arena.safe (fold.wellFormed analysed wf)
  refine ⟨g, f, formed, by simp [Graph.fold, run, rebuilt], safe, safe',
    Piece.Showable.outline wfProgram, fun o sample same declared => ?_⟩
  subst same
  obtain ⟨before, renderedBefore⟩ := safe.render declared
  obtain ⟨after, renderedAfter⟩ := safe'.render declared
  have noErrors : (findings sample.program []).errors = [] :=
    (sample.program.errors_report false false [] inputs []).trans clean
  have checked' : check sample.program [] = .ok (findings sample.program []) :=
    check_eq_ok.mpr ⟨solid, rfl⟩
  simp [process, checked', noErrors, draw, formed, run, rebuilt, Analysis.stats_eq hasRun, renderedBefore,
    renderedAfter, bind, Except.bind, pure, Except.pure, Except.mapError]

theorem Options.process_ok_deadJoin :
    (∃ report, check Stmt.deadJoin [] = .ok report ∧ report.errors = []) ∧
      (∀ v ∈ Stmt.deadJoin.literals, ∃ w ∈ v, w.Valid) ∧
      Options.Declared ⟨.mermaid, 4, true⟩ ∧
      ∃ g f r, Graph.ofProgram Stmt.deadJoin = .ok g ∧ g.fold = .ok f ∧ g.Safe ∧ f.Safe ∧
        Options.process ⟨.mermaid, 4, true⟩ ⟨"deadjoin", "", Stmt.deadJoin⟩ = .ok r ∧ r.folded = f := by
  have checked : check Stmt.deadJoin [] = .ok (findings Stmt.deadJoin []) := by rfl
  have clean : (findings Stmt.deadJoin []).errors = [] := by decide
  have valid : ∀ v ∈ Stmt.deadJoin.literals, ∃ w ∈ v, w.Valid := by decide
  have declared : Options.Declared ⟨.mermaid, 4, true⟩ := ⟨4, rfl, by decide⟩
  obtain ⟨g, f, formed, folded, safe, safe', -, process⟩ :=
    Options.process_ok Stmt.deadJoin [] checked clean valid
  obtain ⟨r, done, -, same⟩ := process ⟨.mermaid, 4, true⟩ ⟨"deadjoin", "", Stmt.deadJoin⟩ rfl declared
  exact ⟨⟨_, checked, clean⟩, valid, declared, g, f, r, formed, folded, safe, safe', done, same⟩

end FlowFold
