import FlowFold.Proofs.Scopes
import FlowFold.Graph.Form
import FlowFold.Proofs.WellFormed

/-! # The graphs of programs

A program that passes the check has no holes, and its graph can be formed. What forming a
statement adds to a graph is described by rules, one for each kind of statement; the
parts of a block are added from the last to the first. A statement only adds nodes, at the
end of the arena, and leads to its follower: the nodes that were there stay as they are.
-/

namespace FlowFold

/-- The literals of an expression, with `none` for a reference to a literal that is not there. -/
def Expr.literals : Expr → List (Option Value)
  | .const v => [some v]
  | .hollow .const => [none]
  | .binary _ left right => left.literals ++ right.literals
  | .var _ | .missing | .hollow .var | .hollow .binary | .foreign _ => []

mutual

def Stmt.literals : Stmt → List (Option Value)
  | .block body => literalsAll body
  | .assign _ value => value.literals
  | .ite cond then_ otherwise => cond.literals ++ then_.literals ++ otherwise.literals
  | .while cond body => cond.literals ++ body.literals
  | .ret result => result.literals
  | .missing | .hollow _ | .foreign _ => []

def Stmt.literalsAll : List Stmt → List (Option Value)
  | [] => []
  | s :: rest => s.literals ++ literalsAll rest

end

/-- A statement without holes all of whose expressions meet a condition. The else branch
    is the one part that may be absent. -/
inductive Stmt.All (P : Expr → Prop) : Stmt → Prop where
  | nil : All P (.block [])
  | cons {s : Stmt} {rest : List Stmt} (first : All P s) (others : All P (.block rest)) :
      All P (.block (s :: rest))
  | assign {name : String} {value : Expr} (meets : P value) : All P (.assign (some name) value)
  | ret {result : Expr} (meets : P result) : All P (.ret result)
  | ifThen {cond : Expr} {then_ : Stmt} (meets : P cond) (yes : All P then_) :
      All P (.ite cond then_ .missing)
  | ifElse {cond : Expr} {then_ otherwise : Stmt} (meets : P cond) (yes : All P then_)
      (no : All P otherwise) : All P (.ite cond then_ otherwise)
  | while {cond : Expr} {body : Stmt} (meets : P cond) (inner : All P body) : All P (.while cond body)

/-- An expression that a check accepts: it is complete, except that a literal may only be referred
    to and not be there. -/
def Expr.Accepted : Expr → Prop
  | .const _ | .var _ | .hollow .const => True
  | .binary op left right => op.isKnown = true ∧ left.Accepted ∧ right.Accepted
  | .missing | .hollow .var | .hollow .binary | .foreign _ => False

def Stmt.Accepted : Stmt → Prop := Stmt.All Expr.Accepted

def Stmt.Complete : Stmt → Prop := Stmt.All Expr.Complete

def Stmt.WellFormed : Stmt → Prop := Stmt.All Expr.WellFormed

theorem Stmt.All.ne_missing {P : Expr → Prop} {s : Stmt} (all : s.All P) : s ≠ .missing := by
  rintro rfl
  cases all

/-! ## Checked programs -/

theorem Report.errors_append (a b : Report) : (a ++ b).errors = a.errors ++ b.errors := rfl

theorem Report.append_clean {a b : Report} (clean : (a ++ b).errors = []) :
    a.errors = [] ∧ b.errors = [] := by
  rwa [errors_append, List.append_eq_nil_iff] at clean

theorem Expr.accepted_of_report {e : Expr} {dead : Bool} {assigned : Assigned} {place : Place}
    (clean : (e.report dead assigned place).errors = []) : e.Accepted := by
  induction e generalizing place with
  | const v => trivial
  | var name => trivial
  | hollow kind =>
      cases kind with
      | const => trivial
      | var | binary => cases clean
  | binary op left right ihl ihr =>
      obtain ⟨clean', cleanRight⟩ := Report.append_clean clean
      obtain ⟨cleanOp, cleanLeft⟩ := Report.append_clean clean'
      refine ⟨?_, ihl cleanLeft, ihr cleanRight⟩
      by_contra unknown
      rw [if_neg unknown] at cleanOp
      cases cleanOp
  | missing | foreign => cases clean

namespace Expr.Accepted

variable {e : Expr} (accepted : e.Accepted)

include accepted

theorem complete (there : none ∉ e.literals) : e.Complete := by
  induction e with
  | const | var => trivial
  | hollow kind =>
      cases kind with
      | const => exact absurd (.head _) there
      | var | binary => exact accepted
  | binary op left right ihl ihr =>
      rw [literals, List.mem_append, not_or] at there
      exact ⟨accepted.1, ihl accepted.2.1 there.1, ihr accepted.2.2 there.2⟩
  | missing | foreign => exact accepted

theorem wellFormed (valid : ∀ v ∈ e.literals, ∃ w ∈ v, w.Valid) : e.WellFormed := by
  induction e with
  | const v =>
      obtain ⟨w, own, valid⟩ := valid _ (.head _)
      cases own
      exact valid
  | var name => trivial
  | hollow kind =>
      cases kind with
      | const =>
          obtain ⟨w, own, -⟩ := valid _ (.head _)
          cases own
      | var | binary => exact accepted
  | binary op left right ihl ihr =>
      obtain ⟨validLeft, validRight⟩ := List.forall_mem_append.mp valid
      exact ⟨accepted.1, ihl accepted.2.1 validLeft, ihr accepted.2.2 validRight⟩
  | missing | foreign => exact accepted

end Expr.Accepted

theorem Report.error_unclean (problem : Problem) (place : Place) (piece : Piece) :
    (Report.error problem place piece).errors ≠ [] := List.cons_ne_nil _ _

mutual

theorem Stmt.all_of_report {P : Expr → Prop}
    (meets : ∀ e dead assigned place, (Expr.report dead assigned place e).errors = [] → P e)
    {s : Stmt} {dead : Bool} {assigned : Assigned} {place : Place}
    (clean : (s.report dead assigned place).1.errors = []) : s.All P := by
  cases s with
  | block body => exact all_of_reportAll meets clean
  | assign target value =>
      simp only [report] at clean
      split at clean
      · exact absurd (Report.append_clean clean).2 (Report.error_unclean _ _ _)
      · exact absurd (Report.append_clean clean).2 (Report.error_unclean _ _ _)
      · exact .assign (meets _ _ _ _ clean)
  | ite cond then_ otherwise =>
      by_cases none : otherwise = .missing
      · subst none
        obtain ⟨cleanCond, cleanYes⟩ := Report.append_clean clean
        exact .ifThen (meets _ _ _ _ cleanCond) (all_of_report meets cleanYes)
      · rw [report] at clean
        · obtain ⟨clean', cleanNo⟩ := Report.append_clean clean
          obtain ⟨cleanCond, cleanYes⟩ := Report.append_clean clean'
          exact .ifElse (meets _ _ _ _ cleanCond) (all_of_report meets cleanYes) (all_of_report meets cleanNo)
        · exact none
  | «while» cond body =>
      obtain ⟨cleanCond, cleanBody⟩ := Report.append_clean clean
      exact .while (meets _ _ _ _ cleanCond) (all_of_report meets cleanBody)
  | ret result => exact .ret (meets _ _ _ _ clean)
  | missing | hollow | foreign => cases clean

/-- The warning that a statement cannot be reached is no error. -/
theorem Stmt.all_of_reportAll {P : Expr → Prop}
    (meets : ∀ e dead assigned place, (Expr.report dead assigned place e).errors = [] → P e)
    {body : List Stmt} {dead : Bool} {place : Place} {i : Nat} {reached : Option Assigned}
    (clean : (reportAll dead place i reached body).1.errors = []) : (Stmt.block body).All P := by
  cases body with
  | nil => exact .nil
  | cons s rest =>
      cases reached with
      | none =>
          obtain ⟨clean', cleanRest⟩ := Report.append_clean clean
          exact .cons (all_of_report meets (Report.append_clean clean').2) (all_of_reportAll meets cleanRest)
      | some assigned =>
          obtain ⟨cleanFirst, cleanRest⟩ := Report.append_clean clean
          exact .cons (all_of_report meets cleanFirst) (all_of_reportAll meets cleanRest)

end

theorem Stmt.accepted_of_report {s : Stmt} {dead : Bool} {assigned : Assigned} {place : Place}
    (clean : (s.report dead assigned place).1.errors = []) : s.Accepted :=
  all_of_report (fun _ _ _ _ => Expr.accepted_of_report) clean

theorem Stmt.All.imp_literals {P Q : Expr → Prop} {L : Option Value → Prop} {s : Stmt} (all : s.All P)
    (literals : ∀ v ∈ s.literals, L v) (meets : ∀ e, P e → (∀ v ∈ e.literals, L v) → Q e) : s.All Q := by
  induction all with
  | nil => exact .nil
  | cons _ _ ihFirst ihOthers =>
      obtain ⟨inFirst, inOthers⟩ := List.forall_mem_append.mp literals
      exact .cons (ihFirst inFirst) (ihOthers inOthers)
  | assign value => exact .assign (meets _ value literals)
  | ret result => exact .ret (meets _ result literals)
  | ifThen cond _ ih =>
      obtain ⟨inBoth, -⟩ := List.forall_mem_append.mp literals
      obtain ⟨inCond, inYes⟩ := List.forall_mem_append.mp inBoth
      exact .ifThen (meets _ cond inCond) (ih inYes)
  | ifElse cond _ _ ihYes ihNo =>
      obtain ⟨inBoth, inNo⟩ := List.forall_mem_append.mp literals
      obtain ⟨inCond, inYes⟩ := List.forall_mem_append.mp inBoth
      exact .ifElse (meets _ cond inCond) (ihYes inYes) (ihNo inNo)
  | «while» cond _ ih =>
      obtain ⟨inCond, inBody⟩ := List.forall_mem_append.mp literals
      exact .while (meets _ cond inCond) (ih inBody)

theorem Stmt.complete_of_report {s : Stmt} {dead : Bool} {assigned : Assigned} {place : Place}
    (clean : (s.report dead assigned place).1.errors = []) (there : none ∉ s.literals) : s.Complete :=
  (accepted_of_report clean).imp_literals (L := (none ≠ ·)) (fun _ member same => there (same ▸ member))
    fun _ accepted inExpr => accepted.complete fun member => inExpr none member rfl

theorem Stmt.wellFormed_of_report {s : Stmt} {dead : Bool} {assigned : Assigned} {place : Place}
    (clean : (s.report dead assigned place).1.errors = []) (valid : ∀ v ∈ s.literals, ∃ w ∈ v, w.Valid) :
    s.WellFormed :=
  (accepted_of_report clean).imp_literals valid fun _ accepted => accepted.wellFormed

/-! ## What forming adds -/

/-- A graph has come out of another by adding nodes. -/
structure Graph.Grown (g g' : Graph) : Prop where
  size : g.size ≤ g'.size
  kept : ∀ id, id < g.size → g'.node? id = g.node? id

namespace Graph.Grown

variable {g g' g'' : Graph}

theorem refl (g : Graph) : Grown g g := ⟨Nat.le_refl _, fun _ _ => rfl⟩

theorem trans (first : Grown g g') (second : Grown g' g'') : Grown g g'' where
  size := Nat.le_trans first.size second.size
  kept := fun id inside => by
    rw [second.kept id (Nat.lt_of_lt_of_le inside first.size), first.kept id inside]

theorem add (g : Graph) (instr : Instr) : Grown g (g.add instr).2 where
  size := by simp
  kept := fun _ inside => node?_add_of_lt inside

theorem setBody {loop body : NodeId} (grown : Grown g g') (later : g.size ≤ loop)
    (done : g'.setBody loop body = .ok g'') : Grown g g'' := by
  obtain ⟨-, own, cond, old, join, found, rfl⟩ := setBody_eq_ok.mp done
  refine ⟨by simpa using grown.size, fun id inside => ?_⟩
  rw [node?_modify, if_neg (Nat.ne_of_gt (Nat.lt_of_lt_of_le inside later)), grown.kept id inside]

end Graph.Grown

/-- Forming a statement that is followed by a node: the graph it is added to, the node at
    which it starts, and the graph that results. -/
inductive Stmt.Forms : NodeId → Graph → Stmt → NodeId → Graph → Prop where
  | nil {next : NodeId} {g : Graph} : Forms next g (.block []) next g
  | cons {next middle start : NodeId} {g g₁ g₂ : Graph} {s : Stmt} {rest : List Stmt}
      (others : Forms next g (.block rest) middle g₁) (first : Forms middle g₁ s start g₂) :
      Forms next g (.block (s :: rest)) start g₂
  | assign {next : NodeId} {g : Graph} {name : String} {value : Expr} (inside : next < g.size) :
      Forms next g (.assign (some name) value) g.size (g.add (.assign name value next)).2
  | ret {next : NodeId} {g : Graph} {result : Expr} :
      Forms next g (.ret result) g.size (g.add (.ret result)).2
  | ifThen {next yes : NodeId} {g g₁ : Graph} {cond : Expr} {then_ : Stmt}
      (first : Forms next g then_ yes g₁) (inside : yes < g₁.size ∧ next < g₁.size ∧ next < g₁.size) :
      Forms next g (.ite cond then_ .missing) g₁.size (g₁.add (.branch cond yes next next)).2
  | ifElse {next yes no : NodeId} {g g₁ g₂ : Graph} {cond : Expr} {then_ otherwise : Stmt}
      (first : Forms next g then_ yes g₁) (second : Forms next g₁ otherwise no g₂)
      (inside : yes < g₂.size ∧ no < g₂.size ∧ next < g₂.size) :
      Forms next g (.ite cond then_ otherwise) g₂.size (g₂.add (.branch cond yes no next)).2
  | while {next start : NodeId} {g g₁ g₂ : Graph} {cond : Expr} {body : Stmt}
      (inside : next < g.size) (inner : Forms g.size (g.add (.loop cond 0 next)).2 body start g₁)
      (closed : g₁.setBody g.size start = .ok g₂) : Forms next g (.while cond body) g.size g₂

namespace Stmt.Forms

variable {next start : NodeId} {g g' : Graph} {s : Stmt}

theorem grown (forms : Forms next g s start g') : g.Grown g' := by
  induction forms with
  | nil => exact .refl _
  | cons _ _ others first => exact others.trans first
  | assign | ret => exact .add _ _
  | ifThen _ _ first => exact first.trans (.add _ _)
  | ifElse _ _ _ first second => exact (first.trans second).trans (.add _ _)
  | «while» _ _ closed inner => exact ((Graph.Grown.add _ _).trans inner).setBody (Nat.le_refl _) closed

theorem start_lt (forms : Forms next g s start g') (inside : next < g.size) : start < g'.size := by
  induction forms with
  | nil => exact inside
  | cons _ _ others first => exact first (others inside)
  | assign | ret | ifThen | ifElse =>
      rw [Graph.size_add]
      exact Nat.lt_succ_self _
  | «while» _ inner closed =>
      obtain ⟨-, _, _, _, _, found, rfl⟩ := Graph.setBody_eq_ok.mp closed
      rw [Graph.size_modify]
      exact Graph.lt_size_of_node? found

theorem built (forms : Forms next g s start g') (before : g.Built) : g'.Built := by
  induction forms with
  | nil => exact before
  | cons _ _ others first => exact first (others before)
  | assign inside => exact Graph.Built.addAssign before inside
  | ret => exact Graph.Built.addReturn before
  | ifThen _ inside first => exact Graph.Built.addBranch (first before) inside
  | ifElse _ _ inside first second => exact Graph.Built.addBranch (second (first before)) inside
  | «while» inside _ closed inner =>
      exact Graph.Built.apply (inner (Graph.Built.addLoop before inside)) (.setBody _ _) closed

/-- Forming a statement puts no expressions into the graph but those of the statement. -/
theorem all {P : Expr → Prop} (forms : Forms next g s start g') (all : s.All P)
    (before : ∀ id n e, g.node? id = some n → n.expression = some e → P e) :
    ∀ id n e, g'.node? id = some n → n.expression = some e → P e := by
  have added : ∀ {g : Graph} {instr : Instr},
      (∀ e, Node.expression ⟨g.size, instr⟩ = some e → P e) →
      (∀ id n e, g.node? id = some n → n.expression = some e → P e) →
      ∀ id n e, (g.add instr).2.node? id = some n → n.expression = some e → P e := by
    intro g instr new old id n e found has
    rw [Graph.node?_add] at found
    split at found
    · cases found
      exact new e has
    · exact old id n e found has
  induction forms with
  | nil => exact before
  | cons _ _ ihOthers ihFirst =>
      cases all with
      | cons first others => exact ihFirst first (ihOthers others before)
  | assign =>
      cases all with
      | assign meets => exact added (by rintro e ⟨⟩; exact meets) before
  | ret =>
      cases all with
      | ret meets => exact added (by rintro e ⟨⟩; exact meets) before
  | ifThen _ _ ih =>
      cases all with
      | ifThen meets yes => exact added (by rintro e ⟨⟩; exact meets) (ih yes before)
      | ifElse meets yes no => exact absurd rfl no.ne_missing
  | ifElse _ second _ ihFirst ihSecond =>
      cases all with
      | ifThen => cases second
      | ifElse meets yes no =>
          exact added (by rintro e ⟨⟩; exact meets) (ihSecond no (ihFirst yes before))
  | «while» _ _ closed ih =>
      cases all with
      | «while» meets inner =>
          have old := ih inner (added (by rintro e ⟨⟩; exact meets) before)
          intro id n e found has
          obtain ⟨-, own, cond, body, join, loop, rfl⟩ := Graph.setBody_eq_ok.mp closed
          rw [Graph.node?_modify] at found
          split at found
          · rename_i same
            subst same
            rw [loop, Option.map_some, Option.some.injEq] at found
            subst found
            exact old _ _ e loop has
          · exact old id n e found has

end Stmt.Forms

namespace Stmt

theorem All.form {P : Expr → Prop} {s : Stmt} (all : s.All P) {next : NodeId} {g : Graph}
    (inside : next < g.size) : ∃ start g', s.form next g = .ok (start, g') ∧ Forms next g s start g' := by
  induction all generalizing next g with
  | nil => exact ⟨next, g, rfl, .nil⟩
  | cons _ _ ihFirst ihOthers =>
      obtain ⟨middle, g₁, formOthers, others⟩ := ihOthers inside
      obtain ⟨start, g₂, formFirst, first⟩ := ihFirst (others.start_lt inside)
      refine ⟨start, g₂, ?_, .cons others first⟩
      rw [Stmt.form] at formOthers ⊢
      rw [Stmt.formAll, formOthers]
      exact formFirst
  | assign => exact ⟨_, _, Graph.addAssign_eq_ok.mpr ⟨inside, rfl⟩, .assign inside⟩
  | ret => exact ⟨_, _, rfl, .ret⟩
  | ifThen _ _ ih =>
      obtain ⟨yes, g₁, formYes, first⟩ := ih inside
      have inside' := Nat.lt_of_lt_of_le inside first.grown.size
      have ins := And.intro (first.start_lt inside) (And.intro inside' inside')
      refine ⟨_, _, ?_, .ifThen first ins⟩
      rw [Stmt.form, formYes]
      exact Graph.addBranch_eq_ok.mpr ⟨ins, rfl⟩
  | ifElse _ _ no ihYes ihNo =>
      obtain ⟨yes, g₁, formYes, first⟩ := ihYes inside
      have inside₁ := Nat.lt_of_lt_of_le inside first.grown.size
      obtain ⟨no', g₂, formNo, second⟩ := ihNo inside₁
      have ins := And.intro (Nat.lt_of_lt_of_le (first.start_lt inside) second.grown.size)
        (And.intro (second.start_lt inside₁) (Nat.lt_of_lt_of_le inside₁ second.grown.size))
      refine ⟨_, _, ?_, .ifElse first second ins⟩
      rw [Stmt.form, formYes]
      · simp only [bind, Except.bind, formNo]
        exact Graph.addBranch_eq_ok.mpr ⟨ins, rfl⟩
      · exact no.ne_missing
  | @«while» cond body _ _ ih =>
      have inside' : g.size < (g.add (.loop cond 0 next)).2.size := by
        rw [Graph.size_add]
        exact Nat.lt_succ_self _
      obtain ⟨start, g₁, formBody, inner⟩ := ih inside'
      have found : g₁.node? g.size = some ⟨g.size, .loop cond 0 next⟩ := by
        rw [inner.grown.kept _ inside', Graph.node?_add_size]
      have closed := Graph.setBody_eq_ok.mpr ⟨inner.start_lt inside', _, _, _, _, found, rfl⟩
      refine ⟨_, _, ?_, .while inside inner closed⟩
      rw [Stmt.form, Graph.addLoop_eq_ok.mpr ⟨inside, rfl⟩]
      simp only [bind, Except.bind, Graph.add_fst, formBody, closed]
      rfl

theorem All.ofProgram {P : Expr → Prop} {program : Stmt} (all : program.All P) :
    ∃ g g', Graph.ofProgram program = .ok g ∧ g.Built ∧
      (∀ id n e, g.node? id = some n → n.expression = some e → P e) ∧
      Forms 0 .empty program g.entry g' ∧ ∀ id, g.node? id = g'.node? id := by
  obtain ⟨start, g', form, forms⟩ := all.form Graph.Arena.empty.nonempty
  have entered := Graph.setEntry_eq_ok.mpr ⟨forms.start_lt Graph.Arena.empty.nonempty, rfl⟩
  refine ⟨_, g', ?_, (forms.built .empty).apply (.setEntry start) entered, ?_, forms, fun _ => rfl⟩
  · rw [Graph.ofProgram, form]
    exact entered
  · refine forms.all all ?_
    intro id n e found has
    cases id with
    | zero =>
        cases found
        cases has
    | succ id => simp [Graph.node?, Graph.empty] at found

theorem WellFormed.ofProgram {program : Stmt} (wf : program.WellFormed) :
    ∃ g g', Graph.ofProgram program = .ok g ∧ g.Built ∧ g.WellFormed ∧
      Forms 0 .empty program g.entry g' ∧ ∀ id, g.node? id = g'.node? id := by
  obtain ⟨g, g', formed, built, all, forms, same⟩ := All.ofProgram wf
  exact ⟨g, g', formed, built, fun id n _ found e => all id n e found, forms, same⟩

end Stmt

end FlowFold
