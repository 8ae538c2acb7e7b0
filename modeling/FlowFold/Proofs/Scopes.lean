import Mathlib.Logic.Basic
import FlowFold.Check

/-! # Where a check is at fault

A check can be at fault in two ways. It may use a scope that is not there: after a return there is
none. But then it begins anew with an empty scope at each statement of a block, and nowhere else is
a scope passed on from one statement to another, so this never happens.

Or it may look into a reference that refers to nothing. It does so at every reference to an
operation or a statement, wherever it is in the program. A tree without such references is solid.
On solid trees the check comes to its end, and its findings are those of `Stmt.report`, which cannot
be at fault: it takes the references for missing parts.
-/

namespace FlowFold

/-! ## Solid trees -/

/-- Whether every operation that an expression refers to is there. -/
def Expr.isSolid : Expr → Bool
  | .binary _ left right => left.isSolid && right.isSolid
  | .hollow .binary => false
  | .const _ | .var _ | .missing | .hollow .const | .hollow .var | .foreign _ => true

mutual

/-- Whether every operation and every statement that a statement refers to is there. -/
def Stmt.isSolid : Stmt → Bool
  | .block body => areSolid body
  | .assign _ value => value.isSolid
  | .ite cond then_ otherwise => cond.isSolid && then_.isSolid && otherwise.isSolid
  | .while cond body => cond.isSolid && body.isSolid
  | .ret result => result.isSolid
  | .hollow _ => false
  | .missing | .foreign _ => true

def Stmt.areSolid : List Stmt → Bool
  | [] => true
  | s :: rest => s.isSolid && areSolid rest

end

def Piece.isSolid : Piece → Bool
  | expr e => e.isSolid
  | stmt s => s.isSolid

/-! ## Findings without faults -/

/-- What there is to find in an expression. -/
def Expr.report (dead : Bool) (assigned : Assigned) (place : Place) : Expr → Report
  | .missing => .error .missingExpr place (.expr .missing)
  | .hollow .const => .empty
  | .hollow kind => .error .missingExpr place (.expr (.hollow kind))
  | .foreign other => .error .unknownNode place (.expr (.foreign other))
  | .const _ => .empty
  | .var name =>
      if name = "" then .error .emptyName place (.expr (.var name))
      else if dead || assigned.contains name then .empty
      else .warning .maybeUnassigned place (.expr (.var name))
  | .binary op left right =>
      (if op.isKnown then .empty
        else .error .unknownOp place (.expr (.binary op left right))) ++
      left.report dead assigned (place ++ [.left]) ++
      right.report dead assigned (place ++ [.right])

mutual

/-- What there is to find in a statement that is reached with the given variables assigned, and the
    variables assigned after it. -/
def Stmt.report (dead : Bool) (assigned : Assigned) (place : Place) :
    Stmt → Report × Option Assigned
  | .missing => (.error .missingStmt place (.stmt .missing), some assigned)
  | .hollow kind => (.error .missingStmt place (.stmt (.hollow kind)), some assigned)
  | .foreign other => (.error .unknownNode place (.stmt (.foreign other)), some assigned)
  | .block body => reportAll dead place 0 (some assigned) body
  | .assign target value =>
      let report := value.report dead assigned (place ++ [.value])
      let here := Piece.stmt (.assign target value)
      match target with
      | none => (report ++ .error .missingExpr place here, some assigned)
      | some "" => (report ++ .error .emptyName place here, some assigned)
      | some name => (report, some (name :: assigned))
  | .ret result => (result.report dead assigned (place ++ [.result]), none)
  | .ite cond then_ .missing =>
      let report := cond.report dead assigned (place ++ [.cond])
      let (r₁, after₁) := then_.report dead assigned (place ++ [.thenBranch])
      (report ++ r₁, Assigned.meet after₁ (some assigned))
  | .ite cond then_ otherwise =>
      let report := cond.report dead assigned (place ++ [.cond])
      let (r₁, after₁) := then_.report dead assigned (place ++ [.thenBranch])
      let (r₂, after₂) := otherwise.report dead assigned (place ++ [.elseBranch])
      (report ++ r₁ ++ r₂, Assigned.meet after₁ after₂)
  | .while cond body =>
      let report := cond.report dead assigned (place ++ [.cond])
      let (r, _) := body.report dead assigned (place ++ [.body])
      (report ++ r, some assigned)

def Stmt.reportAll (dead : Bool) (place : Place) (i : Nat) (reached : Option Assigned) :
    List Stmt → Report × Option Assigned
  | [] => (.empty, reached)
  | s :: rest =>
      match reached with
      | none =>
          let (r, _) := s.report true [] (place ++ [.index i])
          let (r', after) := reportAll dead place (i + 1) none rest
          (.warning .unreachable (place ++ [.index i]) (.stmt s) ++ r ++ r', after)
      | some assigned =>
          let (r, after) := s.report dead assigned (place ++ [.index i])
          let (r', after') := reportAll dead place (i + 1) after rest
          (r ++ r', after')

end

def findings (program : Stmt) (inputs : List String) : Report := (program.report false inputs []).1

/-! ## What a check comes to -/

theorem ok_if_bind {α β : Type} {c : Prop} [Decidable c] (a : α) (f : Fault) (next : α → Except Fault β) :
    ((if c then .ok a else .error f) >>= next) = if c then next a else .error f := by
  split <;> rfl

theorem Expr.check_eq (e : Expr) (dead : Bool) (assigned : Assigned) (place : Place) :
    e.check dead (some assigned) place =
      if e.isSolid then .ok (e.report dead assigned place) else .error .absent := by
  induction e generalizing place with
  | const | missing | foreign => rfl
  | hollow kind => cases kind <;> rfl
  | var name =>
      by_cases unnamed : name = ""
      · simp [check, report, isSolid, unnamed, pure, Except.pure]
      · cases dead with
        | true => simp [check, report, isSolid, unnamed, pure, Except.pure]
        | false =>
            by_cases known : name ∈ assigned <;>
              simp [check, report, isSolid, unnamed, known, Assigned.require, bind, Except.bind, pure,
                Except.pure]
  | binary op left right ihl ihr =>
      simp only [check, isSolid, ihl, ihr, ok_if_bind, Bool.and_eq_true, ite_and]
      rfl

mutual

theorem Stmt.check_eq (s : Stmt) (dead : Bool) (assigned : Assigned) (place : Place) :
    s.check dead (some assigned) place =
      if s.isSolid then .ok (s.report dead assigned place) else .error .absent := by
  cases s with
  | missing | hollow | foreign => rfl
  | block body => exact checkAll_eq body dead place 0 (some assigned)
  | assign target value =>
      rw [check, Expr.check_eq, ok_if_bind, isSolid]
      refine if_ctx_congr Iff.rfl (fun _ => ?_) fun _ => rfl
      simp only [report]
      split
      · rfl
      · rfl
      · simp only [Assigned.require, bind, Except.bind, pure, Except.pure]
  | ret result =>
      rw [check, Expr.check_eq, ok_if_bind, isSolid]
      rfl
  | ite cond then_ otherwise =>
      by_cases none : otherwise = .missing
      · subst none
        simp only [check, isSolid, Expr.check_eq, check_eq then_, Assigned.require, ok_if_bind, Bool.and_eq_true,
          and_true, ite_and]
        rfl
      · rw [check, report, isSolid]
        · simp only [Expr.check_eq, check_eq then_, check_eq otherwise, Assigned.require, ok_if_bind,
            Bool.and_eq_true, ite_and]
          rfl
        all_goals exact none
  | «while» cond body =>
      simp only [check, isSolid, Expr.check_eq, check_eq body, Assigned.require, ok_if_bind, Bool.and_eq_true,
        ite_and]
      rfl

theorem Stmt.checkAll_eq (body : List Stmt) (dead : Bool) (place : Place) (i : Nat)
    (scope : Option Assigned) :
    checkAll dead place i scope body =
      if areSolid body then .ok (reportAll dead place i scope body) else .error .absent := by
  cases body with
  | nil => rfl
  | cons s rest =>
      cases scope with
      | none =>
          simp only [checkAll, areSolid, Option.isNone_none, if_true, check_eq s, checkAll_eq rest, ok_if_bind,
            Bool.and_eq_true, ite_and]
          rfl
      | some assigned =>
          simp only [checkAll, areSolid, Option.isNone_some, Bool.false_eq_true, if_false, check_eq s,
            checkAll_eq rest, ok_if_bind, Bool.and_eq_true, ite_and]
          rfl

end

theorem check_eq (program : Stmt) (inputs : List String) :
    check program inputs = if program.isSolid then .ok (findings program inputs) else .error .absent := by
  rw [check, Stmt.check_eq, ok_if_bind]
  rfl

theorem check_eq_ok {program : Stmt} {inputs : List String} {report : Report} :
    check program inputs = .ok report ↔ program.isSolid = true ∧ findings program inputs = report := by
  rw [check_eq]
  split <;> simp_all

theorem check_eq_absent {program : Stmt} {inputs : List String} :
    check program inputs = .error .absent ↔ ¬ program.isSolid = true := by
  rw [check_eq]
  split <;> simp_all

end FlowFold
