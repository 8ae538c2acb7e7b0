import FlowFold.Syntax.Piece

/-! # Checking programs

A check goes through a whole program and reports two lists of findings. Errors are about
malformed trees, from which no graph can be formed: holes, variables without a
name, operators without a meaning, parts of foreign kinds. Warnings are about
well-formed but suspicious programs: a variable read on a path that may not have
assigned it, and code after a return.

Checking a statement takes the variables that are certainly assigned before it and
gives those certainly assigned after it, or `none` if no path continues past it.
Code that no path reaches is still searched for errors, but reads in it give no
warnings.

Of the references that refer to nothing, only those to variables are found to do so.
One to a literal passes for a literal, and the check is at fault as soon as it looks
into one to an operation or to a statement.
-/

namespace FlowFold

inductive Problem where
  | missingStmt
  | missingExpr
  | emptyName
  | unknownOp
  | unknownNode
  | maybeUnassigned
  | unreachable
  deriving Repr, DecidableEq

def Problem.message : Problem → String
  | missingStmt => "missing statement"
  | missingExpr => "missing expression"
  | emptyName => "variable without a name"
  | unknownOp => "unknown binary operator"
  | unknownNode => "unknown node"
  | maybeUnassigned => "variable may be used before assignment"
  | unreachable => "unreachable code after return"

/-- One step from a piece of a program to a part of it. -/
inductive Step where
  /-- The statement of a block at a position. -/
  | index (i : Nat)
  /-- The value of an assignment. -/
  | value
  /-- The result of a return. -/
  | result
  /-- The condition of a branch or loop. -/
  | cond
  /-- The branch taken if the condition holds. -/
  | thenBranch
  /-- The branch taken if it does not. -/
  | elseBranch
  /-- The body of a loop. -/
  | body
  /-- The left operand. -/
  | left
  /-- The right operand. -/
  | right
  deriving Repr, DecidableEq

def Step.text : Step → String
  | index i => "[" ++ toString i ++ "]"
  | value => ".value"
  | result => ".result"
  | cond => ".cond"
  | thenBranch => ".then"
  | elseBranch => ".else"
  | body => ".body"
  | left => ".left"
  | right => ".right"

/-- A place in a program: the steps that lead to it from the top. -/
abbrev Place := List Step

/-- The text of a place, such as `program[2].body.left`. -/
def Place.text (place : Place) : String :=
  "program" ++ String.join (place.map Step.text)

/-- A problem, where it is, and the piece of the program that has it. -/
structure Finding where
  problem : Problem
  place : Place
  piece : Piece
  deriving DecidableEq

/-- The text of a finding. It ends with the piece, unless there is only a hole. -/
def Finding.text (f : Finding) : String :=
  let about := f.place.text ++ ": " ++ f.problem.message
  match f.piece with
  | .expr .missing | .stmt .missing => about
  | .expr e => about ++ ": " ++ e.inline
  | .stmt s => about ++ ": " ++ s.inline

/-- The findings of a check, errors and warnings apart, each in the order found. -/
structure Report where
  errors : List Finding
  warnings : List Finding
  deriving DecidableEq

namespace Report

def empty : Report := ⟨[], []⟩

def error (problem : Problem) (place : Place) (piece : Piece) : Report :=
  ⟨[⟨problem, place, piece⟩], []⟩

def warning (problem : Problem) (place : Place) (piece : Piece) : Report :=
  ⟨[], [⟨problem, place, piece⟩]⟩

instance : Append Report where
  append a b := ⟨a.errors ++ b.errors, a.warnings ++ b.warnings⟩

end Report

/-- The variables certainly assigned on every path to a place. -/
abbrev Assigned := List String

/-- The variables of a scope, which has to be there. -/
def Assigned.require : Option Assigned → Except Fault Assigned
  | none => .error .absent
  | some assigned => .ok assigned

/-- Check an expression. In dead code, reading an unassigned variable is no finding; elsewhere
    it takes a scope to tell. -/
def Expr.check (dead : Bool) (scope : Option Assigned) (place : Place) : Expr → Except Fault Report
  | .missing => .ok (.error .missingExpr place (.expr .missing))
  | .hollow .const => .ok .empty
  | .hollow .var => .ok (.error .missingExpr place (.expr (.hollow .var)))
  | .hollow .binary => .error .absent
  | .foreign other => .ok (.error .unknownNode place (.expr (.foreign other)))
  | .const _ => .ok .empty
  | .var name => do
      if name = "" then return .error .emptyName place (.expr (.var name))
      if dead then return .empty
      let assigned ← Assigned.require scope
      if assigned.contains name then return .empty
      return .warning .maybeUnassigned place (.expr (.var name))
  | .binary op left right => do
      let here := if op.isKnown then .empty else .error .unknownOp place (.expr (.binary op left right))
      let l ← left.check dead scope (place ++ [.left])
      let r ← right.check dead scope (place ++ [.right])
      return here ++ l ++ r

/-- The variables certainly assigned after two paths meet. A path that does not
    continue has no say. -/
def Assigned.meet : Option Assigned → Option Assigned → Option Assigned
  | none, other => other
  | some a, none => some a
  | some a, some b => some (a.filter b.contains)

mutual

/-- Check a statement in a scope. Assigning adds to the scope, and a branch or a loop gets a
    copy of it. -/
def Stmt.check (dead : Bool) (scope : Option Assigned) (place : Place) :
    Stmt → Except Fault (Report × Option Assigned)
  | .missing => .ok (.error .missingStmt place (.stmt .missing), scope)
  | .hollow _ => .error .absent
  | .foreign other => .ok (.error .unknownNode place (.stmt (.foreign other)), scope)
  | .block body => checkAll dead place 0 scope body
  | .assign target value => do
      let report ← value.check dead scope (place ++ [.value])
      let here := Piece.stmt (.assign target value)
      match target with
      | none => return (report ++ .error .missingExpr place here, scope)
      | some "" => return (report ++ .error .emptyName place here, scope)
      | some name => return (report, some (name :: (← Assigned.require scope)))
  | .ret result => do
      let report ← result.check dead scope (place ++ [.result])
      return (report, none)
  | .ite cond then_ .missing => do
      let report ← cond.check dead scope (place ++ [.cond])
      let copy ← Assigned.require scope
      let (r, after) ← then_.check dead (some copy) (place ++ [.thenBranch])
      return (report ++ r, Assigned.meet after scope)
  | .ite cond then_ otherwise => do
      let report ← cond.check dead scope (place ++ [.cond])
      let copy ← Assigned.require scope
      let (r, after) ← then_.check dead (some copy) (place ++ [.thenBranch])
      let copy' ← Assigned.require scope
      let (r', after') ← otherwise.check dead (some copy') (place ++ [.elseBranch])
      return (report ++ r ++ r', Assigned.meet after after')
  | .while cond body => do
      -- The body may not run at all, so nothing that it assigns is certain afterwards.
      let report ← cond.check dead scope (place ++ [.cond])
      let copy ← Assigned.require scope
      let (r, _) ← body.check dead (some copy) (place ++ [.body])
      return (report ++ r, scope)

/-- Check the statements of a block from position `i` on. Where there is no scope, a statement
    gets an empty one. -/
def Stmt.checkAll (dead : Bool) (place : Place) (i : Nat) (scope : Option Assigned) :
    List Stmt → Except Fault (Report × Option Assigned)
  | [] => .ok (.empty, scope)
  | s :: rest => do
      if scope.isNone then
        let (r, _) ← s.check true (some []) (place ++ [.index i])
        let (r', after) ← checkAll dead place (i + 1) none rest
        return (.warning .unreachable (place ++ [.index i]) (.stmt s) ++ r ++ r', after)
      else
        let (r, after) ← s.check dead scope (place ++ [.index i])
        let (r', after') ← checkAll dead place (i + 1) after rest
        return (r ++ r', after')

end

/-- Check a whole program. The inputs are variables that are assigned before it runs. -/
def check (program : Stmt) (inputs : List String) : Except Fault Report := do
  let (report, _) ← program.check false (some inputs) []
  return report

end FlowFold
