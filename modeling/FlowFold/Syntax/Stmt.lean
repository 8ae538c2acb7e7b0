import FlowFold.Syntax.Expr

/-! # Statements

A program is one statement, usually a block. As with expressions, the trees come
from callers and may have holes. An `if` without an else branch has `missing` in
its place, which is the one position where nothing needs to stand.
-/

namespace FlowFold

inductive StmtKind where
  | block
  | assign
  | ite
  | while
  | ret
  deriving Repr, DecidableEq

/-- Statements, holes included. -/
inductive Stmt where
  /-- Run the statements in order. -/
  | block (body : List Stmt)
  /-- Give a variable a value. The target may be absent in a malformed tree. -/
  | assign (target : Option String) (value : Expr)
  /-- Run one of two branches; an `otherwise` that is `missing` means there is none. -/
  | ite (cond : Expr) (then_ otherwise : Stmt)
  /-- Run the body as long as the condition holds. -/
  | while (cond : Expr) (body : Stmt)
  /-- End the program with a result. -/
  | ret (result : Expr)
  /-- No statement. -/
  | missing
  /-- A reference to a statement of a kind, that refers to nothing. -/
  | hollow (kind : StmtKind)
  | foreign (other : Foreign)
  deriving Repr

namespace Stmt

instance : Inhabited Stmt := ⟨missing⟩

def set (name : String) (value : Expr) : Stmt := assign (some name) value

mutual

def decEq (a b : Stmt) : Decidable (a = b) :=
  match a, b with
  | block xs, block ys =>
      match decEqAll xs ys with
      | isTrue h => isTrue (by rw [h])
      | isFalse h => isFalse (by intro e; injection e; contradiction)
  | assign t v, assign t' v' =>
      if h : t = t' ∧ v = v' then isTrue (by rw [h.1, h.2])
      else isFalse (by intro e; injection e with h₁ h₂; exact h ⟨h₁, h₂⟩)
  | ite c x y, ite c' x' y' =>
      if h : c = c' then
        match decEq x x', decEq y y' with
        | isTrue h₁, isTrue h₂ => isTrue (by rw [h, h₁, h₂])
        | isFalse h₁, _ => isFalse (by intro e; injection e; contradiction)
        | _, isFalse h₂ => isFalse (by intro e; injection e; contradiction)
      else isFalse (by intro e; injection e; contradiction)
  | .while c x, .while c' x' =>
      if h : c = c' then
        match decEq x x' with
        | isTrue h₁ => isTrue (by rw [h, h₁])
        | isFalse h₁ => isFalse (by intro e; injection e; contradiction)
      else isFalse (by intro e; injection e; contradiction)
  | ret r, ret r' =>
      if h : r = r' then isTrue (by rw [h])
      else isFalse (by intro e; injection e; contradiction)
  | missing, missing => isTrue rfl
  | hollow k, hollow k' =>
      if h : k = k' then isTrue (by rw [h])
      else isFalse (by intro e; injection e; contradiction)
  | foreign f, foreign f' =>
      if h : f = f' then isTrue (by rw [h])
      else isFalse (by intro e; injection e; contradiction)
  | block _, assign .. | block _, ite .. | block _, .while .. | block _, ret _
  | block _, missing | block _, hollow _ | block _, foreign _
  | assign .., block _ | assign .., ite .. | assign .., .while .. | assign .., ret _
  | assign .., missing | assign .., hollow _ | assign .., foreign _
  | ite .., block _ | ite .., assign .. | ite .., .while .. | ite .., ret _
  | ite .., missing | ite .., hollow _ | ite .., foreign _
  | .while .., block _ | .while .., assign .. | .while .., ite .. | .while .., ret _
  | .while .., missing | .while .., hollow _ | .while .., foreign _
  | ret _, block _ | ret _, assign .. | ret _, ite .. | ret _, .while ..
  | ret _, missing | ret _, hollow _ | ret _, foreign _
  | missing, block _ | missing, assign .. | missing, ite .. | missing, .while ..
  | missing, ret _ | missing, hollow _ | missing, foreign _
  | hollow _, block _ | hollow _, assign .. | hollow _, ite .. | hollow _, .while ..
  | hollow _, ret _ | hollow _, missing | hollow _, foreign _
  | foreign _, block _ | foreign _, assign .. | foreign _, ite .. | foreign _, .while ..
  | foreign _, ret _ | foreign _, missing | foreign _, hollow _ => isFalse (by intro e; cases e)

def decEqAll (xs ys : List Stmt) : Decidable (xs = ys) :=
  match xs, ys with
  | [], [] => isTrue rfl
  | x :: xs, y :: ys =>
      match decEq x y, decEqAll xs ys with
      | isTrue h₁, isTrue h₂ => isTrue (by rw [h₁, h₂])
      | isFalse h₁, _ => isFalse (by intro e; injection e; contradiction)
      | _, isFalse h₂ => isFalse (by intro e; injection e; contradiction)
  | [], _ :: _ | _ :: _, [] => isFalse (by intro e; cases e)

end

instance : DecidableEq Stmt := decEq

mutual

/-- The prefixed form of a statement as a part of a larger text. -/
def inline : Stmt → String
  | block body => "(begin" ++ inlineAll body ++ ")"
  | assign target value => "(assign " ++ target.getD "<nil>" ++ " " ++ value.inline ++ ")"
  | ite cond then_ missing => "(if " ++ cond.inline ++ " " ++ then_.inline ++ " 'noelse)"
  | ite cond then_ otherwise =>
      "(if " ++ cond.inline ++ " " ++ then_.inline ++ " " ++ otherwise.inline ++ ")"
  | .while cond body => "(while " ++ cond.inline ++ " " ++ body.inline ++ ")"
  | ret result => "(return " ++ result.inline ++ ")"
  | missing => "%!s(<nil>)"
  | hollow _ => "<nil>"
  | foreign other => other.text

/-- The statements of a block, each after a blank. -/
def inlineAll : List Stmt → String
  | [] => ""
  | s :: rest => " " ++ s.inline ++ inlineAll rest

end

/-- The prefixed form of a statement on its own. -/
def text : Stmt → Except Fault String
  | missing | hollow _ => .error .absent
  | s => .ok s.inline

end Stmt

end FlowFold
