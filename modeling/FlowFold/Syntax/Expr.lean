import FlowFold.Value

/-! # Expressions

Expressions are built by callers, not parsed, so a tree may have holes: a missing
operand, a reference that refers to nothing, an operator code that means nothing,
or a part of a foreign kind. Such trees can be printed; evaluating one is a fault.

A reference that refers to nothing still has a type, so it is told apart from a
missing part: it is taken for an expression of that type until its content is
asked for.

There are two texts. The prefixed form `(+ 1 x)` brackets every operation and
tolerates holes: a part that cannot be written leaves a placeholder. The flat form
`(1+x)` is used in labels and brackets sums and differences only; there a part
that cannot be written is a fault of the whole.
-/

namespace FlowFold

inductive BinOp where
  | add
  | sub
  | mul
  | eq
  | ne
  | lt
  /-- A code that stands for no operator. -/
  | unknown (code : Int)
  deriving Repr, DecidableEq

namespace BinOp

def ofCode : Int → BinOp
  | 0 => add
  | 1 => sub
  | 2 => mul
  | 3 => eq
  | 4 => ne
  | 5 => lt
  | code => unknown code

/-- Whether the operator has a meaning. -/
def isKnown : BinOp → Bool
  | unknown _ => false
  | _ => true

def text : BinOp → String
  | add => "+"
  | sub => "-"
  | mul => "*"
  | eq => "=="
  | ne => "!="
  | lt => "<"
  | unknown code => "op" ++ toString code

/-- Whether the flat form puts the operation in brackets. -/
def isBracketed : BinOp → Bool
  | add | sub => true
  | _ => false

end BinOp

/-- A part of a program of a kind that this library does not know. -/
structure Foreign where
  typeName : String
  /-- Its text, which it writes itself. -/
  text : String
  deriving Repr, DecidableEq

inductive ExprKind where
  | const
  | var
  | binary
  deriving Repr, DecidableEq

/-- Expressions, holes included. -/
inductive Expr where
  /-- A literal. -/
  | const (value : Value)
  | var (name : String)
  /-- An operation on two operands. -/
  | binary (op : BinOp) (left right : Expr)
  /-- No expression, where there should be one. -/
  | missing
  /-- A reference to an expression of a kind, that refers to nothing. -/
  | hollow (kind : ExprKind)
  | foreign (other : Foreign)
  deriving Repr, DecidableEq

namespace Expr

instance : Inhabited Expr := ⟨missing⟩

def int (n : Int32) : Expr := const (.ofInt n)

def bool (b : Bool) : Expr := const (.ofBool b)

/-- The prefixed form of a literal, in which booleans are `#t` and `#f`. -/
def literalText (v : Value) : Except Fault String :=
  match v.kind with
  | .bool => .ok (if v.flag then "#t" else "#f")
  | _ => v.text

/-- The prefixed form of an expression as a part of a larger text. -/
def inline : Expr → String
  | const v => shown (literalText v)
  | var name => name
  | binary op left right => "(" ++ op.text ++ " " ++ left.inline ++ " " ++ right.inline ++ ")"
  | missing => "%!s(<nil>)"
  | hollow _ => "<nil>"
  | foreign other => other.text

/-- The prefixed form of an expression on its own. -/
def text : Expr → Except Fault String
  | const v => literalText v
  | missing | hollow _ => .error .absent
  | e => .ok e.inline

/-- The flat form of an expression, used in labels. -/
def flatText : Expr → Except Fault String
  | const v => v.text
  | var name => .ok name
  | binary op left right => do
      let l ← left.flatText
      let r ← right.flatText
      let s := l ++ op.text ++ r
      return if op.isBracketed then "(" ++ s ++ ")" else s
  | missing => .ok "<nil>"
  | hollow _ => .error .absent
  | foreign other => .error (.foreignExpr other.typeName)

end Expr

end FlowFold
