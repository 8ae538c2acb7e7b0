import FlowFold.Graph.Basic
import Std.Data.ExtTreeMap

/-! # What is known where

An environment records what is known at a point of a program: about its variables,
and about the expressions of nodes that have run. A fact is a constant or the lack
of one. Environments are finite maps in which a key that is absent and a key that is
present but unknown are different; looking a key up does not tell the two apart.

Two environments with the same entries are equal, and their entries are listed in
the order of the keys.
-/

namespace FlowFold

/-- What is known about a value. -/
inductive Fact where
  /-- It is this constant. -/
  | known (value : Value)
  /-- Nothing. The analysis leaves zero in the unused slot, but a caller may have put
      another value there, and then the two facts differ. -/
  | unknown (unused : Value)
  deriving Repr, DecidableEq

namespace Fact

def nothing : Fact := unknown (.ofInt 0)

def text : Fact → Except Fault String
  | known v => v.text
  | unknown _ => .ok "?"

end Fact

/-- What an entry is about. The code tells which of the other fields counts: with 0
    the key is a variable, with 1 the expression of a node that assigns nothing. Such
    expressions go by node, because different nodes may have the same expression. -/
structure Key where
  code : Int
  name : String
  node : NodeId
  deriving Repr, DecidableEq

namespace Key

def var (name : String) : Key := ⟨0, name, 0⟩

def expr (id : NodeId) : Key := ⟨1, "", id⟩

/-- Keys go by code, then by name, then by node. -/
def order : Key → Key → Ordering :=
  compareLex (compareOn code) (compareLex (compareOn name) (compareOn node))

instance : Ord Key := ⟨order⟩

instance : Std.TransCmp order := by
  unfold order
  infer_instance

instance : Std.TransOrd Key := inferInstanceAs (Std.TransCmp order)

instance : Std.LawfulEqOrd Key where
  eq_of_compare := by
    intro a b h
    have h : (compare a.code b.code).then
        ((compare a.name b.name).then (compare a.node b.node)) = .eq := h
    rw [Ordering.then_eq_eq, Ordering.then_eq_eq] at h
    obtain ⟨h₁, h₂, h₃⟩ := h
    cases a
    cases b
    simp_all

def text (k : Key) : Except Fault String :=
  match k.code with
  | 0 => .ok k.name
  | 1 => .ok ("@" ++ toString k.node)
  | code => .error (.badKeyKind code)

end Key

/-- What is known at a point of a program. -/
abbrev Env := Std.ExtTreeMap Key Fact

namespace Env

def get (env : Env) (k : Key) : Fact := env.getD k .nothing

/-- The text of an environment: its entries in order. -/
def text (env : Env) : String :=
  let entries := env.toList.map fun (k, fact) => shown k.text ++ "=" ++ shown fact.text
  "\x7b" ++ " ".intercalate entries ++ "\x7d"

/-- The fact on which all environments agree, given the fact of one of them. -/
def agreed (envs : List Env) (k : Key) (fact : Fact) : Fact :=
  if envs.all fun env => env.get k = fact then fact else .nothing

/-- What is known where several ways meet. Every key of any of the environments has an
    entry, and keeps its fact if all of them agree on it. -/
def merge (envs : List Env) : Env :=
  envs.foldl (fun merged env =>
    env.foldl (fun merged k fact =>
      if k ∈ merged then merged else merged.insert k (agreed envs k fact)) merged) ∅

end Env

/-- What the analysis computes for an operator whose operands are constants. Operands of the
    wrong kinds have no result; an unknown operator has no meaning at all. -/
def BinOp.foldOp : BinOp → Except Fault (Value → Value → Option Value)
  | .add => .ok Value.add?
  | .sub => .ok Value.sub?
  | .mul => .ok Value.mul?
  | .eq => .ok Value.eq?
  | .ne => .ok Value.ne?
  | .lt => .ok Value.lt?
  | .unknown code => .error (.unknownOp code)

/-- What is known about an expression. Only constant operands give a constant; the
    operation may still have no result for them. -/
def Expr.evaluate (env : Env) : Expr → Except Fault Fact
  | .const v => .ok (.known v)
  | .var name => .ok (env.get (.var name))
  | .binary op left right => do
      let f ← op.foldOp
      let l ← left.evaluate env
      let r ← right.evaluate env
      match l, r with
      | .known a, .known b => return ((f a b).map Fact.known).getD .nothing
      | _, _ => return .nothing
  | .missing => .error .missingExpr
  | .hollow _ => .error .absent
  | .foreign other => .error (.foreignExpr other.typeName)

end FlowFold
