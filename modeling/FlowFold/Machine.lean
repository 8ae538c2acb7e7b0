import FlowFold.Graph.Basic
import FlowFold.Text.Blank
import Std.Data.ExtTreeMap

/-! # Running graphs

A machine runs a graph from its entry until a return, one node a step, with a limit
on the number of steps that is tested before each. A run ends with a value, with an
error that a sound program may have, or with a fault. The variables and the number of
steps at that point are part of its result, whichever way it ended.
-/

namespace FlowFold

abbrev Store := Std.ExtTreeMap String Value

/-- The text of a store: the variables by name, one on a line. -/
def Store.text (store : Store) : String :=
  "# variables\n" ++ String.join (store.toList.map fun (name, v) =>
    Text.padLeft ' ' 10 name ++ " = " ++ shown v.text ++ "\n")

/-- Why a program could not be run to a return. -/
inductive RunError where
  /-- A variable was read that has no value. -/
  | undefined (name : String)
  /-- An operation has no result for operands of these kinds. -/
  | mismatch (left : Kind) (op : BinOp) (right : Kind)
  /-- The condition with this text gave a value that is not a boolean. -/
  | notBool (cond : String)
  /-- The program ended without a return. -/
  | noReturn
  /-- The limit was reached after so many steps. -/
  | stepLimit (steps : Nat)
  deriving Repr, DecidableEq

def RunError.message : RunError → String
  | undefined name => name ++ ": undefined variable"
  | mismatch left op right =>
      shown left.name ++ " " ++ op.text ++ " " ++ shown right.name ++ ": operand type mismatch"
  | notBool cond => cond ++ ": condition is not a boolean"
  | noReturn => "program ended without return"
  | stepLimit steps => "after " ++ toString steps ++ " steps: step limit exceeded"

/-- How a computation fails: by a fault, or by an error of the program. -/
inductive Failure where
  | fault (f : Fault)
  | error (e : RunError)
  deriving Repr, DecidableEq

/-- What a machine computes for an operator. -/
def BinOp.runOp : BinOp → Except Fault (Value → Value → Option Value)
  | .add => .ok Value.add?
  | .sub => .ok Value.sub?
  | .mul => .ok Value.mul?
  | .eq => .ok Value.eq?
  | .ne => .ok Value.ne?
  | .lt => .ok Value.lt?
  | .unknown code => .error (.unknownOp code)

def Expr.eval (store : Store) : Expr → Except Failure Value
  | .const v => .ok v
  | .var name =>
      match store[name]? with
      | some v => .ok v
      | none => .error (.error (.undefined name))
  | .binary op left right =>
      match op.runOp with
      | .error f => .error (.fault f)
      | .ok f => do
          let l ← left.eval store
          let r ← right.eval store
          match f l r with
          | some v => return v
          | none => throw (.error (.mismatch l.kind op r.kind))
  | .missing => .error (.fault .missingExpr)
  | .hollow _ => .error (.fault .absent)
  | .foreign other => .error (.fault (.foreignExpr other.typeName))

/-- The truth of a condition, with the condition's text. -/
def Expr.test (store : Store) (e : Expr) : Except Failure (Bool × String) := do
  let v ← e.eval store
  let text ← e.flatText.mapError Failure.fault
  if v.kind = .bool then return (v.flag, text) else throw (.error (.notBool text))

inductive Action where
  | assign (name : String) (value : Value)
  /-- Tested the condition of a branch. -/
  | branch (cond : String) (holds : Bool)
  /-- Tested the condition of a loop. -/
  | loop (cond : String) (holds : Bool)
  | ret (value : Value)
  | quit
  deriving Repr, DecidableEq

def Action.text : Action → String
  | assign name value => line "assign" (name ++ " <- " ++ shown value.text)
  | branch cond holds => line "cond" (cond ++ " -> " ++ toString holds)
  | loop cond holds => line "while" (cond ++ " -> " ++ toString holds)
  | ret value => line "return" (shown value.text)
  | quit => line "quit" ""
where
  line (name rest : String) : String := Text.padRight 10 name ++ " | " ++ rest ++ "\n"

/-- What a step leads to: the next node, or the end of the run. -/
inductive Outcome where
  | next (id : NodeId) (store : Store)
  | returned (value : Value)
  | failed (e : Failure)

/-- Run one node: what the machine did, if it got so far, and where that leads. -/
def Node.step (n : Node) (store : Store) : Option Action × Outcome :=
  match n.instr with
  | .assign name value next =>
      match value.eval store with
      | .error e => (none, .failed e)
      | .ok v => (some (.assign name v), .next next (store.insert name v))
  | .branch cond yes no _ =>
      match cond.test store with
      | .error e => (none, .failed e)
      | .ok (holds, text) => (some (.branch text holds), .next (if holds then yes else no) store)
  | .loop cond body join =>
      match cond.test store with
      | .error e => (none, .failed e)
      | .ok (holds, text) => (some (.loop text holds), .next (if holds then body else join) store)
  | .ret result =>
      match result.eval store with
      | .error e => (none, .failed e)
      | .ok v => (some (.ret v), .returned v)
  | .quit => (some .quit, .failed (.error .noReturn))

structure Run where
  result : Except Failure Value
  /-- The number of steps. -/
  steps : Nat
  /-- The variables at the end. -/
  store : Store
  /-- What was done, in order. -/
  actions : List Action

/-- Go on from a node, with so many steps left and so many made. The actions made so
    far are given the latest first. -/
def Graph.runFrom (g : Graph) : Nat → Nat → NodeId → Store → List Action → Run
  | 0, steps, _, store, actions =>
      ⟨.error (.error (.stepLimit steps)), steps, store, actions.reverse⟩
  | left + 1, steps, id, store, actions =>
      match g.node id with
      | .error f => ⟨.error (.fault f), steps + 1, store, actions.reverse⟩
      | .ok n =>
          let (action, outcome) := n.step store
          let actions := action.toList ++ actions
          match outcome with
          | .next id store => runFrom g left (steps + 1) id store actions
          | .returned v => ⟨.ok v, steps + 1, store, actions.reverse⟩
          | .failed e => ⟨.error e, steps + 1, store, actions.reverse⟩

/-- The limit that holds unless another one is set. -/
def defaultLimit : Int := 100000

def Graph.run (g : Graph) (limit : Int) (store : Store) : Run :=
  g.runFrom limit.toNat 0 g.entry store []

end FlowFold
