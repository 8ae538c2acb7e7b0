import FlowFold.Analysis.Env
import FlowFold.Graph.Basic

/-! # Expectations

Checks for tests. A check looks at subjects, which are things of any of the types that
tests compare, and gives the lines that describe what is wrong, or none if all is well.
A report then turns these lines into calls on a test: a lenient report lets the test go
on, a strict one ends it.

Two subjects are equal only if they are of the same type. Something absent is never
equal to something empty.
-/

namespace FlowFold

def ExprKind.typeName : ExprKind → String
  | const => "*node.Const"
  | var => "*node.Variable"
  | binary => "*node.OpBinary"

def StmtKind.typeName : StmtKind → String
  | block => "*node.Block"
  | assign => "*node.Assign"
  | ite => "*node.If"
  | .while => "*node.While"
  | ret => "*node.Return"

/-- Something that a test looks at. -/
inductive Subject where
  /-- Nothing at all, not even a type. -/
  | nothing
  | int (n : Int)
  | int32 (n : Int)
  | bool (b : Bool)
  | str (s : String)
  | id (id : NodeId)
  | value (v : Value)
  | fact (f : Fact)
  | key (k : Key)
  | expr (e : Expr)
  | stmt (s : Stmt)
  | env (e : Option Env)
  | strs (xs : Option (List String))
  | ids (xs : Option (List NodeId))
  /-- Edges, each with the code of its kind. -/
  | edges (xs : List (NodeId × Int))
  | pair (a b : Int)
  deriving DecidableEq

namespace Subject

/-- An expression as a subject; a missing one is nothing at all. -/
def ofExpr : Expr → Subject
  | .missing => nothing
  | e => expr e

/-- A statement as a subject; a missing one is nothing at all. -/
def ofStmt : Stmt → Subject
  | .missing => nothing
  | s => stmt s

def typeName : Subject → String
  | nothing => "<nil>"
  | int _ => "int"
  | int32 _ => "int32"
  | bool _ => "bool"
  | str _ => "string"
  | id _ => "cfg.NodeId"
  | value _ => "value.Value"
  | fact _ => "fold.AValue"
  | key _ => "fold.Key"
  | expr e =>
      match e with
      | .const _ => ExprKind.const.typeName
      | .var _ => ExprKind.var.typeName
      | .binary .. => ExprKind.binary.typeName
      | .hollow kind => kind.typeName
      | .foreign other => other.typeName
      | .missing => "<nil>"
  | stmt s =>
      match s with
      | .block _ => StmtKind.block.typeName
      | .assign .. => StmtKind.assign.typeName
      | .ite .. => StmtKind.ite.typeName
      | .while .. => StmtKind.while.typeName
      | .ret _ => StmtKind.ret.typeName
      | .hollow kind => kind.typeName
      | .foreign other => other.typeName
      | .missing => "<nil>"
  | env _ => "fold.Env"
  | strs _ => "[]string"
  | ids _ => "[]cfg.NodeId"
  | edges _ => "[]cfg.Edge"
  | pair .. => "[2]int"

def bracketed (xs : List String) : String := "[" ++ " ".intercalate xs ++ "]"

/-- The text of a subject in a slot of a larger text. A text that cannot be written
    leaves a placeholder. -/
def text (slot : Char) : Subject → String
  | nothing => "<nil>"
  | int n | int32 n => toString n
  | bool b => toString b
  | str s => s
  | id n => toString n
  | value v => fill v.text
  | fact f => fill f.text
  | key k => fill k.text
  | expr (.hollow _) | stmt (.hollow _) => "<nil>"
  | expr e => fill e.text
  | stmt s => fill s.text
  | env e => (e.getD ∅).text
  | strs xs => bracketed (xs.getD [])
  | ids xs => bracketed ((xs.getD []).map toString)
  | edges xs => bracketed (xs.map fun (target, code) =>
      "\x7b" ++ toString target ++ " " ++ fill (EdgeKind.textOfCode code) ++ "\x7d")
  | pair a b => bracketed [toString a, toString b]
where
  fill (part : Except Fault String) : String :=
    match part with
    | .ok s => s
    | .error f => f.placeholder slot

/-- Whether a subject is absent: nothing at all, or a reference, map or list that is not
    there. -/
def isAbsent : Subject → Bool
  | nothing | expr (.hollow _) | stmt (.hollow _) | env none | strs none | ids none => true
  | _ => false

/-- The length of a subject that has one: of a text, the number of its bytes. -/
def length? : Subject → Option Nat
  | str s => some s.utf8ByteSize
  | env e => some ((e.getD ∅).size)
  | strs xs => some (xs.getD []).length
  | ids xs => some (xs.getD []).length
  | edges xs => some xs.length
  | pair .. => some 2
  | _ => none

/-- How a subject stands in a slot that does not fit it. -/
def misfit (slot : String) (s : Subject) : String :=
  match s with
  | nothing => "%!" ++ slot ++ "(<nil>)"
  | s => "%!" ++ slot ++ "(" ++ s.typeName ++ "=" ++ s.text 'v' ++ ")"

/-- A subject in a slot: `d` for numbers, `s` for texts and all that has a text, `v` for
    anything. -/
def inSlot (slot : Char) (s : Subject) : String :=
  match slot, s with
  | 'v', s => s.text 'v'
  | 'd', int _ | 'd', int32 _ | 'd', id _ | 'd', ids _ | 'd', pair .. => s.text 'd'
  | 's', nothing | 's', int _ | 's', int32 _ | 's', bool _ | 's', id _ => misfit "s" s
  | 's', s => s.text 's'
  | slot, s => misfit slot.toString s

end Subject

namespace Expectation

/-- Fill the slots of a format with subjects, in order. -/
def fill : List Char → List Subject → String
  | [], [] => ""
  | [], extra => "%!(EXTRA " ++ ", ".intercalate (extra.map fun s =>
      match s with
      | .nothing => "<nil>"
      | s => s.typeName ++ "=" ++ s.text 'v') ++ ")"
  | '%' :: '%' :: rest, args => "%" ++ fill rest args
  | ['%'], args => "%!(NOVERB)" ++ fill [] args
  | '%' :: slot :: rest, arg :: args => arg.inSlot slot ++ fill rest args
  | '%' :: slot :: rest, [] => "%!" ++ slot.toString ++ "(MISSING)" ++ fill rest []
  | c :: rest, args => c.toString ++ fill rest args

def equal (expected got : Subject) : List String :=
  if expected = got then []
  else [
    "wanted equal, but got different",
    "expected: " ++ expected.text 'v' ++ " [" ++ expected.typeName ++ "]",
    "got:      " ++ got.text 'v' ++ " [" ++ got.typeName ++ "]"]

def absent (s : Subject) : List String :=
  if s.isAbsent then []
  else ["wanted nil, got " ++ s.text 'v' ++ " of type " ++ s.typeName]

def present (s : Subject) : List String :=
  if s.isAbsent then ["wanted not nil, got nil"] else []

def hasLength (s : Subject) (n : Int) : List String :=
  match s.length? with
  | none => ["cannot take length of " ++ s.typeName]
  | some length =>
      if (length : Int) = n then []
      else ["wanted length " ++ toString n ++ ", got " ++ toString length ++ ": " ++ s.text 'v']

def faults {α : Type} (computation : Except Fault α) : List String :=
  match computation with
  | .error _ => []
  | .ok _ => ["expected panic, got none"]

def holds (wanted got : Bool) : List String :=
  if got = wanted then [] else ["expected " ++ toString wanted ++ ", got " ++ toString got]

/-- Whether a test goes on after a check that failed. -/
inductive Style where
  | lenient
  | strict
  deriving Repr, DecidableEq

/-- A call on a test. -/
inductive Call where
  /-- Mark the test as failed, with a formatted text. -/
  | errorf (text : String)
  /-- Log a formatted text. -/
  | logf (text : String)
  /-- Mark the test as failed. -/
  | error (text : String)
  | log (text : String)
  /-- End the test. -/
  | failNow
  deriving Repr, DecidableEq

/-- The calls that report what is wrong: the line of the check, the text of the caller if
    the format is not empty, and the lines themselves. -/
def report (style : Style) (lines : List String) (format : String) (args : List Subject) :
    List Call :=
  if lines.isEmpty then []
  else
    let caller := Call.errorf "[ caller ]"
    let own := fill format.toList args
    match style with
    | .lenient =>
        caller :: (if format.isEmpty then [] else [.errorf own]) ++ lines.map .error
    | .strict =>
        caller :: (if format.isEmpty then [] else [.logf own]) ++ lines.map .log ++ [.failNow]

end Expectation

end FlowFold
