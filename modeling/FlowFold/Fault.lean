/-! # Faults

A fault is a misuse that ends the computation in which it happens: a tree with a
hole where a part is needed, a handle that no node has, a tag that no value may
carry. Failures that a sound program can have, such as an unassigned variable at
run time, are not faults; they have their own types beside the operations that
report them.

Texts are built around parts that may be faulty. A part that cannot be written
does not spoil the text around it: `Fault.placeholder` stands in its place.
-/

namespace FlowFold

/-- Why a computation could not go on. -/
inductive Fault where
  /-- A statement is needed where the tree has none. -/
  | missingStmt
  /-- A statement of a kind that this library does not know, by the name of its type. -/
  | foreignStmt (typeName : String)
  /-- An expression is needed where the tree has none. -/
  | missingExpr
  /-- An expression of a kind that this library does not know. -/
  | foreignExpr (typeName : String)
  /-- A graph node of a kind that this library does not know. -/
  | foreignNode (typeName : String)
  /-- An operator code without a meaning. -/
  | unknownOp (code : Int)
  /-- A value whose tag is neither an integer's nor a boolean's. -/
  | badValueKind (code : Int)
  /-- An environment key that names neither a variable nor a node. -/
  | badKeyKind (code : Int)
  /-- A rendering format that does not exist. -/
  | badFormat (code : Int)
  /-- A handle at or beyond the end of a graph's arena. -/
  | outsideGraph (id size : Nat)
  /-- A loop body was to be attached to a node that is not a loop. -/
  | notLoop (node : String)
  /-- The answers of an analysis were asked for before it ran. -/
  | notRun
  /-- The analysis reached a node and yet has no entry for the node's own key. -/
  | noEntry (key : String) (node : Nat) (env : String)
  /-- A connection was asked for without saying where it should end. -/
  | noEnd
  /-- A recursion that would never end. -/
  | endless
  /-- A name table was asked for a name that it does not have. -/
  | badIndex (index : Int) (size : Nat)
  /-- The content of something absent was asked for. -/
  | absent
  deriving Repr, DecidableEq

namespace Fault

def message : Fault → String
  | missingStmt => "nil statement"
  | foreignStmt typeName => "unhandled statement: " ++ typeName
  | missingExpr => "unhandled expression: <nil>"
  | foreignExpr typeName => "unhandled expression: " ++ typeName
  | foreignNode typeName => "unhandled node: " ++ typeName
  | unknownOp code => "unhandled binary operator: op" ++ toString code
  | badValueKind code => "invalid value kind: " ++ toString code
  | badKeyKind code => "invalid key kind: " ++ toString code
  | badFormat code => "unhandled format: " ++ toString code
  | outsideGraph id size =>
      "node " ++ toString id ++ " not in graph of " ++ toString size ++ " nodes"
  | notLoop node => "setting body of non-while node " ++ node
  | notRun => "analysis has not been run"
  | noEntry key node env =>
      "no " ++ key ++ " in environment of node " ++ toString node ++ ": " ++ env
  | noEnd => "no end cb"
  | endless => "stack overflow"
  | badIndex index size =>
      "runtime error: index out of range [" ++ toString index ++ "]" ++
        if index < 0 then "" else " with length " ++ toString size
  | absent => "runtime error: invalid memory address or nil pointer dereference"

/-- What stands in a text for a part that could not be written. The letter says
    what kind of slot the part was to fill: `s` for a text, `v` for any value. -/
def placeholder (slot : Char) (f : Fault) : String :=
  "%!" ++ slot.toString ++ "(PANIC=String method: " ++ f.message ++ ")"

end Fault

/-- A part as it appears inside a larger text: its own text, or a placeholder. -/
def shown (part : Except Fault String) : String :=
  match part with
  | .ok text => text
  | .error f => f.placeholder 's'

def nameAt (names : List String) (index : Int) : Except Fault String :=
  match index with
  | .ofNat n =>
      match names[n]? with
      | some name => .ok name
      | none => .error (.badIndex index names.length)
  | .negSucc _ => .error (.badIndex index names.length)

end FlowFold
