import FlowFold.Syntax.Stmt

/-! # Control-flow graphs

Every executable statement is a node of its own: an assignment, a return, a branch
or a loop. Branches and loops also carry their join, the node where the two ways
out meet again. Nodes live in an arena and refer to each other by handles, which
are positions in the arena. Position 0 is `quit`, the end of the program.

A node can be added only with handles that are already in the arena, so all handles
point down, to older nodes. The one exception is the body of a loop: a loop is
added first, with `quit` as a stand-in for its body, and `setBody` puts the real
body in place once that has been built around the loop's handle. Every cycle
therefore passes through a loop and its body.
-/

namespace FlowFold

/-- A handle: the position of a node in its graph's arena. -/
abbrev NodeId := Nat

/-- What a node does, and where control goes from it. -/
inductive Instr where
  /-- The end of the program. -/
  | quit
  /-- Give a variable a value. -/
  | assign (name : String) (value : Expr) (next : NodeId)
  /-- End the program with a result. -/
  | ret (result : Expr)
  /-- Go one of two ways, which meet at `join`. -/
  | branch (cond : Expr) (yes no join : NodeId)
  /-- Enter the body as long as the condition holds, then go on at `join`. -/
  | loop (cond : Expr) (body join : NodeId)
  deriving Repr, DecidableEq

/-- A node knows its own handle, so that it can be told apart when seen alone. -/
structure Node where
  id : NodeId
  instr : Instr
  deriving Repr, DecidableEq

/-- Which way out of a node an edge is. -/
inductive EdgeKind where
  /-- The only way. -/
  | plain
  /-- The way taken if the condition holds. -/
  | yes
  /-- The way taken if it does not. -/
  | no
  deriving Repr, DecidableEq

namespace EdgeKind

def names : List String := ["none", "true-branch", "false-branch"]

def text : EdgeKind → String
  | plain => "none"
  | yes => "true-branch"
  | no => "false-branch"

def textOfCode (code : Int) : Except Fault String := nameAt names code

end EdgeKind

structure Edge where
  target : NodeId
  kind : EdgeKind
  deriving Repr, DecidableEq

namespace Node

/-- The edges out of a node: true before false, and a loop's body before its join. -/
def successors (n : Node) : List Edge :=
  match n.instr with
  | .assign _ _ next => [⟨next, .plain⟩]
  | .branch _ yes no _ => [⟨yes, .yes⟩, ⟨no, .no⟩]
  | .loop _ body join => [⟨body, .yes⟩, ⟨join, .no⟩]
  | .ret _ | .quit => []

/-- The one expression of a node; `quit` has none. -/
def expression (n : Node) : Option Expr :=
  match n.instr with
  | .assign _ value _ => some value
  | .ret result => some result
  | .branch cond _ _ _ => some cond
  | .loop cond _ _ => some cond
  | .quit => none

/-- The text of a node, with its handles as they are. -/
def text (n : Node) : String :=
  match n.instr with
  | .assign name value next =>
      "(assign " ++ name ++ " " ++ value.inline ++ " -> " ++ toString next ++ ")"
  | .ret result => "(return " ++ result.inline ++ ")"
  | .branch cond yes no join =>
      "(cond " ++ cond.inline ++ " t:" ++ toString yes ++ " f:" ++ toString no ++
        " join:" ++ toString join ++ ")"
  | .loop cond body join =>
      "(while " ++ cond.inline ++ " body:" ++ toString body ++ " join:" ++ toString join ++ ")"
  | .quit => "(quit)"

def label (n : Node) : Except Fault String :=
  match n.instr with
  | .assign name value _ => do return "Assign " ++ name ++ " = " ++ (← value.flatText)
  | .branch cond _ _ _ => do return "If (" ++ (← cond.flatText) ++ ")"
  | .ret result => do return "Return (" ++ (← result.flatText) ++ ")"
  | .loop cond _ _ => do return "While (" ++ (← cond.flatText) ++ ")"
  | .quit => .ok "Quit"

/-- The label of a node that comes from elsewhere and may be of a foreign kind. -/
def labelOf : Foreign ⊕ Node → Except Fault String
  | .inl other => .error (.foreignNode other.typeName)
  | .inr n => n.label

/-- The expression of a node that comes from elsewhere and may be of a foreign kind. -/
def expressionOf : Foreign ⊕ Node → Except Fault (Option Expr)
  | .inl other => .error (.foreignNode other.typeName)
  | .inr n => .ok n.expression

end Node

structure Graph where
  /-- The arena. -/
  nodes : Array Node
  /-- Where the program starts. -/
  entry : NodeId
  deriving Repr, DecidableEq

namespace Graph

/-- The graph of the empty program: it has `quit` alone. -/
def empty : Graph := ⟨#[⟨0, .quit⟩], 0⟩

/-- The size of the arena, nodes that cannot be reached included. -/
def size (g : Graph) : Nat := g.nodes.size

def node? (g : Graph) (id : NodeId) : Option Node := g.nodes[id]?

def node (g : Graph) (id : NodeId) : Except Fault Node :=
  match g.node? id with
  | some n => .ok n
  | none => .error (.outsideGraph id g.size)

/-- The edges out of the node with a handle. A handle at or beyond the end of the arena has none
    here, where looking up its node would be a fault. Every handle that is followed in a graph built
    by calls has a node (`Graph.Arena.course`), so there the two agree. -/
def successors (g : Graph) (id : NodeId) : List Edge :=
  match g.node? id with
  | some n => n.successors
  | none => []

/-- The targets of the edges out of a node, in order, with none for a handle without a node, as in
    `successors`. -/
def targets (g : Graph) (id : NodeId) : List NodeId :=
  (g.successors id).map (·.target)

def require (g : Graph) (id : NodeId) : Except Fault Unit :=
  if id < g.size then .ok () else .error (.outsideGraph id g.size)

/-- Put a node at the end of the arena, and give its handle. -/
def add (g : Graph) (instr : Instr) : NodeId × Graph :=
  (g.size, { g with nodes := g.nodes.push ⟨g.size, instr⟩ })

def addAssign (g : Graph) (name : String) (value : Expr) (next : NodeId) :
    Except Fault (NodeId × Graph) := do
  g.require next
  return g.add (.assign name value next)

def addReturn (g : Graph) (result : Expr) : NodeId × Graph :=
  g.add (.ret result)

def addBranch (g : Graph) (cond : Expr) (yes no join : NodeId) :
    Except Fault (NodeId × Graph) := do
  g.require yes
  g.require no
  g.require join
  return g.add (.branch cond yes no join)

/-- Add a loop whose body is still to be set. -/
def addLoop (g : Graph) (cond : Expr) (join : NodeId) : Except Fault (NodeId × Graph) := do
  g.require join
  return g.add (.loop cond 0 join)

def modify (g : Graph) (id : NodeId) (instr : Instr) : Graph :=
  { g with nodes := g.nodes.modify id fun n => { n with instr } }

def setBody (g : Graph) (loop body : NodeId) : Except Fault Graph := do
  g.require body
  let n ← g.node loop
  match n.instr with
  | .loop cond _ join => return g.modify loop (.loop cond body join)
  | _ => throw (.notLoop n.text)

def setEntry (g : Graph) (id : NodeId) : Except Fault Graph := do
  g.require id
  return { g with entry := id }

/-- Let an assignment give its value to another variable. -/
def rename (g : Graph) (id : NodeId) (name : String) : Except Fault Graph := do
  let n ← g.node id
  match n.instr with
  | .assign _ value next => return g.modify id (.assign name value next)
  | _ => throw .absent

end Graph

end FlowFold
