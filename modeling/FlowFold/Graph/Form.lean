import FlowFold.Graph.Basic

/-! # Graphs of programs

The graph of a statement is built from the node that comes after it. A block is
built from its last statement to its first, each becoming what follows the one
before; a return ignores what follows, so code after it stays out of reach. A loop
is added before its body, because the body is followed by the loop itself.
-/

namespace FlowFold

mutual

/-- Add the nodes of a statement that is followed by `next`, and give the handle
    at which the statement starts. -/
def Stmt.form (next : NodeId) (g : Graph) : Stmt → Except Fault (NodeId × Graph)
  | .block body => formAll next g body
  | .assign none _ => .error .absent
  | .assign (some name) value => g.addAssign name value next
  | .ret result => .ok (g.addReturn result)
  | .ite cond then_ .missing => do
      let (yes, g) ← then_.form next g
      g.addBranch cond yes next next
  | .ite cond then_ otherwise => do
      let (yes, g) ← then_.form next g
      let (no, g) ← otherwise.form next g
      g.addBranch cond yes no next
  | .while cond body => do
      let (loop, g) ← g.addLoop cond next
      let (start, g) ← body.form loop g
      let g ← g.setBody loop start
      return (loop, g)
  | .missing => .error .missingStmt
  | .hollow _ => .error .absent
  | .foreign other => .error (.foreignStmt other.typeName)

/-- Add the nodes of the statements of a block, the last one first. -/
def Stmt.formAll (next : NodeId) (g : Graph) : List Stmt → Except Fault (NodeId × Graph)
  | [] => .ok (next, g)
  | s :: rest => do
      let (next, g) ← formAll next g rest
      s.form next g

end

/-- The graph of a whole program. It starts at the head of the program; an empty
    program starts at `quit`. -/
def Graph.ofProgram (program : Stmt) : Except Fault Graph := do
  let (entry, g) ← program.form 0 .empty
  g.setEntry entry

end FlowFold
