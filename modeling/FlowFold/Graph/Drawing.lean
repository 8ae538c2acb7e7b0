import FlowFold.Graph.Search
import FlowFold.Text.Blank
import FlowFold.Text.Quoted

/-! # Drawing graphs

Three renderings of the reachable part of a graph: a plain listing, a Mermaid chart
and a Graphviz digraph. In all of them nodes are numbered in the order of the walk,
so two graphs of the same shape look the same however their arenas were filled.

The listing writes expressions in their prefixed form and always succeeds. The two
charts write labels in the flat form, and fail on an expression that has none.
-/

namespace FlowFold

namespace Graph

/-- The number of a node as text, given the drawn nodes in order, with `-` for a node
    that is not drawn, such as the join of a branch both of whose ways return. -/
def numberText (order : List NodeId) (id : NodeId) : String :=
  match order.idxOf? id with
  | some n => toString n
  | none => "-"

/-- The line of a node in the listing, after its number. -/
def dumpLine (order : List NodeId) (n : Node) : String :=
  match n.instr with
  | .assign name value next =>
      "assign " ++ name ++ " " ++ value.inline ++ " -> " ++ numberText order next
  | .ret result => "return " ++ result.inline
  | .branch cond yes no join =>
      "cond " ++ cond.inline ++ " t:" ++ numberText order yes ++ " f:" ++ numberText order no ++
        " join:" ++ numberText order join
  | .loop cond body join =>
      "while " ++ cond.inline ++ " body:" ++ numberText order body ++
        " join:" ++ numberText order join
  | .quit => "quit"

/-- The listing: a line for every node. -/
def dump (g : Graph) : String :=
  let order := g.reachable
  String.join (g.walk.zipIdx.map fun (n, i) =>
    "[" ++ Text.padLeft '0' 3 (toString i) ++ "] " ++ dumpLine order n ++ "\n")

def labels (g : Graph) : Except Fault (List String) := g.walk.mapM Node.label

structure Arrow where
  source : Nat
  target : Nat
  kind : EdgeKind
  deriving Repr, DecidableEq

/-- The edges of a drawing: for every drawn node in order, its edges in order. -/
def arrows (g : Graph) : List Arrow :=
  let order := g.reachable
  g.walk.zipIdx.flatMap fun (n, i) =>
    n.successors.map fun e => ⟨i, (order.idxOf? e.target).getD 0, e.kind⟩

end Graph

namespace Mermaid

/-- The headers of the charts that can be drawn, by code. -/
def headers : List String :=
  ["flowchart TD", "flowchart LR", "flowchart BT", "graph TD", "graph LR"]

def header (code : Int) : Except Fault String := nameAt headers code

/-- The code of a header. White space around it and the case of letters do not matter;
    headers have letters of ASCII only, for which no other letters count as the same. -/
def code? (header : String) : Option Nat :=
  headers.findIdx? fun h => h.toLower == (Text.trim header).toLower

/-- A label as it stands in a chart, where a quote would end it. -/
def escape (label : String) : String :=
  String.ofList (label.toList.flatMap fun c => if c = '"' then "#quot;".toList else [c])

def mark : EdgeKind → String
  | .plain => ""
  | .yes => "|Yes|"
  | .no => "|No|"

end Mermaid

namespace Graph

/-- The Mermaid chart of a graph: the nodes, then the edges. -/
def mermaid (g : Graph) (code : Int) : Except Fault String := do
  let header ← Mermaid.header code
  let labels ← g.labels
  let nodes := labels.zipIdx.map fun (label, i) =>
    "N" ++ toString i ++ "[\"" ++ Mermaid.escape label ++ " \"]\n"
  let edges := g.arrows.map fun a =>
    "    N" ++ toString a.source ++ " -->" ++ Mermaid.mark a.kind ++ " N" ++
      toString a.target ++ "\n"
  return header ++ "\n" ++ String.join nodes ++ String.join edges

def dotAttribute : EdgeKind → String
  | .plain => ""
  | kind => " [label=" ++ Text.quoted kind.text ++ "]"

/-- The Graphviz digraph of a graph: the nodes, then the edges. -/
def dot (g : Graph) : Except Fault String := do
  let labels ← g.labels
  let nodes := labels.zipIdx.map fun (label, i) =>
    "\tn" ++ toString i ++ " [label=" ++ Text.quoted label ++ "];\n"
  let edges := g.arrows.map fun a =>
    "\tn" ++ toString a.source ++ " -> n" ++ toString a.target ++ dotAttribute a.kind ++ ";\n"
  return "digraph cfg \x7b\n\tnode [shape=box];\n" ++ String.join nodes ++ String.join edges ++
    "\x7d\n"

end Graph

end FlowFold
