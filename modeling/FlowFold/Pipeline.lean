import FlowFold.Analysis.Rebuild
import FlowFold.Check
import FlowFold.Graph.Drawing
import FlowFold.Graph.Form
import FlowFold.Sample
import FlowFold.TaskGroup

/-! # From a sample to its drawings

A sample is checked, formed into a graph, folded, and drawn before and after. A sample
that fails its check gives no drawings but a trouble, which names the first error and
keeps the others.
-/

namespace FlowFold

inductive Format where
  | mermaid
  | dot
  | dump
  /-- A code that stands for no format. -/
  | unknown (code : Int)
  deriving Repr, DecidableEq

namespace Format

def names : List String := ["mermaid", "dot", "dump"]

def ofCode : Int → Format
  | 0 => mermaid
  | 1 => dot
  | 2 => dump
  | code => unknown code

def ofName? (name : String) : Option Format :=
  (names.idxOf? name).map fun i => ofCode (Int.ofNat i)

def code : Format → Int
  | mermaid => 0
  | dot => 1
  | dump => 2
  | unknown c => c

def name (f : Format) : Except Fault String := nameAt names f.code

/-- How the names of files with renderings end. -/
def extension (f : Format) : Except Fault String := nameAt [".mmd", ".dot", ".txt"] f.code

end Format

structure Options where
  format : Format
  /-- The code of the header of a Mermaid chart. -/
  chart : Int
  /-- Whether to keep a log of the analysis. -/
  verbose : Bool

def Options.render (o : Options) (g : Graph) : Except Fault String :=
  match o.format with
  | .mermaid => g.mermaid o.chart
  | .dot => g.dot
  | .dump => .ok g.dump
  | .unknown code => .error (.badFormat code)

structure Folded where
  sample : Sample
  warnings : List Finding
  deadJoins : List NodeId
  formed : Graph
  folded : Graph
  visits : Nat
  commits : Nat
  /-- The drawing of the graph as it was formed. -/
  before : String
  /-- The drawing of the folded graph. -/
  after : String
  /-- The log of the analysis, if one was kept. -/
  trace : String

/-- Why nothing came of a sample. -/
inductive Trouble where
  /-- The program is malformed. -/
  | malformed (sample : String) (first : Finding) (others : List Finding)
  /-- The work was called off. -/
  | cancelled
  | fault (f : Fault)

namespace Trouble

def message : Trouble → String
  | malformed sample first _ => "checking " ++ sample ++ ": " ++ first.text
  | cancelled => "context canceled"
  | fault f => f.message

/-- What is reported at once, before the trouble itself: the errors after the first. -/
def notes : Trouble → String
  | malformed sample _ others =>
      String.join (others.map fun f => "error: " ++ sample ++ ": " ++ f.text ++ "\n")
  | _ => ""

end Trouble

namespace Options

/-- Form, fold and draw a sample whose check gave these warnings. -/
def draw (o : Options) (sample : Sample) (warnings : List Finding) : Except Fault Folded := do
  let formed ← Graph.ofProgram sample.program
  let (a, fault) := Analysis.new.run formed
  if let some f := fault then throw f
  let folded ← a.rebuild formed
  let (visits, commits) ← a.stats
  let before ← o.render formed
  let after ← o.render folded
  return {
    sample, warnings, formed, folded, visits, commits, before, after
    deadJoins := formed.deadJoins
    trace := if o.verbose then String.join (a.events.map (·.logLine (sample.name ++ ": "))) else "" }

def process (o : Options) (sample : Sample) : Except Trouble Folded := do
  let report ← (check sample.program []).mapError Trouble.fault
  match report.errors with
  | first :: others => .error (.malformed sample.name first others)
  | [] => (o.draw sample report.warnings).mapError Trouble.fault

/-- The work of a task: it processes the sample at its own position. -/
def task (o : Options) (samples : List Sample) (i : Nat) : Except Trouble Folded :=
  match samples[i]? with
  | some sample => o.process sample
  | none => .error .cancelled

/-- A group that processes several samples, at most `jobs` at a time if that is positive,
    after some moves. -/
def group (o : Options) (jobs : Int) (cancelled : Bool) (samples : List Sample)
    (moves : List TaskGroup.Move) : TaskGroup.State Trouble Folded :=
  TaskGroup.run jobs (o.task samples) .cancelled samples.length cancelled moves

def processAll (o : Options) (jobs : Int) (cancelled : Bool) (samples : List Sample) :
    Except Trouble (List Folded) :=
  (o.group jobs cancelled samples (TaskGroup.inOrder samples.length)).outcome

end Options

end FlowFold
