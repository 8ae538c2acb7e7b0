import FlowFold.Command.Host
import FlowFold.Command.Settings
import FlowFold.Pipeline

/-! # The command

The command folds samples and prints their graphs before and after, or writes them into
a folder. It reads its settings, then checks them in the order format, chart, samples,
and folds all samples before it says anything about the first.
-/

namespace FlowFold.Command

/-- The samples that a text names: `all`, or names separated by commas. -/
def selected (text : String) : Except String (List Sample) :=
  if text == "all" then .ok Sample.all
  else (text.splitOn ",").mapM fun name =>
    match Sample.find? (Text.trim name) with
    | some sample => .ok sample
    | none => .error ("unknown sample " ++ Text.quoted name ++ ", have: " ++
        ", ".intercalate Sample.names)

section

variable {m : Type → Type} [Monad m] [Host m]

open Host

/-- Tell something on a line of its own. -/
def note (text : String) : m Unit := print ("[] " ++ text ++ "\n")

/-- Do something with a file. If that fails, say what it was for. -/
def orFail (purpose : String) (work : m (Except FileError Unit)) : ExceptT String m Unit :=
  (ExceptT.mk work).adapt fun e => purpose ++ ": " ++ e.message

/-- Write both drawings of a sample into a folder, and give their paths. -/
def writeOut (outDir : String) (format : Format) (r : Folded) :
    ExceptT String m (List String) := do
  orFail ("creating " ++ outDir) (makeFolders outDir)
  let extension := shown format.extension
  let before := Path.join outDir (r.sample.name ++ extension)
  let after := Path.join outDir (r.sample.name ++ "_folded" ++ extension)
  orFail "writing rendering" (writeFile before r.before)
  orFail "writing rendering" (writeFile after r.after)
  return [before, after]

/-- Tell what came of a sample before its drawings are shown. -/
def tellFindings (outline : Bool) (r : Folded) : m Unit := do
  note ("sample " ++ Text.quoted r.sample.name ++ ": " ++ r.sample.doc)
  if outline then print (shown (Piece.stmt r.sample.program).outline)
  for w in r.warnings do
    complain ("error: " ++ r.sample.name ++ ": warning: " ++ w.text ++ "\n")
  print r.trace
  for id in r.deadJoins do
    note ("join " ++ toString id ++ " of a conditional is never reached")
  note (toString r.visits ++ " visits, " ++ toString r.commits ++ " commits")

/-- Tell what came of a sample. Fails if its drawings could not be written. -/
def tell (s : Settings) (format : Format) (r : Folded) : ExceptT String m Unit := do
  tellFindings s.outline r
  if s.outDir.isEmpty then
    note "original"
    print r.before
    note "folded"
    print r.after
  else
    let paths ← (writeOut s.outDir format r).adapt fun problem =>
      r.sample.name ++ ": " ++ problem
    for path in paths do
      note ("wrote " ++ shown format.name ++ ": " ++ path)

def Settings.options (s : Settings) : Except String Options := do
  let some format := Format.ofName? s.format
    | throw ("unknown format " ++ Text.quoted s.format)
  let some chart := Mermaid.code? s.chart
    | throw ("unknown mermaid graph type " ++ Text.quoted s.chart)
  return ⟨format, chart, s.verbose⟩

def fold (s : Settings) : ExceptT String m Unit := do
  let options ← s.options
  let samples ← selected s.sample
  match options.processAll s.jobs false samples with
  | .error trouble =>
      complain trouble.notes
      throw trouble.message
  | .ok results =>
      for r in results do
        tell s options.format r

def listSamples : m Unit := do
  for sample in Sample.all do
    print (Text.padRight 10 sample.name ++ " " ++ sample.doc ++ "\n")

/-- Run the command with its arguments, and give its exit code: 0 if all went well, 1 if
    something could not be done, 2 if the arguments could not be read. -/
def run (env : Environment) (arguments : List String) : m UInt32 := do
  let initial := Settings.initial env
  match initial.read arguments with
  | .error e =>
      if let some message := e.message then complain (message ++ "\n")
      complain (usage initial)
      return if e = .help then 0 else 2
  | .ok s =>
      if s.list then
        listSamples
        return 0
      match ← (fold s).run with
      | .ok () => return 0
      | .error problem =>
          complain ("fatal: " ++ problem ++ "\n")
          return 1

end

end FlowFold.Command
