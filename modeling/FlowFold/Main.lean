import FlowFold.Command.Fold

/-! # The command on the real system -/

namespace FlowFold.Command

/-- The reason in an error of the system. What is of the wrong type depends on what was
    to be done. -/
def systemReason (wrongType : DiskError) : IO.Error → DiskError
  | .noFileOrDirectory .. => .notFound
  | .alreadyExists .. => .occupied
  | .inappropriateType .. => wrongType
  | e => .other (toString e)

/-- Do something with a path, and keep the error if there is one. -/
def attemptOn (action path : String) (wrongType : DiskError) (work : IO Unit) :
    IO (Except FileError Unit) := do
  try
    work
    return .ok ()
  catch e =>
    return .error ⟨action, path, systemReason wrongType e⟩

instance : Host IO where
  print s := do (← IO.getStdout).putStr s
  complain s := do (← IO.getStderr).putStr s
  makeFolders path := attemptOn "mkdir" path .notFolder (IO.FS.createDirAll path)
  writeFile path content := attemptOn "open" path .isFolder (IO.FS.writeFile path content)

/-- The variables of the environment that the command reads. -/
def environmentNames : List String :=
  ["CFOLD_SAMPLE", "CFOLD_FORMAT", "CFOLD_GRAPH", "CFOLD_OUTDIR", "CFOLD_VERBOSE", "CFOLD_JOBS"]

end FlowFold.Command

open FlowFold.Command in
def main (arguments : List String) : IO UInt32 := do
  let values ← environmentNames.mapM fun name => do return (name, ← IO.getEnv name)
  run (fun name => (values.lookup name).join) arguments
