import FlowFold.Command.Disk

/-! # What the command runs on

The command prints, complains, makes folders and writes files, and does nothing else to
its surroundings. A host is anything that lets it do so; `World` is one in memory.
-/

namespace FlowFold.Command

/-- What the command needs of its surroundings. -/
class Host (m : Type → Type) where
  /-- Print to the standard output. -/
  print : String → m Unit
  /-- Print to the standard error output. -/
  complain : String → m Unit
  /-- Make a folder and those above it. -/
  makeFolders : String → m (Except FileError Unit)
  /-- Write a file, given its path and content. -/
  writeFile : String → String → m (Except FileError Unit)

/-- Work that can fail has the surroundings of the work below it. -/
instance {ε : Type} {m : Type → Type} [Monad m] [Host m] : Host (ExceptT ε m) where
  print s := ExceptT.lift (Host.print s)
  complain s := ExceptT.lift (Host.complain s)
  makeFolders path := ExceptT.lift (Host.makeFolders path)
  writeFile path content := ExceptT.lift (Host.writeFile path content)

/-- Surroundings in memory: what was printed, and a disk. -/
structure World where
  out : String
  err : String
  disk : Disk

def World.onDisk (change : Disk → Disk × Option FileError) : StateM World (Except FileError Unit) :=
  fun w =>
    let (disk, problem) := change w.disk
    let result := match problem with
      | none => .ok ()
      | some e => .error e
    (result, { w with disk })

instance : Host (StateM World) where
  print s := modify fun w => { w with out := w.out ++ s }
  complain s := modify fun w => { w with err := w.err ++ s }
  makeFolders path := World.onDisk (·.makeFolders path.toList)
  writeFile path content := World.onDisk (·.writeFile path content)

end FlowFold.Command
