import Std.Data.ExtTreeMap

/-! # Folders and files

A disk holds folders and files under their places, a place being the names that lead to
it from the root, and one folder is current. Paths are followed name by name, as the
system does: every name but the last must lead to a folder, `.` stays, `..` goes up.

`Disk.makeFolders` makes a folder with all the folders above it that are not there, and
`Path.join` gives the shortest spelling of a path. These two differ on purpose: a path
that leaves a folder again still needs that folder to be made.
-/

namespace FlowFold.Command

/-- Why something could not be done on a disk. -/
inductive DiskError where
  | notFound
  | occupied
  | notFolder
  | isFolder
  | nameTooLong
  /-- Any other reason the system gives. -/
  | other (text : String)
  deriving Repr, DecidableEq

def DiskError.message : DiskError → String
  | notFound => "no such file or directory"
  | occupied => "file exists"
  | notFolder => "not a directory"
  | isFolder => "is a directory"
  | nameTooLong => "file name too long"
  | other text => text

structure FileError where
  action : String
  path : String
  reason : DiskError
  deriving Repr, DecidableEq

def FileError.message (e : FileError) : String :=
  e.action ++ " " ++ e.path ++ ": " ++ e.reason.message

namespace Path

/-- The names of a path. Where two separators meet, or one ends it, a name is empty. -/
def names (path : String) : List String := (path.splitOn "/")

/-- Take a name back, if it follows a name that is not `..`; the names come in reverse. -/
def up (rooted : Bool) : List String → List String
  | [] => if rooted then [] else [".."]
  | ".." :: rest => ".." :: ".." :: rest
  | _ :: rest => rest

/-- The shortest path that spells the same, without regard to what is on any disk. -/
def clean (path : String) : String :=
  let rooted := path.startsWith "/"
  let kept := (names path).foldl (fun kept name =>
    if name == "" || name == "." then kept
    else if name == ".." then up rooted kept
    else name :: kept) []
  let text := "/".intercalate kept.reverse
  if rooted then "/" ++ text else if text.isEmpty then "." else text

def join (folder file : String) : String :=
  if folder.isEmpty then clean file else clean (folder ++ "/" ++ file)

/-- The path before the last name and its separator, if there is more than the root. -/
def parent? (path : List Char) : Option (List Char) :=
  match (path.reverse.dropWhile (· == '/')).dropWhile (· != '/') with
  | _ :: c :: rest => some (c :: rest).reverse
  | _ => none

theorem length_lt_of_parent? {path parent : List Char} (h : parent? path = some parent) :
    parent.length < path.length := by
  unfold parent? at h
  split at h
  · rename_i before c rest split
    have shorter := ((List.dropWhile_sublist (· != '/')).trans
      (List.dropWhile_sublist (· == '/') (l := path.reverse))).length_le
    rw [split] at shorter
    cases h
    simp at shorter ⊢
    omega
  · cases h

end Path

/-- What is at a place. -/
inductive Entry where
  | folder
  | file (content : String)
  deriving Repr, DecidableEq

/-- The names that lead to a place from the root. -/
abbrev Location := List String

structure Disk where
  entries : Std.ExtTreeMap Location Entry
  /-- The current folder. -/
  current : Location

namespace Disk

/-- A disk with nothing but the current folder and those above it. -/
def new (current : Location) : Disk where
  entries := (List.range (current.length + 1)).foldl (fun entries n =>
    entries.insert (current.take n) .folder) ∅
  current := current

/-- Go from a place along one name. -/
def follow (d : Disk) (place : Location) (name : String) : Except DiskError Location :=
  if d.entries[place]? ≠ some .folder then .error .notFolder
  else if name == "" || name == "." then .ok place
  else if name == ".." then .ok place.dropLast
  else if name.utf8ByteSize > 255 then .error .nameTooLong
  else if place ++ [name] ∈ d.entries then .ok (place ++ [name])
  else .error .notFound

def origin (d : Disk) (path : String) : Location :=
  if path.startsWith "/" then [] else d.current

/-- The place that a path leads to. -/
def find (d : Disk) (path : String) : Except DiskError Location :=
  if path.isEmpty then .error .notFound
  else (Path.names path).foldlM d.follow (d.origin path)

def isFolder (d : Disk) (path : String) : Bool :=
  match d.find path with
  | .ok place => d.entries[place]? == some .folder
  | .error _ => false

/-- The folder in which the last name of a path stands, and that name. -/
def findParent (d : Disk) (path : String) : Except DiskError (Location × String) := do
  let names := (Path.names path).reverse.dropWhile (· == "")
  match names with
  | [] => throw (if path.isEmpty then .notFound else .occupied)
  | last :: before =>
      let place ← before.reverse.foldlM d.follow (d.origin path)
      if d.entries[place]? ≠ some .folder then throw .notFolder
      return (place, last)

def makeFolder (d : Disk) (path : String) : Except DiskError Disk := do
  let (place, name) ← d.findParent path
  if name == "." || name == ".." then throw .occupied
  if name.utf8ByteSize > 255 then throw .nameTooLong
  if place ++ [name] ∈ d.entries then throw .occupied
  return { d with entries := d.entries.insert (place ++ [name]) .folder }

/-- Make a folder and all folders above it that are not there. Gives the disk, on which
    some may have been made even if the last could not be, and what went wrong. -/
def makeFolders (d : Disk) (path : List Char) : Disk × Option FileError :=
  let text := String.ofList path
  match d.find text with
  | .ok place =>
      if d.entries[place]? == some .folder then (d, none)
      else (d, some ⟨"mkdir", text, .notFolder⟩)
  | .error _ =>
      let (d, problem) :=
        match _above : Path.parent? path with
        | some parent => makeFolders d parent
        | none => (d, none)
      match problem with
      | some e => (d, some e)
      | none =>
          match d.makeFolder text with
          | .ok d => (d, none)
          | .error reason =>
              if d.isFolder text then (d, none) else (d, some ⟨"mkdir", text, reason⟩)
termination_by path.length
decreasing_by exact Path.length_lt_of_parent? _above

/-- Write a file, in place of one that may be there. -/
def writeFile (d : Disk) (path content : String) : Disk × Option FileError :=
  let write : Except DiskError Disk := do
    let (place, name) ← d.findParent path
    if name.utf8ByteSize > 255 then throw .nameTooLong
    if d.entries[place ++ [name]]? == some .folder then throw .isFolder
    return { d with entries := d.entries.insert (place ++ [name]) (.file content) }
  match write with
  | .ok d => (d, none)
  | .error reason => (d, some ⟨"open", path, reason⟩)

/-- Everything in a folder, folders before what is in them and names in order. Places are
    given from that folder on. -/
def contents (d : Disk) (place : Location) : List (Location × Entry) :=
  d.entries.toList.filterMap fun (p, entry) =>
    if place.isPrefixOf p && p != place then some (p.drop place.length, entry) else none

end Disk

end FlowFold.Command
