/-
A tree of files in memory, on which commands can be run.

Paths start at a directory of the tree.  A path leads through directories; it may step back with
`..` but not out of the tree.
-/
import XmlHarvest.CommandLine.Files

namespace XmlHarvest.CommandLine

/-- The names on the way to a file or directory. -/
abbrev Way := List FileName

/-- Files with their bytes, and the directories apart from the root. -/
structure FileTree where
  /-- The way to the directory in which paths start. -/
  here : Way
  files : List (Way × ByteArray)
  directories : List Way

namespace FileTree

/-- The tree with nothing in it but the directory in which paths start, and those it lies in. -/
def empty (here : Way) : FileTree :=
  ⟨here, [], (List.range here.length).map fun n => here.take (n + 1)⟩

/-- Whether there is a directory. -/
def isDirectory (t : FileTree) (way : Way) : Bool := way.isEmpty || t.directories.contains way

/-! ### Paths -/

/-- How many bytes a name may have. -/
def maxNameSize : Nat := 255

/-- How many bytes a path may have. -/
def maxPathSize : Nat := 4095

/-- One step of a path from a directory. -/
def step (t : FileTree) (way : Way) (name : FileName) : Option Way :=
  if !t.isDirectory way then none
  else if name.isIdle then some way
  else if name = .text ".." then if way.isEmpty then none else some way.dropLast
  else some (way ++ [name])

/-- Whether something in the tree can have a path. -/
def admits (path : Path) : Bool := !path.isAbsolute && path.size ≤ maxPathSize

/-- Where a path leads, if it leads through directories. -/
def locate (t : FileTree) (path : Path) : Option Way :=
  if path.isEmpty || !admits path then none else path.names.foldlM t.step t.here

/-! ### Operations -/

/-- What is at a path. -/
def read (t : FileTree) (path : Path) : Option (Option ByteArray) := do
  let way ← t.locate path
  if t.isDirectory way then some none else (t.files.lookup way).map some

/-- The name of an entry of a directory, for the way of the entry. -/
def nameIn (directory way : Way) : Option FileName :=
  if way.dropLast = directory then way.getLast? else none

/-- The entries of the directory at a path. -/
def list (t : FileTree) (path : Path) : Option (List (FileName × Bool)) := do
  let way ← t.locate path
  if t.isDirectory way then
    let files := t.files.filterMap fun (w, _) => nameIn way w
    let directories := t.directories.filterMap (nameIn way)
    some (files.map (fun n => (n, false)) ++ directories.map fun n => (n, true))
  else none

/-- Whether a new file or directory can have a name. -/
def nameAllowed (name : FileName) : Bool := name.size ≤ maxNameSize && !name.holdsEnd

/-- Go into a directory from another, and create it if it is missing. -/
def enter (t : FileTree) (way : Way) (name : FileName) : Option (FileTree × Way) := do
  let next ← t.step way name
  if t.isDirectory next then some (t, next)
  else if (t.files.lookup next).isSome || !nameAllowed name then none
  else some ({ t with directories := t.directories ++ [next] }, next)

/-- Go into directories one after the other as far as that is possible, and say whether it was to
the end. -/
def enterAll (t : FileTree) (way : Way) : List FileName → Bool × FileTree
  | [] => (true, t)
  | name :: names =>
    match t.enter way name with
    | some (t, next) => t.enterAll next names
    | none => (false, t)

/-- Create a directory and those it lies in. -/
def createDirectories (t : FileTree) (path : Path) : Bool × FileTree :=
  if admits path then t.enterAll t.here path.names else (false, t)

/-- Create a directory in another, in which there is nothing of that name. -/
def createDirectory (t : FileTree) (path : Path) : Option FileTree := do
  let way ← t.locate path.parent
  let name ← path.trimEnd.names.getLast?
  let next ← t.step way name
  if t.isDirectory next then none else (t.enter way name).map Prod.fst

/-- The tree without what is on a way or further on it. -/
def without (t : FileTree) (way : Way) : FileTree :=
  { t with
    files := t.files.filter fun f => !way.isPrefixOf f.1
    directories := t.directories.filter fun d => !way.isPrefixOf d }

/-- Put bytes into the file at a path. -/
def write (t : FileTree) (path : Path) (content : ByteArray) : Option FileTree := do
  let way ← t.locate path
  if t.isDirectory way || !way.all nameAllowed then none
  else some { t with files := (t.without way).files ++ [(way, content)] }

/-- Remove the file at a path. -/
def remove (t : FileTree) (path : Path) : Option FileTree := do
  let way ← t.locate path
  if (t.files.lookup way).isSome then some (t.without way) else none

/-- Remove the file at a path, or the directory there with all it holds. -/
def removeAll (t : FileTree) (path : Path) : Option FileTree := do
  let way ← t.locate path
  if (t.files.lookup way).isSome || t.directories.contains way then some (t.without way) else none

/-- Apply a change, and say whether it could be made. -/
def attempt (change : FileTree → Option FileTree) : StateM FileTree Bool := fun t =>
  match change t with
  | some t => (true, t)
  | none => (false, t)

/-- The tree as a file system. -/
def asFiles : Files (StateM FileTree) where
  read path := fun t => (t.read path, t)
  list path := fun t => (t.list path, t)
  createDirectories path := fun t => t.createDirectories path
  write path content := attempt (·.write path content)
  remove path := attempt (·.remove path)

end FileTree

end XmlHarvest.CommandLine
