/-
What commands need of a file system, and what they keep in it.

The file system is given as a record of its operations in some monad `m`, so that commands run on
the files of a machine and on a tree of files in memory alike.
-/
import XmlHarvest.CommandLine.Path
import XmlHarvest.Grammar.Reader
import XmlHarvest.Json.Writer

namespace XmlHarvest.CommandLine

/-- The operations of a file system. -/
structure Files (m : Type → Type) where
  /-- What is at a path, if there is something: the bytes of a file, or a directory. -/
  read : Path → m (Option (Option ByteArray))
  /-- The entries of a directory, if there is one at a path; `true` stands for directories. -/
  list : Path → m (Option (List (FileName × Bool)))
  /-- Create a directory and those it lies in, as far as that is possible; `false` if one of them
  is missing then. -/
  createDirectories : Path → m Bool
  /-- Put bytes into a file, in place of what it holds; `false` if that fails. -/
  write : Path → ByteArray → m Bool
  /-- Remove a file; `false` if that fails. -/
  remove : Path → m Bool

/-- Where the user's files are. -/
structure Locations where
  config : String
  database : String
  deriving DecidableEq, Repr

variable {m : Type → Type} [Monad m]

/-- What is at a path, if there is something: a text, or something else. -/
def Files.readText (files : Files m) (path : Path) : m (Option (Option String)) :=
  (Option.map fun content => content.bind String.fromUTF8?) <$> files.read path

/-! ### Settings -/

/-- The settings at a path, or the user's settings, for which the default stands in. -/
def loadConfig (files : Files m) (locations : Locations) (path : Option String) :
    m (Except ConfigError Config) := do
  match path with
  | some path => return Config.load path (← files.readText (.ofText path))
  | none =>
    match Config.load locations.config (← files.readText (.ofText locations.config)) with
    | .ok c => return .ok c
    | .error _ => return .ok .default

/-- Write settings as the user's; `false` if that fails. -/
def saveConfig (files : Files m) (locations : Locations) (c : Config) : m Bool := do
  let path := Path.ofText locations.config
  if ← files.createDirectories path.parent then files.write path c.toJson.pretty.toUTF8
  else return false

/-! ### Grammars and collections -/

/-- The grammar in a file. -/
def loadGrammar (files : Files m) (path : String) : m (Except GrammarError Rule) :=
  (fun content => Rule.load content.join) <$> files.readText (.ofText path)

/-- An entry of a directory with the content that is needed of it; nothing if it cannot be
reached. -/
def entryOf (files : Files m) (c : Config) (directory : Path) (name : FileName)
    (isDirectory : Bool) : m (Option (FileName × Entry)) := do
  match name, isDirectory with
  | _, true => return some (name, .directory)
  | .bytes _, false => return some (name, .file none)
  | .text text, false =>
    if c.selects text then
      return (← files.readText (directory.child name)).map fun content => (name, .file content)
    else return some (name, .file none)

/-- The collection in a directory. -/
def loadCollection (files : Files m) (c : Config) (path : String) : m Collection := do
  let directory := Path.ofText path
  match ← files.list directory with
  | none => return ⟨path, none⟩
  | some entries =>
    return ⟨path, some (← entries.filterMapM fun (n, d) => entryOf files c directory n d)⟩

end XmlHarvest.CommandLine
