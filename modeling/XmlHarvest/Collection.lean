/-
Collections: directories with the files to be processed.

The files are those with the extension of the settings that are not hidden, in the order of their
names.  The order in which a directory lists its entries plays no part.
-/
import XmlHarvest.Config
import XmlHarvest.Keyed

namespace XmlHarvest

/-- The name of a directory entry. -/
inductive FileName
  | text (name : String)
  /-- Bytes that are no UTF-8. -/
  | bytes (name : List UInt8)
  deriving DecidableEq, Repr

/-- What stands in a directory. -/
inductive Entry
  /-- A file with its text, if it holds one. -/
  | file (content : Option String)
  | directory
  deriving DecidableEq, Repr

/-- A directory with the name under which it was asked for. -/
structure Collection where
  path : String
  /-- The entries in any order, if there is such a directory. -/
  entries : Option (List (FileName × Entry))
  deriving DecidableEq, Repr

/-- What follows the last full stop of a name; nothing when there is no full stop. -/
def extensionOf (name : String) : String :=
  if name.toList.contains '.' then
    String.ofList (name.toList.reverse.takeWhile (· != '.')).reverse
  else ""

/-- Whether a file of this name is processed. -/
def Config.selects (c : Config) (name : String) : Bool :=
  name.toList.head? != some '.' && c.matchesExtension (extensionOf name)

/-- The name and the content of an entry that is processed. -/
def Config.file? (c : Config) : FileName × Entry → Option (String × Option String)
  | (.text name, .file content) => if c.selects name then some (name, content) else none
  | _ => none

/-- The files to be processed among some entries, by name. -/
def Config.filesAmong (c : Config) (entries : List (FileName × Entry)) :
    List (String × Option String) :=
  (Keyed.ofList (entries.filterMap c.file?)).entries

/-- The files of a collection with their contents, in the order of their names, if the directory
is there. -/
def Collection.files (dir : Collection) (c : Config) : Option (List (String × Option String)) :=
  dir.entries.map c.filesAmong

end XmlHarvest
