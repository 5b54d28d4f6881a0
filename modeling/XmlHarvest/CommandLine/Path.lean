/-
Paths as they are written.

A path is what stands between its slashes.  Empty names and `.` lead nowhere, and `..` leads back.
A path that begins with a slash starts at the root of all files.
-/
import XmlHarvest.Collection

namespace XmlHarvest

namespace FileName

/-- The name that some bytes write. -/
def ofBytes (bytes : List UInt8) : FileName :=
  match String.fromUTF8? ⟨bytes.toArray⟩ with
  | some name => .text name
  | none => .bytes bytes

/-- How many bytes a name has. -/
def size : FileName → Nat
  | .text name => name.utf8ByteSize
  | .bytes name => name.length

/-- A name with an ending. -/
def extend (ending : String) : FileName → FileName
  | .text name => .text (name ++ ending)
  | .bytes name => .bytes (name ++ ending.toUTF8.toList)

/-- Whether a name holds the character with which names end on a machine. -/
def holdsEnd : FileName → Bool
  | .text name => name.toList.contains '\x00'
  | .bytes name => name.contains 0

/-- Whether a name leads nowhere. -/
def isIdle (name : FileName) : Bool := name = .text "" || name = .text "."

end FileName

namespace CommandLine

/-- A path as the names between its slashes. -/
structure Path where
  names : List FileName
  deriving DecidableEq, Repr

namespace Path

/-- The path that a text writes. -/
def ofText (s : String) : Path := ⟨(s.splitOn "/").map .text⟩

/-- The path that some bytes write. -/
def ofBytes (bytes : List UInt8) : Path := ⟨(bytes.splitOn '/'.toUInt8).map .ofBytes⟩

/-- The text that writes a path, if it is one. -/
def text? (p : Path) : Option String := do
  let names ← p.names.mapM fun
    | .text name => some name
    | .bytes _ => none
  return String.intercalate "/" names

/-- Whether a path is written by no text at all. -/
def isEmpty (p : Path) : Bool := p.names = [.text ""]

/-- Whether a path starts at the root of all files. -/
def isAbsolute (p : Path) : Bool := p.names.head? = some (.text "") && !p.isEmpty

/-- How many bytes a path has. -/
def size (p : Path) : Nat :=
  p.names.foldr (fun name n => name.size + n) 0 + (p.names.length - 1)

/-- A path without the names at its end that lead nowhere. -/
def trimEnd (p : Path) : Path := ⟨(p.names.reverse.dropWhile FileName.isIdle).reverse⟩

/-- The directory that a path leads to something in; empty for the current one. -/
def parent (p : Path) : Path := trimEnd ⟨p.trimEnd.names.dropLast⟩

/-- A path one step back, unless nothing is known of what it leads to.  There is nothing behind the
root. -/
def back? (p : Path) : Option Path :=
  match p.names.getLast? with
  | none | some (.text "..") => none
  | some (.text "") => some p
  | some _ => some ⟨p.names.dropLast⟩

/-- The path of an entry of a directory. -/
def child (p : Path) (name : FileName) : Path :=
  if p.names.getLast? = some (.text "") then ⟨p.names.dropLast ++ [name]⟩ else ⟨p.names ++ [name]⟩

/-- The path of what has the same name with an ending. -/
def beside (p : Path) (ending : String) : Path :=
  ⟨p.names.dropLast ++ (p.names.getLast?.map (FileName.extend ending)).toList⟩

end Path

end CommandLine

end XmlHarvest
