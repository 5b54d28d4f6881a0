/-
How a command line names a database.

A database is named by the path of its file.  A name that begins with `file:` writes the path with
percent escapes; options may follow after a question mark, and nothing after a number sign counts.
The options say what may be done with the file and how it is used.  Some names stand for a
database that is kept in no file and is gone when the command ends.
-/
import XmlHarvest.CommandLine.Path
import XmlHarvest.Text.Numerals

namespace XmlHarvest.CommandLine

/-! ### Options -/

/-- What may be done with a database. -/
inductive Mode
  | read
  | change
  /-- Change the file, and create it if it is missing. -/
  | create
  /-- Keep the database in memory instead. -/
  | memory
  deriving DecidableEq, Repr

/-- How the file of a database is used. -/
inductive Usage
  /-- All users of the file share memory. -/
  | shared
  /-- There is one user, whose memory is its own. -/
  | alone
  /-- Users share no memory. -/
  | apart
  /-- Users share no memory, and a directory beside the file says that one is at work. -/
  | signed
  /-- There is no file, whatever the path. -/
  | fileless
  deriving DecidableEq, Repr

/-- A database as it is named. -/
structure DatabasePath where
  /-- The path, in which an empty one and `:memory:` name no file. -/
  path : Path
  mode : Mode
  usage : Usage
  /-- The file is locked while it is used. -/
  locked : Bool
  /-- The file will never change. -/
  frozen : Bool
  /-- The memory that users share can be read but not changed. -/
  indexFixed : Bool
  /-- Something that has to be there, since a new file takes over its rights. -/
  model : Option Path
  deriving DecidableEq, Repr

/-- A database named by its path alone. -/
def DatabasePath.plain (path : Path) : DatabasePath :=
  ⟨path, .create, .shared, true, false, false, none⟩

/-- The mode with a name. -/
def Mode.ofName? : String → Option Mode
  | "ro" => some .read
  | "rw" => some .change
  | "rwc" => some .create
  | "memory" => some .memory
  | _ => none

/-- How much a mode allows. -/
def Mode.rank : Mode → Nat
  | .read => 0
  | .change => 1
  | .create => 2
  | .memory => 3

/-- Whether an option may set one mode after another: it may allow no more, or turn to memory. -/
def Mode.allows (before after : Mode) : Bool :=
  after = .memory || after.rank ≤ before.rank

/-- The mode after an option; no result if the value of the option is none for it. -/
def Mode.after? (before : Mode) : String × String → Option Mode
  | ("cache", value) => if value = "shared" || value = "private" then some before else none
  | ("mode", value) => do
    let mode ← Mode.ofName? value
    if before.allows mode then return mode else none
  | _ => some before

/-- The usage with a name. -/
def Usage.ofName? : String → Option Usage
  | "unix" => some .shared
  | "unix-excl" => some .alone
  | "unix-none" => some .apart
  | "unix-dotfile" => some .signed
  | "memdb" => some .fileless
  | _ => none

/-- The number at the start of a text, in decimal or, after `0x`, in hexadecimal digits. -/
def leadingNumber? (cs : List Char) : Option Nat :=
  let digits := cs.takeWhile Char.isDigit
  let hexDigits := (cs.drop 2).takeWhile Text.isHexDigit
  if digits.isEmpty then none
  else if (['0', 'x'].isPrefixOf cs || ['0', 'X'].isPrefixOf cs) && !hexDigits.isEmpty then
    some (Text.hexadecimal hexDigits)
  else some (Text.decimal digits)

/-- Whether the value of an option switches it on: a word for it, or a number that is not a
multiple of 256. -/
def switchesOn (value : String) : Bool :=
  match leadingNumber? value.toList with
  | some n => n < 0x80000000 && n % 256 != 0
  | none => ["on", "yes", "true"].contains (value.map Char.toLower)

/-! ### Escapes -/

/-- The byte that two hexadecimal digits write, themselves bytes. -/
def escapedByte? (a b : UInt8) : Option UInt8 := do
  let high ← Text.hexDigit? (Char.ofNat a.toNat)
  let low ← Text.hexDigit? (Char.ofNat b.toNat)
  return UInt8.ofNat (16 * high + low)

/-- Bytes with percent escapes replaced.  An escaped zero ends them. -/
def unescapeBytes : List UInt8 → List UInt8
  | c :: a :: b :: rest =>
    if c = '%'.toUInt8 then
      match escapedByte? a b with
      | some 0 => []
      | some n => n :: unescapeBytes rest
      | none => c :: unescapeBytes (a :: b :: rest)
    else c :: unescapeBytes (a :: b :: rest)
  | rest => rest

/-- A text with percent escapes replaced.  The result has a character for each byte, since the
bytes need not be those of a text. -/
def unescape (s : String) : String :=
  String.ofList ((unescapeBytes s.toUTF8.toList).map fun b => Char.ofNat b.toNat)

/-- The path for a text that has a character for each byte. -/
def unescapedPath (s : String) : Path := .ofBytes (s.toList.map fun c => UInt8.ofNat c.toNat)

/-! ### Reading -/

/-- What stands before a character, and what after it. -/
def cutAtChar (c : Char) (s : String) : String × String :=
  (String.ofList (s.toList.takeWhile (· != c)), String.ofList ((s.toList.dropWhile (· != c)).drop 1))

/-- The options with names among what stands between ampersands. -/
def optionsOf (query : String) : List (String × String) :=
  let pairs := (query.splitOn "&").map fun o =>
    let (name, value) := cutAtChar '=' o
    (unescape name, unescape value)
  pairs.filter (·.1 != "")

/-- Whether the first option with a name is there and switched on. -/
def optionOn (name : String) (options : List (String × String)) : Bool :=
  (options.lookup name).any switchesOn

/-- The text after the authority of a name, which may only be the own machine. -/
def afterAuthority? (s : String) : Option String :=
  match s.toList with
  | '/' :: '/' :: cs =>
    let authority := String.ofList (cs.takeWhile (· != '/'))
    if authority = "" || authority = "localhost" then some (String.ofList (cs.dropWhile (· != '/')))
    else none
  | _ => some s

/-- The database that a name with `file:` stands for, given what follows that.  Of several options
for the usage the last counts, of several for a switch or a model the first. -/
def DatabasePath.ofReference? (s : String) : Option DatabasePath := do
  let (address, _) := cutAtChar '#' (← afterAuthority? s)
  let (path, query) := cutAtChar '?' address
  let options := optionsOf query
  return {
    path := unescapedPath (unescape path)
    mode := ← options.foldlM Mode.after? .create
    usage := ← Usage.ofName? ((options.reverse.lookup "vfs").getD "unix")
    locked := !optionOn "nolock" options
    frozen := optionOn "immutable" options
    indexFixed := optionOn "readonly_shm" options
    model := (options.lookup "modeof").map unescapedPath }

/-- The database that a name stands for. -/
def DatabasePath.read? (name : String) : Option DatabasePath :=
  match name.toList with
  | 'f' :: 'i' :: 'l' :: 'e' :: ':' :: cs => DatabasePath.ofReference? (String.ofList cs)
  | _ => some (.plain (.ofText name))

/-! ### Files -/

/-- Whether the path names no file. -/
def DatabasePath.isUnnamed (d : DatabasePath) : Bool :=
  d.path = .ofText "" || d.path = .ofText ":memory:"

/-- Whether the database is kept in no file. -/
def DatabasePath.isFileless (d : DatabasePath) : Bool :=
  d.isUnnamed || d.mode = .memory || d.usage = .fileless

/-- Whether the database can be changed.  Memory is not said to be frozen. -/
def DatabasePath.isWritable (d : DatabasePath) : Bool :=
  d.mode != .read && (d.isUnnamed || d.mode = .memory || !d.frozen)

/-- Whether a log of changes may be written ahead of the file. -/
def DatabasePath.logsAhead (d : DatabasePath) : Bool :=
  (d.usage = .shared || d.usage = .alone) && d.locked && !d.frozen

end XmlHarvest.CommandLine
