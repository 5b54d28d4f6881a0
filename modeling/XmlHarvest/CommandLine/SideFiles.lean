/-
The files beside the file of a database.

Beside it may stand a journal, from which a change that was cut off is rolled back, and a log with
the changes that did not reach the file yet, to which its users share an index.  Both stand there
only as long as they are needed, but may be left behind.  What is left behind by others is no
change of the database: it is done away with, unless it cannot be.
-/
import XmlHarvest.CommandLine.DatabasePath
import XmlHarvest.CommandLine.Files
import XmlHarvest.Store.Filed

namespace XmlHarvest.CommandLine

/-! ### Paths -/

/-- The path of the journal of a file. -/
def journalPath (file : Path) : Path := file.beside "-journal"

/-- The path of the log of a file. -/
def logPath (file : Path) : Path := file.beside "-wal"

/-- The path of the index of a log. -/
def indexPath (file : Path) : Path := file.beside "-shm"

/-- The path of the directory that says that somebody uses a file. -/
def signPath (file : Path) : Path := file.beside ".lock"

/-! ### What is left behind -/

variable {m : Type → Type} [Monad m]

/-- What is at a path, if there is something; that there is nothing is no failure. -/
def Files.look (files : Files m) (path : Path) : OptionT m (Option (Option ByteArray)) :=
  OptionT.lift (files.read path)

/-- Whether the file can be claimed for a change, before one is known to be allowed. -/
def DatabasePath.canClaim (d : DatabasePath) : Bool :=
  d.mode != .read || !d.locked || d.usage = .apart || d.usage = .signed

/-- Do away with a journal that is left beside a file; no result if that is impossible.  A journal
that begins with a zero was finished, and an empty file has no change to be rolled back. -/
def DatabasePath.settleJournal (files : Files m) (d : DatabasePath) (file : Path)
    (isEmpty : Bool) : OptionT m Unit := do
  match ← files.look (journalPath file) with
  | none => return
  | some none => guard isEmpty
  | some (some content) =>
    if content.isEmpty then return
    else if isEmpty then
      if d.canClaim then let _ ← files.remove (journalPath file)
    else if content.data[0]? = some 0 then return
    else
      guard (d.mode != .read)
      guard (← files.remove (journalPath file))

/-- Whether a log is left beside a file; no result if it cannot be dealt with.  That of an empty
file is removed. -/
def DatabasePath.findLog (files : Files m) (d : DatabasePath) (file : Path) (isEmpty : Bool) :
    OptionT m Bool := do
  match ← files.look (logPath file) with
  | none => return false
  | some none => failure
  | some (some content) =>
    if content.isEmpty then return false
    else if isEmpty then
      guard (← files.remove (logPath file))
      return false
    else
      guard d.logsAhead
      return true

/-- Settle what is left beside a file, and say whether a log is.  A file that will never change
has no use for it.  A sign that somebody uses the file keeps others from locking it, and those that
lock nothing from its journal. -/
def DatabasePath.settle (files : Files m) (d : DatabasePath) (file : Path) (isEmpty : Bool) :
    OptionT m Bool := do
  if d.frozen then return false
  else
    let used := d.usage = .signed && (← files.look (signPath file)).isSome
    guard !(used && d.locked)
    unless used do d.settleJournal files file isEmpty
    d.findLog files file isEmpty

/-! ### Changes -/

/-- What stands in a log, an index or a journal while it is used.  It is neither a text nor a
database. -/
def inUse : ByteArray := ⟨#[0xFF, 0xFF]⟩

/-- Put a database into its file; until that is done, a journal stands beside it. -/
def writeUnderJournal (files : Files m) (file : Path) (f : Filed) : OptionT m Unit := do
  guard (← files.write (journalPath file) inUse)
  guard (← files.write file f.write)
  guard (← files.remove (journalPath file))

/-- A log that is open. -/
structure OpenLog where
  /-- Whether changes can be written to it. -/
  writable : Bool
  /-- The files that are removed when it is closed. -/
  passing : List Path
  deriving DecidableEq, Repr

/-- Whether the index of a log stands beside the file.  One user alone, who claims the file,
needs none there. -/
def DatabasePath.sharesIndex (d : DatabasePath) : Bool := d.usage != .alone || d.mode = .read

/-- Make the index of a log ready, and say whether it can be changed; no result if it is missing
and must not be created. -/
def DatabasePath.openIndex (files : Files m) (d : DatabasePath) (file : Path) : OptionT m Bool := do
  if !d.sharesIndex then return true
  else
    let found ← files.look (indexPath file)
    if d.indexFixed then
      guard found.isSome
      return false
    else
      match found with
      | some none => return false
      | _ => files.write (indexPath file) inUse

/-- How many bytes the head of a log has. -/
def logHeadSize : Nat := 32

/-- Whether a log has a head with salt in it, which are eight bytes from the sixteenth on. -/
def isSalted (log : ByteArray) : Bool :=
  logHeadSize ≤ log.size && (log.extract 16 24).data.any (· != 0)

/-- Open the log of a file.  One that cannot be changed is left behind; if its index cannot be
changed, it must have no salt, since that could not be noted. -/
def DatabasePath.openLog (files : Files m) (d : DatabasePath) (file : Path) :
    OptionT m OpenLog := do
  let found ← files.look (logPath file)
  if found.isNone then guard (← files.write (logPath file) .empty)
  let indexed ← d.openIndex files file
  guard (indexed || !(found.join.any isSalted))
  if indexed && d.isWritable then
    guard (← files.write (logPath file) inUse)
    return ⟨true, if d.sharesIndex then [logPath file, indexPath file] else [logPath file]⟩
  else return ⟨false, []⟩

/-- Close a log. -/
def OpenLog.close (files : Files m) (l : OpenLog) : m Unit :=
  l.passing.forM fun path => do let _ ← files.remove path

end XmlHarvest.CommandLine
