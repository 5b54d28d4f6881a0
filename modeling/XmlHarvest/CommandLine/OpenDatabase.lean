/-
Opening databases, and keeping what was done to them.
-/
import XmlHarvest.CommandLine.SideFiles
import XmlHarvest.Pipeline.Run

namespace XmlHarvest.CommandLine

/-- Where an open database is kept. -/
structure Place where
  file : Path
  /-- How changes reach the file, as it says itself. -/
  journal : Journal
  /-- The log, if one is open. -/
  log : Option OpenLog
  deriving DecidableEq, Repr

/-- A database that was opened, with where it is kept. -/
structure OpenDatabase where
  /-- What it held when it was opened, its tables brought about. -/
  contents : Contents
  /-- Where it is kept, unless it is gone in the end. -/
  place : Option Place
  writable : Bool
  deriving DecidableEq, Repr

/-- What a database starts with, given what its file holds and whether a log was left beside it.
A log that was written ahead cannot be done without, unless the file is frozen; where one can be
written, it is from now on. -/
def DatabasePath.start? (d : DatabasePath) (logged : Bool) : Option Filed → Option Filed
  | none =>
    if d.isWritable then some ⟨if d.logsAhead then .ahead else .rollback, .fresh⟩ else none
  | some ⟨.rollback, c⟩ =>
    if logged || !d.logsAhead then some ⟨.rollback, c⟩
    else if d.isWritable then some ⟨.ahead, c⟩
    else none
  | some ⟨.ahead, c⟩ => if d.logsAhead || d.frozen then some ⟨.ahead, c⟩ else none

/-- The contents with the tables brought about; nothing if that is a change and none may be made. -/
def migrated? (writable : Bool) (c : Contents) : Option Contents :=
  match Access.migrate (.ofContents c) with
  | .ok () db => if writable || db.contents = c then some db.contents else none
  | .error _ _ => none

/-- A run on an open database, which is cut off at its first write if it may not change it. -/
def OpenDatabase.startRun (o : OpenDatabase) : Run Unit :=
  { Run.start (.ofContents o.contents) () with writesLeft := if o.writable then none else some 0 }

variable {m : Type → Type} [Monad m]

/-! ### Keeping -/

/-- Put contents where they are kept; no result if that fails. -/
def Place.keep (files : Files m) (p : Place) (c : Contents) : OptionT m Unit :=
  if p.log.isSome then do guard (← files.write p.file (Filed.write ⟨p.journal, c⟩))
  else writeUnderJournal files p.file ⟨p.journal, c⟩

/-- Keep what a database holds now; no result if that fails.  There is nothing to keep of one that
was not or may not be changed. -/
def OpenDatabase.keep (files : Files m) (o : OpenDatabase) (db : Database) : OptionT m Unit := do
  if let some place := o.place then
    if o.writable && db.contents ≠ o.contents then place.keep files db.contents

/-- Close a database. -/
def OpenDatabase.close (files : Files m) (o : OpenDatabase) : m Unit :=
  (o.place.bind (·.log)).forM (·.close files)

/-! ### Finding the file -/

/-- How long the path of a file may be, which has that of the directory before it. -/
def maxFileSize : Nat := 488

/-- How much longer a path may be on the way to a file. -/
def detourSize : Nat := 7

/-- Follow a name from where other names lead; `..` takes back the name before it.  It need not be
known what is there, but it must not be a file that another name follows. -/
def followName (files : Files m) (here : Path) (name : FileName) : OptionT m Path := do
  if name.isIdle then return here
  else
    match if name = .text ".." then here.back? else none with
    | some back => return back
    | none =>
      let next : Path := ⟨here.names ++ [name]⟩
      guard (next.size ≤ maxFileSize + detourSize)
      if let some (some _) ← files.look here then failure
      return next

/-- The path of the file of a database, without steps that lead nowhere or back. -/
def DatabasePath.findFile (files : Files m) (d : DatabasePath) : OptionT m Path := do
  let start : Path := ⟨if d.path.isAbsolute then [.text ""] else []⟩
  let file ← d.path.names.foldlM (followName files) start
  guard (!file.names.isEmpty && file.size ≤ maxFileSize)
  return file

/-! ### Opening -/

/-- The content of the file of a database, which is created if it is missing and may be. -/
def DatabasePath.content (files : Files m) (d : DatabasePath) (file : Path) :
    OptionT m ByteArray := do
  if let some model := d.model then guard (← files.look model).isSome
  match ← files.look file with
  | some (some content) => return content
  | some none => failure
  | none =>
    guard (d.mode = .create)
    guard (← files.write file .empty)
    return .empty

/-- Open the log that a database needs, having made its file one with a log. -/
def DatabasePath.startLog (files : Files m) (d : DatabasePath) (file : Path) (logged : Bool)
    (stored : Option Filed) (start : Filed) : OptionT m (Option OpenLog) := do
  if logged then some <$> d.openLog files file
  else if start.journal = .ahead && !d.frozen then
    if stored ≠ some start then writeUnderJournal files file start
    some <$> d.openLog files file
  else return none

/-- Open a database that is kept in a file. -/
def DatabasePath.openFile (files : Files m) (d : DatabasePath) (file : Path) :
    OptionT m OpenDatabase := do
  let content ← d.content files file
  let logged ← d.settle files file (content.size ≤ 1)
  match Filed.read? content with
  | none =>
    if logged then OptionT.lift ((← d.openLog files file).close files)
    failure
  | some stored =>
    let some start := d.start? logged stored | failure
    let log ← d.startLog files file logged stored start
    let writable := d.isWritable && log.all (·.writable)
    let some contents := migrated? writable start.contents | failure
    let place : Place := ⟨file, start.journal, log⟩
    let opened : OpenDatabase := ⟨contents, some place, writable⟩
    if contents ≠ start.contents then
      place.keep files contents <|> do
        OptionT.lift (opened.close files)
        failure
    return opened

/-- Open a database. -/
def DatabasePath.opened (files : Files m) (d : DatabasePath) : OptionT m OpenDatabase := do
  if d.isFileless then
    let some contents := migrated? d.isWritable .fresh | failure
    return ⟨contents, none, d.isWritable⟩
  else d.openFile files (← d.findFile files)

/-- Open the database with a name, and bring its tables about.  The directories that the name leads
through are created first. -/
def openDatabase (files : Files m) (name : String) : m (Option OpenDatabase) :=
  OptionT.run do
    guard (← files.createDirectories (Path.ofText name).parent)
    let some d := DatabasePath.read? name | failure
    d.opened files

end XmlHarvest.CommandLine
