/-
Access to a database.

Every access either does all of its work or, apart from the two that are named here, nothing.
Clearing a database without tables leaves its transaction open, and a migration inside an open
transaction creates the table of versions before it fails.
-/
import XmlHarvest.Store.Contents

namespace XmlHarvest

/-! ### Errors -/

/-- Why an access fails. -/
inductive StoreError
  /-- There are no tables for what was asked. -/
  | refused
  /-- The ledger cannot be read. -/
  | reading (key : String)
  /-- A write to the ledger fails. -/
  | writing (mode : WriteMode) (key : String)
  /-- A migration cannot be applied. -/
  | migrating (migration : Migration)
  /-- The database cannot be cleared. -/
  | resetting
  /-- The text of a stored document is none. -/
  | corrupt (id : Nat)
  /-- The mark of the document parsed last is no number. -/
  | badMark (key text : String)
  deriving DecidableEq, Repr

/-- The texts of the errors that have one of their own. -/
def StoreError.message? : StoreError → Option String
  | refused => none
  | reading key => some ("Failed to read ledger key " ++ key)
  | writing mode key => some ("Failed to " ++ mode.verb ++ " ledger key " ++ key)
  | migrating m => some ("Failed to apply migration " ++ m.version ++ ": " ++ m.name)
  | resetting => some "Failed to reset database"
  | corrupt id => some ("Corrupt document tree for document " ++ toString id)
  | badMark key text => some ("Invalid " ++ key ++ " marker: " ++ text)

/-! ### Databases -/

/-- A database that is open. -/
structure Database where
  contents : Contents
  /-- What was committed last, when a transaction has been left open since. -/
  committed : Option Contents
  deriving DecidableEq, Repr

/-- A database with some contents and no open transaction. -/
def Database.ofContents (c : Contents) : Database := ⟨c, none⟩

/-- A new database. -/
def Database.fresh : Database := .ofContents .fresh

/-- A new database with its tables. -/
def Database.migrated : Database :=
  .ofContents ⟨some [Migration.initial], some .empty, []⟩

/-- Close the database and open it again, which loses what was not committed. -/
def Database.reopen (db : Database) : Database := .ofContents (db.committed.getD db.contents)

/-- An access that yields a value. -/
abbrev Access := EStateM StoreError Database

namespace Access

/-- Look at the tables. -/
def look {α : Type} (error : StoreError) (view : Tables → Except StoreError α) : Access α := fun db =>
  match db.contents.tables with
  | none => .error error db
  | some t =>
    match view t with
    | .ok a => .ok a db
    | .error e => .error e db

/-- Change the tables. -/
def alter {α : Type} (error : StoreError) (change : Contents → Tables → Except StoreError (α × Tables)) :
    Access α := fun db =>
  match db.contents.tables with
  | none => .error error db
  | some t =>
    match change db.contents t with
    | .ok (a, t) => .ok a { db with contents.tables := some t }
    | .error e => .error e db

/-- Do accesses as one transaction: when one of them fails, what was done before it is undone. -/
def transaction {α : Type} (accesses : Access α) : Access α := fun db =>
  match accesses db with
  | .ok a db' => .ok a db'
  | .error e _ => .error e db

/-! ### Migrating and clearing -/

/-- Make a step of a migration.  Inside a transaction that was left open no other can begin. -/
def makeStep (s : MigrationStep) : Access Unit := fun db =>
  match s.transaction?, db.committed with
  | some m, some _ => .error (.migrating m) db
  | _, _ => .ok () { db with contents := s.make db.contents }

/-- Bring the tables about, one step after the other. -/
def migrate : Access Unit := fun db => db.contents.migrationSteps.forM makeStep db

/-- What a migration comes to. -/
theorem migrate_eq (db : Database) : migrate db =
    let db := { db with contents := db.contents.createVersions }
    if db.contents.hasVersion .initial then .ok () db
    else if db.committed.isSome then .error (.migrating .initial) db
    else .ok () { db with contents := db.contents.createTables.recordVersion .initial } := by
  obtain ⟨c, committed⟩ := db
  simp only [migrate, Contents.migrationSteps]
  by_cases hversion : c.createVersions.hasVersion .initial = true
  · simp only [if_pos hversion]
    rfl
  · simp only [if_neg hversion]
    cases committed <;> rfl

/-- Remove all documents and progress; ids count from one again.  Where there are no tables it stops
in the middle of its transaction, and where a transaction was left open it cannot begin.  Other ways
to stop in the middle, at one of the later removals, are left out: that the file is locked, that a
trigger forbids a removal, and that only one of the tables is there. -/
def reset : Access Unit := fun db =>
  if db.committed.isSome then .error .resetting db
  else
    match db.contents.tables with
    | none => .error .resetting { db with committed := some db.contents }
    | some _ => .ok () { db with contents.tables := some .empty }

/-! ### Ledger -/

/-- The value under a key of the ledger. -/
def ledgerValue (key : String) : Access String :=
  look (.reading key) fun t => .ok (Ledger.value t.ledger key)

/-- Write to the ledger. -/
def log (w : LedgerWrite) : Access Unit :=
  alter (.writing w.mode w.key) fun c t =>
    if c.rejects w then .error (.writing w.mode w.key) else .ok ((), t.log w)

/-- All keys of the ledger with their values, in the order of the keys. -/
def ledgerEntries : Access (List (String × String)) := look .refused fun t => .ok t.ledger.entries

/-! ### Documents -/

/-- Fail where there are no tables. -/
def needTables : Access Unit := look .refused fun _ => .ok ()

/-- Store one document behind the others and yield its id. -/
def insert (source : String) (d : Document) : Access Nat :=
  alter .refused fun _ t => .ok (t.lastId + 1, t.add source [d])

/-- Store documents of one source, one after the other, and then write to the ledger if that is
asked for; all or nothing.  Yields the ids. -/
def store (source : String) (ds : List Document) (entry : Option LedgerWrite) :
    Access (List Nat) :=
  transaction do
    needTables
    let ids ← ds.mapM (insert source)
    entry.forM log
    return ids

/-- Store documents of one source, all or none, and yield their ids. -/
def save (source : String) (ds : List Document) : Access (List Nat) := store source ds none

/-- Store documents of one source together with a write to the ledger, all or nothing. -/
def saveLogged (source : String) (ds : List Document) (w : LedgerWrite) : Access (List Nat) :=
  store source ds (some w)

/-- The document with an id, if there is one. -/
def document? (id : Int) : Access (Option StoredDocument) :=
  look .refused fun t =>
    match t.row? id with
    | none => .ok none
    | some r =>
      match r.document? with
      | some d => .ok (some d)
      | none => .error (.corrupt r.id)

/-- The ids of all documents, in increasing order. -/
def ids : Access (List Nat) := look .refused fun t => .ok t.ids

/-- The sources in the order in which they were stored first. -/
def sources : Access (List String) := look .refused fun t => .ok t.sources

/-- How many documents there are. -/
def documentCount : Access Nat := look .refused fun t => .ok t.rows.length

/-- How many sentences the documents have together. -/
def sentenceCount : Access Nat := look .refused fun t => .ok t.sentenceCount

/-! ### Changes from outside -/

/-- Let every write to a key of the ledger fail from now on. -/
def reject (key : String) : Access Unit := fun db =>
  match db.contents.tables with
  | none => .error .refused db
  | some _ => .ok () { db with contents.rejected := key :: db.contents.rejected }

/-- Let all writes succeed again. -/
def allow : Access Unit := fun db => .ok () { db with contents.rejected := [] }

/-- Change the row with an id, and yield how many rows there are with it. -/
def edit (id : Int) (change : Row → Row) : Access Nat :=
  alter .refused fun _ t => .ok (t.rows.countP fun r => (r.id : Int) == id, t.edit id change)

end Access

end XmlHarvest
