/-
What a database file holds, and the migrations that bring its tables about.

A migration is a list of steps that are committed one by one: the table of versions is created, the
tables are created, and the version is recorded (`Contents.migrationSteps`).  A step that finds its
work done changes nothing, so a migration that was cut off is made up for by the next.
-/
import XmlHarvest.Store.Tables

namespace XmlHarvest

/-- A change of the tables with its version. -/
structure Migration where
  version : String
  name : String
  deriving DecidableEq, Repr

/-- The migration that creates the tables. -/
def Migration.initial : Migration := ⟨"001", "initial"⟩

/-- What a database holds. -/
structure Contents where
  /-- The migrations that were applied, if there is a table of them. -/
  versions : Option (List Migration)
  /-- Documents and ledger, if there are tables for them.  The tables are there or missing together:
  a file with only some of them is left out, and so are triggers, but for those that reject writes
  to keys of the ledger. -/
  tables : Option Tables
  /-- Keys of the ledger to which every write fails. -/
  rejected : List String
  deriving DecidableEq, Repr

namespace Contents

/-- A new database. -/
def fresh : Contents := ⟨none, none, []⟩

/-- Create the table of versions unless it is there. -/
def createVersions (c : Contents) : Contents :=
  { c with versions := some (c.versions.getD []) }

/-- Create the tables unless they are there. -/
def createTables (c : Contents) : Contents :=
  { c with tables := some (c.tables.getD .empty) }

/-- Record a migration as applied. -/
def recordVersion (m : Migration) (c : Contents) : Contents :=
  { c with versions := c.versions.map (· ++ [m]) }

/-- Whether a migration's version is recorded. -/
def hasVersion (m : Migration) (c : Contents) : Bool :=
  (c.versions.getD []).any fun a => a.version == m.version

/-- Whether a write to the ledger fails. -/
def rejects (c : Contents) (w : LedgerWrite) : Bool := c.rejected.contains w.key

end Contents

/-! ### Steps of a migration -/

/-- What a migration commits at a time. -/
inductive MigrationStep
  | createVersions
  /-- The tables are created in a transaction of their own. -/
  | createTables (migration : Migration)
  | recordVersion (migration : Migration)
  deriving DecidableEq, Repr

namespace MigrationStep

/-- What the step makes of the contents. -/
def make : MigrationStep → Contents → Contents
  | createVersions, c => c.createVersions
  | createTables _, c => c.createTables
  | recordVersion m, c => c.recordVersion m

/-- The migration for which the step begins a transaction, if it does. -/
def transaction? : MigrationStep → Option Migration
  | createTables m => some m
  | createVersions | recordVersion _ => none

end MigrationStep

/-- The steps that a migration commits one after the other.  When the version is recorded, all that
is done is to make sure of the table of versions. -/
def Contents.migrationSteps (c : Contents) : List MigrationStep :=
  .createVersions ::
    if c.createVersions.hasVersion .initial then []
    else [.createTables .initial, .recordVersion .initial]

end XmlHarvest
